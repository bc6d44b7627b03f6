import Euvieouvi.Lib.Programs

/-!
# The stores of a run

`stores` lists every store that a run goes through, whether it ends normally or fails.
`p.Always P I` says that from a store with `P` all of them have `I`, and `Stays I` that none of them
loses `I`.
-/

namespace Euvieouvi

namespace Program

variable {σ κ ε : Type} {α β : Type} [DecidableEq κ]

def stores {α : Type} : Program σ κ ε α → Session σ κ → List σ
  | .done _, s => [s.store]
  | .fail _, s => [s.store]
  | .access f next, s => s.store :: (next (f s.store).1).stores { s with store := (f s.store).2 }
  | .consult key next, s => (next (decide (key ∈ s.cache))).stores s
  | .remember key next, s => next.stores { s with cache := key :: s.cache }
  | .savepoint body next, s =>
    body.stores s ++ match body.run s with
      | (.ok b, s') => (next (.ok b)).stores s'
      | (.error e, s') => (next (.error e)).stores { s' with store := s.store }

theorem mem_stores_run (p : Program σ κ ε α) (s : Session σ κ) :
    (p.run s).2.store ∈ p.stores s := by
  induction p generalizing s with
  | done | fail => exact List.mem_singleton.2 rfl
  | access f next ih => exact List.mem_cons_of_mem _ (ih _ _)
  | consult key next ih => exact ih _ s
  | remember key next ih => exact ih _
  | savepoint body next _ ih =>
    simp only [run, stores]
    generalize body.run s = r
    obtain ⟨e | b, s'⟩ := r
    exacts [List.mem_append_right _ (ih _ _), List.mem_append_right _ (ih _ _)]

/-- A sequence goes through the stores of its first part and, if that ends normally, those of the
second. -/
theorem mem_stores_bind {p : Program σ κ ε α} {f : α → Program σ κ ε β} {s : Session σ κ} {t : σ}
    (h : t ∈ (p >>= f).stores s) : t ∈ p.stores s ∨ ∃ a u, p.Returns s a u ∧
    t ∈ (f a).stores u := by
  change t ∈ (p.andThen f).stores s at h
  unfold Returns
  induction p generalizing s with
  | done a => exact .inr ⟨a, s, rfl, h⟩
  | fail e => exact .inl h
  | access g next ih =>
    simp only [andThen, stores, run, List.mem_cons] at h ⊢
    rcases h with h | h
    · exact .inl (.inl h)
    · exact (ih _ h).imp .inr id
  | consult key next ih => exact ih _ h
  | remember key next ih => exact ih h
  | savepoint body next _ ih =>
    simp only [andThen, stores, run, List.mem_append] at h ⊢
    generalize body.run s = r at h ⊢
    obtain ⟨e | b, s'⟩ := r
    all_goals
      rcases h with h | h
      · exact .inl (.inl h)
      · exact (ih _ h).imp .inr id

/-- Every store of a run that starts in one with `P` has `I`. -/
def Always (P I : σ → Prop) (p : Program σ κ ε α) : Prop := ∀ s, P s.store → ∀ t ∈ p.stores s, I t

/-- No store of a run loses `I`. -/
abbrev Stays (I : σ → Prop) (p : Program σ κ ε α) : Prop := p.Always I I

namespace Always
variable {P P' I I' : σ → Prop} {M : α → σ → Prop} {p : Program σ κ ε α} {f : α → Program σ κ ε β}

theorem mono (h : p.Always P I) (hP : ∀ s, P' s → P s) (hI : ∀ t, I t → I' t) : p.Always P' I' :=
  fun s hs t ht => hI t (h s (hP _ hs) t ht)

/-- A fact about the first store may be used to prove what all of them have. -/
theorem of_forall (h : ∀ s, P s → p.Always (· = s) I) : p.Always P I :=
  fun s hs t ht => h s.store hs s rfl t ht

theorem bind (hp : p.Always P I) (hM : p.Ensures P M) (hf : ∀ a, (f a).Always (M a) I) :
    (p >>= f).Always P I := by
  intro s hs t ht
  rcases mem_stores_bind ht with ht | ⟨a, u, hu, ht⟩
  · exact hp s hs t ht
  · exact hf a u (hM s a u hs hu) t ht

/-- A first part that keeps more than the whole has to. -/
theorem bind_stays {J : σ → Prop} (hJ : ∀ t, J t → I t) (hp : p.Always J J)
    (hM : p.Ensures J fun _ => J) (hf : ∀ a, (f a).Always J I) : (p >>= f).Always J I :=
  bind (hp.mono (fun _ h => h) hJ) hM hf

theorem read_bind {g : σ → α} (hI : ∀ s, P s → I s) (h : ∀ s, P s → (f (g s)).Always (· = s) I) :
    (Program.read g >>= f).Always P I := by
  intro s hs t ht
  rcases List.mem_cons.1 (show t ∈ s.store :: (f (g s.store)).stores s from ht) with rfl | ht
  exacts [hI _ hs, h s.store hs s rfl t ht]

theorem write_bind {g : σ → σ} {f : Unit → Program σ κ ε β} (hI : ∀ s, P s → I s)
    (h : ∀ s, P s → (f ()).Always (· = g s) I) :
    (Program.write g >>= f).Always P I := by
  intro s hs t ht
  rcases List.mem_cons.1 (show t ∈ s.store :: (f ()).stores { s with store := g s.store } from ht)
    with rfl | ht
  exacts [hI _ hs, h s.store hs { s with store := g s.store } rfl t ht]

end Always

namespace Stays
variable {I : σ → Prop} {p q : Program σ κ ε α} {f : α → Program σ κ ε β}

theorem ensures (h : Stays I p) : p.Ensures I fun _ => I := by
  intro s a s' hs hr
  have hmem := p.mem_stores_run s
  rw [show p.run s = (.ok a, s') from hr] at hmem
  exact h s hs _ hmem

/-- From a store with `I` all stores have it. -/
theorem start {s : σ} (h : Stays I p) (hs : I s) : p.Always (· = s) I :=
  h.mono (by rintro _ rfl; exact hs) fun _ h => h

theorem pure (a : α) : Stays I (Pure.pure a : Program σ κ ε α) := fun s hs t ht => by
  rw [List.mem_singleton.1 ht]
  exact hs

theorem fail (e : ε) : Stays I (Program.fail e : Program σ κ ε α) := fun s hs t ht => by
  rw [List.mem_singleton.1 ht]
  exact hs

theorem read (g : σ → α) : Stays I (Program.read g : Program σ κ ε α) := by
  intro s hs t ht
  rcases List.mem_cons.1 ht with rfl | ht
  · exact hs
  · rw [List.mem_singleton.1 ht]
    exact hs

theorem write {g : σ → σ} (h : ∀ s, I s → I (g s)) :
    Stays I (Program.write g : Program σ κ ε Unit) := by
  intro s hs t ht
  rcases List.mem_cons.1 ht with rfl | ht
  · exact hs
  · rw [List.mem_singleton.1 ht]
    exact h _ hs

theorem cached (key : κ) : Stays I (Program.cached key : Program σ κ ε Bool) := fun s hs t ht => by
  rw [List.mem_singleton.1 ht]
  exact hs

theorem enter (key : κ) : Stays I (Program.enter key : Program σ κ ε Unit) := fun s hs t ht => by
  rw [List.mem_singleton.1 ht]
  exact hs

theorem bind (hp : Stays I p) (hf : ∀ a, Stays I (f a)) : Stays I (p >>= f) :=
  Always.bind hp hp.ensures hf

theorem ite {c : Prop} [Decidable c] (hp : c → Stays I p) (hq : ¬ c → Stays I q) :
    Stays I (if c then p else q) := by
  split
  next h => exact hp h
  next h => exact hq h

theorem foldlM {g : β → α → Program σ κ ε β} (l : List α) (h : ∀ b x, Stays I (g b x)) (b : β) :
    Stays I (l.foldlM g b) := by
  induction l generalizing b with
  | nil => exact pure b
  | cons x l ih =>
    rw [List.foldlM_cons]
    exact bind (h b x) fun b => ih b

theorem forM {g : α → Program σ κ ε PUnit} (l : List α) (h : ∀ x ∈ l, Stays I (g x)) :
    Stays I (l.forM g) := by
  induction l with
  | nil => exact pure PUnit.unit
  | cons x l ih =>
    show Stays I (g x >>= fun _ => l.forM g)
    exact bind (h x List.mem_cons_self) fun _ => ih fun y hy => h y (List.mem_cons_of_mem x hy)

end Stays

end Program

end Euvieouvi
