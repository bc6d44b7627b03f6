import Mathlib.Data.List.Basic

/-!
# Programs over a store and a cache

A program reads and writes a store, may fail, and keeps a cache of keys beside the store. An
`attempt` runs a program inside a savepoint: when it fails, the store is taken back but the cache is
not. `Returns` is the big-step reading of a program, with one inversion rule for each way to build
one, and `Ensures` relates what holds before a normal run to what holds after it.
-/

namespace Euvieouvi

structure Session (σ κ : Type) where
  store : σ
  cache : List κ := []

inductive Program (σ κ ε : Type) : Type → Type 1
  | done {α : Type} (a : α) : Program σ κ ε α
  | fail {α : Type} (e : ε) : Program σ κ ε α
  | access {α β : Type} (f : σ → β × σ) (next : β → Program σ κ ε α) : Program σ κ ε α
  | consult {α : Type} (key : κ) (next : Bool → Program σ κ ε α) : Program σ κ ε α
  | remember {α : Type} (key : κ) (next : Program σ κ ε α) : Program σ κ ε α
  | savepoint {α β : Type} (body : Program σ κ ε β) (next : Except ε β → Program σ κ ε α) :
    Program σ κ ε α

namespace Program

variable {σ κ ε : Type} {α β : Type}

def andThen {α β : Type} : Program σ κ ε α → (α → Program σ κ ε β) → Program σ κ ε β
  | .done a, f => f a
  | .fail e, _ => .fail e
  | .access g next, f => .access g fun b => (next b).andThen f
  | .consult key next, f => .consult key fun b => (next b).andThen f
  | .remember key next, f => .remember key (next.andThen f)
  | .savepoint body next, f => .savepoint body fun r => (next r).andThen f

instance : Monad (Program σ κ ε) where
  pure := .done
  bind := andThen

def read (f : σ → α) : Program σ κ ε α := .access (fun s => (f s, s)) .done

def write (f : σ → σ) : Program σ κ ε Unit := .access (fun s => ((), f s)) .done

def cached (key : κ) : Program σ κ ε Bool := .consult key .done

def enter (key : κ) : Program σ κ ε Unit := .remember key (.done ())

def attempt (body : Program σ κ ε α) : Program σ κ ε (Except ε α) := .savepoint body .done

variable [DecidableEq κ]

def run {α : Type} : Program σ κ ε α → Session σ κ → Except ε α × Session σ κ
  | .done a, s => (.ok a, s)
  | .fail e, s => (.error e, s)
  | .access f next, s => (next (f s.store).1).run { s with store := (f s.store).2 }
  | .consult key next, s => (next (decide (key ∈ s.cache))).run s
  | .remember key next, s => next.run { s with cache := key :: s.cache }
  | .savepoint body next, s =>
    match body.run s with
    | (.ok b, s') => (next (.ok b)).run s'
    | (.error e, s') => (next (.error e)).run { s' with store := s.store }

theorem run_bind (p : Program σ κ ε α) (f : α → Program σ κ ε β) (s : Session σ κ) :
    (p >>= f).run s = match p.run s with
      | (.ok a, s') => (f a).run s'
      | (.error e, s') => (.error e, s') := by
  show (p.andThen f).run s = _
  induction p generalizing s with
  | done => rfl
  | fail => rfl
  | access g next ih => exact ih _ f _
  | consult key next ih => exact ih _ f _
  | remember key next ih => exact ih f _
  | savepoint body next _ ih =>
    simp only [andThen, run]
    generalize body.run s = r
    obtain ⟨e | b, s'⟩ := r
    exacts [ih _ f _, ih _ f _]

/-- The program ends normally, with this result. -/
def Returns (p : Program σ κ ε α) (s : Session σ κ) (a : α) (s' : Session σ κ) : Prop :=
  p.run s = (.ok a, s')

section Returns
variable {s s' : Session σ κ} {a : α} {b : β} {f : α → Program σ κ ε β} {p q : Program σ κ ε α}

theorem returns_bind : (p >>= f).Returns s b s' ↔ ∃ a u, p.Returns s a u ∧
    (f a).Returns u b s' := by
  unfold Returns
  rw [run_bind]
  generalize p.run s = r
  obtain ⟨e | a, u⟩ := r
  · constructor
    · intro h; cases h
    · rintro ⟨a, u, h, -⟩; cases h
  · constructor
    · exact fun h => ⟨a, u, rfl, h⟩
    · rintro ⟨a, u, h, h'⟩; cases h; exact h'

theorem returns_pure : (pure a : Program σ κ ε α).Returns s b' s' ↔ b' = a ∧ s' = s := by
  show ((Except.ok a : Except ε α), s) = (.ok b', s') ↔ _
  rw [Prod.mk.injEq, Except.ok.injEq]
  exact and_congr eq_comm eq_comm

theorem returns_fail {e : ε} : ¬ (Program.fail e : Program σ κ ε α).Returns s a s' := by
  intro h; cases h

theorem returns_read {g : σ → α} : (read g : Program σ κ ε α).Returns s a s' ↔
    a = g s.store ∧ s' = s :=
  returns_pure

theorem returns_write {g : σ → σ} {u : Unit} :
    (write g : Program σ κ ε Unit).Returns s u s' ↔ s' = { s with store := g s.store } := by
  refine returns_pure.trans ?_
  simp

theorem returns_cached {key : κ} {b : Bool} :
    (cached key : Program σ κ ε Bool).Returns s b s' ↔ b = decide (key ∈ s.cache) ∧ s' = s :=
  returns_pure

theorem returns_enter {key : κ} {u : Unit} :
    (enter key : Program σ κ ε Unit).Returns s u s' ↔ s' = { s with cache := key :: s.cache } := by
  refine returns_pure.trans ?_
  simp

theorem returns_read_bind {g : σ → α} :
    (read g >>= f).Returns s b s' ↔ (f (g s.store)).Returns s b s' := Iff.rfl

theorem returns_cached_bind {key : κ} {f : Bool → Program σ κ ε α} :
    (cached key >>= f).Returns s a s' ↔ (f (decide (key ∈ s.cache))).Returns s a s' := Iff.rfl

theorem returns_enter_bind {key : κ} {f : Unit → Program σ κ ε α} :
    (enter key >>= f).Returns s a s' ↔
    (f ()).Returns { s with cache := key :: s.cache } a s' := Iff.rfl

theorem run_attempt (p : Program σ κ ε α) (s : Session σ κ) : (attempt p).run s = match p.run s with
    | (.ok a, s') => (.ok (.ok a), s')
    | (.error e, s') => (.ok (.error e), { s' with store := s.store }) := by
  show (savepoint p done).run s = _
  simp only [run]

theorem result_of_returns_attempt {r : Except ε α} (h : (attempt p).Returns s r s') :
    r = (p.run s).1 := by
  unfold Returns at h
  rw [run_attempt] at h
  generalize p.run s = run at h ⊢
  obtain ⟨e | a, u⟩ := run <;> cases h <;> rfl

theorem returns_attempt_ok (h : p.Returns s a s') : (attempt p).Returns s (.ok a) s' := by
  have hrun : p.run s = (.ok a, s') := h
  unfold Returns
  rw [run_attempt, hrun]

/-- An attempt always ends normally; when its program fails, the store is the one before. -/
theorem returns_attempt (p : Program σ κ ε α) (s : Session σ κ) :
    (∃ a s', (attempt p).Returns s (.ok a) s') ∨ ∃ e s', (attempt p).Returns s (.error e) s' ∧
    s'.store = s.store := by
  rcases hrun : p.run s with ⟨e | a, s'⟩
  · refine .inr ⟨e, { s' with store := s.store }, ?_, rfl⟩
    unfold Returns
    rw [run_attempt, hrun]
  · exact .inl ⟨a, s', returns_attempt_ok hrun⟩

theorem returns_ite {c : Prop} [Decidable c] :
    (if c then p else q).Returns s a s' ↔ c ∧ p.Returns s a s' ∨ ¬ c ∧ q.Returns s a s' := by
  split
  next h => simp [h]
  next h => simp [h]

/-- A loop ends normally if every step of it does, from a state that its fact allows. -/
theorem returns_foldlM {γ : Type} {g : β → γ → Program σ κ ε β}
    {M : List γ → β → Session σ κ → Prop} (l : List γ)
    (h : ∀ gone x rest b s, gone ++ x :: rest = l → M gone b s → ∃ b' s', (g b x).Returns s b' s' ∧
      M (gone ++ [x]) b' s')
    (h₀ : M [] b s) : ∃ b' s', (l.foldlM g b).Returns s b' s' ∧ M l b' s' := by
  suffices hrest : ∀ (rest gone : List γ) (b : β) (s : Session σ κ), gone ++ rest = l → M gone b s →
      ∃ b' s', (rest.foldlM g b).Returns s b' s' ∧ M l b' s' from hrest l [] b s rfl h₀
  intro rest
  induction rest with
  | nil =>
    intro gone b s hl hM
    rw [List.append_nil] at hl
    exact ⟨b, s, returns_pure.2 ⟨rfl, rfl⟩, hl ▸ hM⟩
  | cons x rest ih =>
    intro gone b s hl hM
    obtain ⟨b₁, s₁, hstep, hM₁⟩ := h gone x rest b s hl hM
    obtain ⟨b₂, s₂, hrun, hM₂⟩ := ih (gone ++ [x]) b₁ s₁ (by rw [List.append_assoc]; exact hl) hM₁
    rw [List.foldlM_cons]
    exact ⟨b₂, s₂, returns_bind.2 ⟨b₁, s₁, hstep, hrun⟩, hM₂⟩

end Returns

/-! ### Before and after

`p.Ensures P Q` says of every normal run of `p` that starts in a store with `P` that its result and
the store it ends in satisfy `Q`. -/

def Ensures (p : Program σ κ ε α) (P : σ → Prop) (Q : α → σ → Prop) : Prop :=
  ∀ s a s', P s.store → p.Returns s a s' → Q a s'.store

namespace Ensures
variable {P P' : σ → Prop} {Q Q' : α → σ → Prop} {M : β → σ → Prop} {p q : Program σ κ ε α}

theorem mono (h : p.Ensures P Q) (hP : ∀ s, P' s → P s) (hQ : ∀ a s, Q a s → Q' a s) :
    p.Ensures P' Q' :=
  fun s a s' hs hr => hQ a s'.store (h s a s' (hP _ hs) hr)

theorem and (h : p.Ensures P Q) (h' : p.Ensures P Q') : p.Ensures P fun a s => Q a s ∧ Q' a s :=
  fun s a s' hs hr => ⟨h s a s' hs hr, h' s a s' hs hr⟩

/-- A fact about the store before may be used to prove what the program ensures. -/
theorem of_forall (h : ∀ s, P s → p.Ensures (· = s) Q) : p.Ensures P Q :=
  fun s a s' hs hr => h s.store hs s a s' rfl hr

theorem pure {a : α} (h : ∀ s, P s → Q a s) : (Pure.pure a : Program σ κ ε α).Ensures P Q := by
  intro s b s' hs hr
  obtain ⟨rfl, rfl⟩ := returns_pure.1 hr
  exact h _ hs

theorem fail (e : ε) : (Program.fail e : Program σ κ ε α).Ensures P Q :=
  fun _ _ _ _ hr => absurd hr returns_fail

theorem read {g : σ → α} (h : ∀ s, P s → Q (g s) s) :
    (Program.read g : Program σ κ ε α).Ensures P Q := by
  intro s b s' hs hr
  obtain ⟨rfl, rfl⟩ := returns_read.1 hr
  exact h _ hs

theorem write {g : σ → σ} {Q : Unit → σ → Prop} (h : ∀ s, P s → Q () (g s)) :
    (Program.write g : Program σ κ ε Unit).Ensures P Q := by
  intro s b s' hs hr
  rw [returns_write.1 hr]
  exact h _ hs

theorem cached {key : κ} {Q : Bool → σ → Prop} (h : ∀ b s, P s → Q b s) :
    (Program.cached key : Program σ κ ε Bool).Ensures P Q := by
  intro s b s' hs hr
  obtain ⟨rfl, rfl⟩ := returns_cached.1 hr
  exact h _ _ hs

theorem enter {key : κ} {Q : Unit → σ → Prop} (h : ∀ s, P s → Q () s) :
    (Program.enter key : Program σ κ ε Unit).Ensures P Q := by
  intro s b s' hs hr
  rw [returns_enter.1 hr]
  exact h _ hs

theorem bind {p : Program σ κ ε β} {f : β → Program σ κ ε α} (hp : p.Ensures P M)
    (hf : ∀ b, (f b).Ensures (M b) Q) :
    (p >>= f).Ensures P Q := by
  intro s a s' hs hr
  obtain ⟨b, u, h₁, h₂⟩ := returns_bind.1 hr
  exact hf b u a s' (hp s b u hs h₁) h₂

/-- A query, and what is done with its result. -/
theorem read_bind {g : σ → β} {f : β → Program σ κ ε α}
    (hf : ∀ s, P s → (f (g s)).Ensures (· = s) Q) :
    (Program.read g >>= f).Ensures P Q :=
  of_forall fun s hs =>
      bind (M := fun b t => t = s ∧ b = g s) (read fun t ht => ⟨ht, by rw [ht]⟩) fun b => by
    intro u a s' hu hr
    obtain ⟨hu, rfl⟩ := hu
    exact hf s hs u a s' hu hr

/-- A program that fails leaves the store as it was. -/
theorem attempt {s : σ} {R : Except ε α → σ → Prop} (hp : p.Ensures (· = s) fun a => R (.ok a))
    (he : ∀ e, R (.error e) s) :
    (Program.attempt p).Ensures (· = s) R := by
  intro u r u' hu hr
  rcases hrun : p.run u with ⟨e | a, v⟩
  · have heq : (Program.attempt p).run u = (.ok (.error e), { v with store := u.store }) := by
      rw [run_attempt, hrun]
    have hpair := Prod.ext_iff.1 (heq.symm.trans hr)
    rw [← Except.ok.inj hpair.1, ← show { v with store := u.store } = u' from hpair.2]
    subst hu
    exact he e
  · have heq : (Program.attempt p).run u = (.ok (.ok a), v) := returns_attempt_ok hrun
    have hpair := Prod.ext_iff.1 (heq.symm.trans hr)
    rw [← Except.ok.inj hpair.1, ← show v = u' from hpair.2]
    exact hp u a v hu hrun

theorem ite {c : Prop} [Decidable c] (hp : c → p.Ensures P Q) (hq : ¬ c → q.Ensures P Q) :
    (if c then p else q).Ensures P Q := by
  split
  next h => exact hp h
  next h => exact hq h

/-- What every step of a loop keeps, the loop keeps. -/
theorem foldlM {γ : Type} {g : β → γ → Program σ κ ε β} (l : List γ)
    (h : ∀ b, ∀ x ∈ l, (g b x).Ensures (M b) M) (b : β) :
    (l.foldlM g b).Ensures (M b) M := by
  induction l generalizing b with
  | nil => exact pure fun _ hs => hs
  | cons x l ih =>
    rw [List.foldlM_cons]
    exact bind (h b x List.mem_cons_self) fun b' =>
      ih (fun b y hy => h b y (List.mem_cons_of_mem x hy)) b'

/-- A loop whose fact tells what has been gone through. -/
theorem foldlM_prefix {γ : Type} {g : β → γ → Program σ κ ε β} {M : List γ → β → σ → Prop}
    (h : ∀ gone x b, (g b x).Ensures (M gone b) (M (gone ++ [x]))) (l gone : List γ) (b : β) :
    (l.foldlM g b).Ensures (M gone b) (M (gone ++ l)) := by
  induction l generalizing gone b with
  | nil => exact pure fun s hs => by rwa [List.append_nil]
  | cons x l ih =>
    rw [List.foldlM_cons]
    refine bind (h gone x b) fun b' => ?_
    have hrest := ih (gone ++ [x]) b'
    rwa [List.append_assoc] at hrest

theorem forM {γ : Type} {g : γ → Program σ κ ε PUnit} (l : List γ)
    (h : ∀ x ∈ l, (g x).Ensures P fun _ => P) :
    (l.forM g).Ensures P fun _ => P := by
  induction l with
  | nil => exact pure fun _ hs => hs
  | cons x l ih =>
    show (g x >>= fun _ => l.forM g).Ensures P fun _ => P
    exact bind (h x List.mem_cons_self) fun _ => ih fun y hy => h y (List.mem_cons_of_mem x hy)

end Ensures

/-- A normal run from a store with `I` ends in a store with `I`. -/
def Keeps (I : σ → Prop) (p : Program σ κ ε α) : Prop := p.Ensures I fun _ => I

namespace Keeps
variable {I : σ → Prop} {p q : Program σ κ ε α}

theorem pure (a : α) : Keeps I (Pure.pure a : Program σ κ ε α) := Ensures.pure fun _ h => h

theorem fail (e : ε) : Keeps I (Program.fail e : Program σ κ ε α) := Ensures.fail e

theorem read (g : σ → α) : Keeps I (Program.read g : Program σ κ ε α) := Ensures.read fun _ h => h

theorem write {g : σ → σ} (h : ∀ s, I s → I (g s)) :
    Keeps I (Program.write g : Program σ κ ε Unit) := Ensures.write h

theorem cached (key : κ) : Keeps I (Program.cached key : Program σ κ ε Bool) :=
  Ensures.cached fun _ _ h => h

theorem enter (key : κ) : Keeps I (Program.enter key : Program σ κ ε Unit) :=
  Ensures.enter fun _ h => h

theorem bind {p : Program σ κ ε β} {f : β → Program σ κ ε α} (hp : Keeps I p)
    (hf : ∀ b, Keeps I (f b)) : Keeps I (p >>= f) :=
  Ensures.bind hp hf

theorem ite {c : Prop} [Decidable c] (hp : Keeps I p) (hq : Keeps I q) :
    Keeps I (if c then p else q) :=
  Ensures.ite (fun _ => hp) fun _ => hq

/-- A program that fails leaves the store as it was. -/
theorem attempt (hp : Keeps I p) : Keeps I (Program.attempt p) :=
  Ensures.of_forall fun _ hs =>
    Ensures.attempt (fun u a u' hu hr => hp u a u' (hu ▸ hs) hr) fun _ => hs

/-- A program that from any store ends in one with `I` if the store had it. -/
theorem of_ensures {Q : σ → α → σ → Prop} (h : ∀ s, p.Ensures (· = s) (Q s))
    (hQ : ∀ s a s', Q s a s' → I s → I s') : Keeps I p :=
  fun s a s' hs hr => hQ _ _ _ (h s.store s a s' rfl hr) hs

theorem forM {γ : Type} {g : γ → Program σ κ ε PUnit} (l : List γ) (h : ∀ x, Keeps I (g x)) :
    Keeps I (l.forM g) :=
  Ensures.forM l fun x _ => h x

end Keeps

end Program

end Euvieouvi
