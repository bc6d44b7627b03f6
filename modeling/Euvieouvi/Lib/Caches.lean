import Euvieouvi.Lib.Programs

/-!
# What a cache can do to a run

A savepoint that is taken back takes back the store, not the keys that were entered in the cache.
Such keys are stale: they name writes that nobody made. `run_of_unconsulted` says that a run which
asks for no key in which two caches differ goes the same way with both, and `runEach_kept` and
`runEach_taken_back` what this means for a sequence of programs some of which are lost.
-/

namespace Euvieouvi

namespace Program

variable {σ κ ε : Type} {α β : Type}

/-- The program has nothing to do with the cache, and sets no savepoint. -/
def Silent {α : Type} : Program σ κ ε α → Prop
  | .done _ => True
  | .fail _ => True
  | .access _ next => ∀ b, (next b).Silent
  | .consult _ _ => False
  | .remember _ _ => False
  | .savepoint _ _ => False

/-- The program sets no savepoint. -/
def Flat {α : Type} : Program σ κ ε α → Prop
  | .done _ => True
  | .fail _ => True
  | .access _ next => ∀ b, (next b).Flat
  | .consult _ next => ∀ b, (next b).Flat
  | .remember _ next => next.Flat
  | .savepoint _ _ => False

namespace Silent
variable {p q : Program σ κ ε α} {f : α → Program σ κ ε β}

theorem pure (a : α) : Silent (Pure.pure a : Program σ κ ε α) := True.intro

theorem fail (e : ε) : Silent (Program.fail e : Program σ κ ε α) := True.intro

theorem read (g : σ → α) : Silent (Program.read g : Program σ κ ε α) := fun _ => True.intro

theorem write (g : σ → σ) : Silent (Program.write g : Program σ κ ε Unit) := fun _ => True.intro

theorem bind (hp : Silent p) (hf : ∀ a, Silent (f a)) : Silent (p >>= f) := by
  show Silent (p.andThen f)
  induction p with
  | done a => exact hf a
  | fail => exact True.intro
  | access g next ih => exact fun b => ih b (hp b) hf
  | consult | remember | savepoint => exact hp.elim

theorem ite {c : Prop} [Decidable c] (hp : Silent p) (hq : Silent q) :
    Silent (if c then p else q) := by
  split
  exacts [hp, hq]

theorem foldlM {γ : Type} {g : β → γ → Program σ κ ε β} (l : List γ)
    (h : ∀ b x, Silent (g b x)) (b : β) :
    Silent (l.foldlM g b) := by
  induction l generalizing b with
  | nil => exact pure b
  | cons x l ih =>
    rw [List.foldlM_cons]
    exact bind (h b x) ih

theorem forM {γ : Type} {g : γ → Program σ κ ε PUnit} (l : List γ) (h : ∀ x, Silent (g x)) :
    Silent (l.forM g) := by
  induction l with
  | nil => exact pure PUnit.unit
  | cons x l ih =>
    show Silent (g x >>= fun _ => l.forM g)
    exact bind (h x) fun _ => ih

theorem flat (hp : Silent p) : p.Flat := by
  induction p with
  | done | fail => exact True.intro
  | access g next ih => exact fun b => ih b (hp b)
  | consult | remember | savepoint => exact hp.elim

end Silent

namespace Flat
variable {p q : Program σ κ ε α} {f : α → Program σ κ ε β}

theorem cached (key : κ) : Flat (Program.cached key : Program σ κ ε Bool) := fun _ => True.intro

theorem enter (key : κ) : Flat (Program.enter key : Program σ κ ε Unit) := True.intro

theorem bind (hp : Flat p) (hf : ∀ a, Flat (f a)) : Flat (p >>= f) := by
  show Flat (p.andThen f)
  induction p with
  | done a => exact hf a
  | fail => exact True.intro
  | access g next ih => exact fun b => ih b (hp b) hf
  | consult key next ih => exact fun b => ih b (hp b) hf
  | remember key next ih => exact ih hp hf
  | savepoint => exact hp.elim

theorem ite {c : Prop} [Decidable c] (hp : Flat p) (hq : Flat q) : Flat (if c then p else q) := by
  split
  exacts [hp, hq]

end Flat

variable [DecidableEq κ]

/-- The keys a run asks for. -/
def consults {α : Type} : Program σ κ ε α → Session σ κ → List κ
  | .done _, _ => []
  | .fail _, _ => []
  | .access f next, s => (next (f s.store).1).consults { s with store := (f s.store).2 }
  | .consult key next, s => key :: (next (decide (key ∈ s.cache))).consults s
  | .remember key next, s => next.consults { s with cache := key :: s.cache }
  | .savepoint body next, s =>
    body.consults s ++ match body.run s with
      | (.ok b, s') => (next (.ok b)).consults s'
      | (.error e, s') => (next (.error e)).consults { s' with store := s.store }

theorem consults_bind (p : Program σ κ ε α) (f : α → Program σ κ ε β) (s : Session σ κ) :
    (p >>= f).consults s = p.consults s ++ match p.run s with
      | (.ok a, s') => (f a).consults s'
      | (.error _, _) => [] := by
  show (p.andThen f).consults s = _
  induction p generalizing s with
  | done | fail => rfl
  | access g next ih => exact ih _ f _
  | consult key next ih => exact congrArg (key :: ·) (ih _ f _)
  | remember key next ih => exact ih f _
  | savepoint body next _ ih =>
    simp only [andThen, consults, run]
    generalize body.run s = r
    obtain ⟨e | b, s'⟩ := r <;> simp only [ih, List.append_assoc]

theorem mem_consults_bind {p : Program σ κ ε α} {f : α → Program σ κ ε β}
    {s : Session σ κ} {key : κ} :
    key ∈ (p >>= f).consults s ↔ key ∈ p.consults s ∨ ∃ a s', p.Returns s a s' ∧
    key ∈ (f a).consults s' := by
  unfold Returns
  rw [consults_bind, List.mem_append]
  generalize p.run s = r
  obtain ⟨e | a, u⟩ := r <;> simp

theorem consults_attempt (p : Program σ κ ε α) (s : Session σ κ) :
    (attempt p).consults s = p.consults s := by
  show (savepoint p done).consults s = _
  simp only [consults]
  split <;> exact List.append_nil _

namespace Silent
variable {p : Program σ κ ε α} {f : α → Program σ κ ε β} {s : Session σ κ} {key : κ}

theorem consults_eq_nil (hp : Silent p) (s : Session σ κ) : p.consults s = [] := by
  induction p generalizing s with
  | done | fail => rfl
  | access g next ih => exact ih _ (hp _) _
  | consult | remember | savepoint => exact hp.elim

theorem mem_consults_bind (hp : Silent p) :
    key ∈ (p >>= f).consults s ↔ ∃ a s', p.Returns s a s' ∧ key ∈ (f a).consults s' := by
  rw [Program.mem_consults_bind, hp.consults_eq_nil, or_iff_right List.not_mem_nil]

end Silent

/-- The same store, and caches that differ in keys of `D` only. -/
structure AgreeOff (D : κ → Prop) (s t : Session σ κ) : Prop where
  store : s.store = t.store
  cache : ∀ key, ¬ D key → (key ∈ s.cache ↔ key ∈ t.cache)

omit [DecidableEq κ] in
theorem AgreeOff.mono {D D' : κ → Prop} {s t : Session σ κ} (h : AgreeOff D s t)
    (hD : ∀ key, D key → D' key) :
    AgreeOff D' s t := ⟨h.store, fun key hk => h.cache key fun hd => hk (hD key hd)⟩

/-- A run that asks for none of the keys in which the caches differ goes the same way. -/
theorem run_of_unconsulted {D : κ → Prop} (p : Program σ κ ε α) {s t : Session σ κ}
    (h : AgreeOff D s t) (hD : ∀ key ∈ p.consults s, ¬ D key) :
    (p.run s).1 = (p.run t).1 ∧ AgreeOff D (p.run s).2 (p.run t).2 := by
  induction p generalizing s t with
  | done | fail => exact ⟨rfl, h⟩
  | access f next ih =>
    simp only [run, consults] at hD ⊢
    rw [← h.store]
    exact ih _ ⟨rfl, h.cache⟩ hD
  | consult key next ih =>
    simp only [run, consults, List.forall_mem_cons] at hD ⊢
    rw [decide_eq_decide.2 (h.cache key hD.1).symm]
    exact ih _ h hD.2
  | remember key next ih =>
    simp only [run, consults] at hD ⊢
    refine ih ⟨h.store, fun key' hk => ?_⟩ hD
    simp only [List.mem_cons, h.cache key' hk]
  | savepoint body next ihb ih =>
    simp only [run, consults, List.forall_mem_append] at hD ⊢
    obtain ⟨hr, hs⟩ := ihb h hD.1
    have hnext := hD.2
    generalize body.run s = r at hr hs hnext ⊢
    generalize body.run t = r' at hr hs ⊢
    obtain ⟨res, s'⟩ := r
    obtain ⟨res', t'⟩ := r'
    obtain rfl : res = res' := hr
    cases res with
    | error e => exact ih _ ⟨h.store, hs.cache⟩ hnext
    | ok b => exact ih _ hs hnext

/-- A run only adds keys. -/
theorem mem_cache_run (p : Program σ κ ε α) {s : Session σ κ} {key : κ} (h : key ∈ s.cache) :
    key ∈ (p.run s).2.cache := by
  induction p generalizing s with
  | done | fail => exact h
  | access f next ih => exact ih _ h
  | consult key next ih => exact ih _ h
  | remember key next ih => exact ih (List.mem_cons_of_mem _ h)
  | savepoint body next ihb ih =>
    have hbody := ihb h
    simp only [run]
    generalize body.run s = r at hbody ⊢
    obtain ⟨e | b, s'⟩ := r
    exacts [ih _ hbody, ih _ hbody]

/-- The keys a run enters. -/
def entered (p : Program σ κ ε α) (s : Session σ κ) : List κ :=
  (p.run s).2.cache.filter (· ∉ s.cache)

/-- Where the keys that a run enters do not count, its cache is the one before. -/
theorem cache_run_of_not_entered {p : Program σ κ ε α} {s : Session σ κ} {key : κ}
    (h : key ∉ p.entered s) :
    key ∈ (p.run s).2.cache ↔ key ∈ s.cache := by
  refine ⟨fun hin => ?_, p.mem_cache_run⟩
  by_contra hnot
  exact h (List.mem_filter.2 ⟨hin, decide_eq_true hnot⟩)

/-! ### Savepoints that take back the cache -/

/-- A run in which a savepoint that is taken back takes back what was entered in the cache, too. -/
def runBack {α : Type} : Program σ κ ε α → Session σ κ → Except ε α × Session σ κ
  | .done a, s => (.ok a, s)
  | .fail e, s => (.error e, s)
  | .access f next, s => (next (f s.store).1).runBack { s with store := (f s.store).2 }
  | .consult key next, s => (next (decide (key ∈ s.cache))).runBack s
  | .remember key next, s => next.runBack { s with cache := key :: s.cache }
  | .savepoint body next, s =>
    match body.runBack s with
    | (.ok b, s') => (next (.ok b)).runBack s'
    | (.error e, _) => (next (.error e)).runBack s

theorem runBack_bind (p : Program σ κ ε α) (f : α → Program σ κ ε β) (s : Session σ κ) :
    (p >>= f).runBack s = match p.runBack s with
      | (.ok a, s') => (f a).runBack s'
      | (.error e, s') => (.error e, s') := by
  show (p.andThen f).runBack s = _
  induction p generalizing s with
  | done => rfl
  | fail => rfl
  | access g next ih => exact ih _ f _
  | consult key next ih => exact ih _ f _
  | remember key next ih => exact ih f _
  | savepoint body next _ ih =>
    simp only [andThen, runBack]
    generalize body.runBack s = r
    obtain ⟨e | b, s'⟩ := r
    exacts [ih _ f _, ih _ f _]

theorem Flat.runBack_eq {p : Program σ κ ε α} (hp : p.Flat) (s : Session σ κ) :
    p.runBack s = p.run s := by
  induction p generalizing s with
  | done | fail => rfl
  | access g next ih => exact ih _ (hp _) _
  | consult key next ih => exact ih _ (hp _) _
  | remember key next ih => exact ih hp _
  | savepoint => exact hp.elim

section Attempt
variable {p : Program σ κ ε α} {s t : Session σ κ} {D : κ → Prop}

/-- An attempt that is not taken back. -/
theorem attempt_runBack_of_ok (hp : p.Flat) (h : AgreeOff D s t)
    (hD : ∀ key ∈ p.consults s, ¬ D key) {a : α} {s' : Session σ κ} (hr : p.Returns s a s') :
    ∃ t', (attempt p).runBack t = (.ok (.ok a), t') ∧ AgreeOff D s' t' := by
  obtain ⟨hres, hafter⟩ := p.run_of_unconsulted h hD
  rw [show p.run s = (.ok a, s') from hr] at hres hafter
  refine ⟨(p.run t).2, ?_, hafter⟩
  show (savepoint p done).runBack t = _
  simp only [runBack, hp.runBack_eq]
  rw [show p.run t = (.ok a, (p.run t).2) from Prod.ext hres.symm rfl]

/-- After an attempt that is taken back, the caches may differ in what it entered. -/
theorem attempt_runBack_of_error (hp : p.Flat) (h : AgreeOff D s t)
    (hD : ∀ key ∈ p.consults s, ¬ D key) {e : ε}
    {s' : Session σ κ} (hr : p.run s = (.error e, s')) :
    (attempt p).runBack t = (.ok (.error e), t) ∧
      AgreeOff (fun key => D key ∨ key ∈ p.entered s) { s' with store := s.store } t := by
  have hres := (p.run_of_unconsulted h hD).1
  rw [hr] at hres
  refine ⟨?_, h.store, fun key hk => ?_⟩
  · show (savepoint p done).runBack t = _
    simp only [runBack, hp.runBack_eq]
    rw [show p.run t = (.error e, (p.run t).2) from Prod.ext hres.symm rfl]
  · rw [not_or] at hk
    have hkept := cache_run_of_not_entered hk.2
    rw [hr] at hkept
    exact hkept.trans (h.cache key hk.1)

end Attempt

/-! ### A sequence of programs

Programs are run one after the other. Some are lost: they leave the store as it was, but perhaps
keys in the cache. `left x s` are the keys that `x` leaves in the cache although what it wrote was
taken back, and `Clear x s stale` is to say that `x` has no use for the keys of `stale`. -/

section Sequence
variable {ι : Type} (p : ι → Program σ κ ε α) (lost : Except ε α → Bool)
  (left : ι → Session σ κ → List κ)
  (Clear : ι → Session σ κ → List κ → Prop)

def runEach : List ι → Session σ κ → Session σ κ
  | [], s => s
  | x :: xs, s => runEach xs ((p x).run s).2

def runEachBack : List ι → Session σ κ → Session σ κ
  | [], s => s
  | x :: xs, s => runEachBack xs ((p x).runBack s).2

/-- The programs that are not lost. -/
def kept : List ι → Session σ κ → List ι
  | [], _ => []
  | x :: xs, s =>
    if lost ((p x).run s).1 then kept xs ((p x).run s).2 else x :: kept xs ((p x).run s).2

/-- No program that is kept has a use for a stale key. -/
def Unsuppressed : List κ → List ι → Session σ κ → Prop
  | _, [], _ => True
  | stale, x :: xs, s => (lost ((p x).run s).1 = false → Clear x s stale) ∧
      Unsuppressed (stale ++ if lost ((p x).run s).1 then (p x).entered s else left x s) xs
        ((p x).run s).2

instance decidableUnsuppressed [∀ x s stale, Decidable (Clear x s stale)] :
    ∀ (stale : List κ) (xs : List ι) (s : Session σ κ),
      Decidable (Unsuppressed p lost left Clear stale xs s)
  | _, [], _ => inferInstanceAs (Decidable True)
  | stale, x :: xs, s =>
    have := decidableUnsuppressed
      (stale ++ if lost ((p x).run s).1 then (p x).entered s else left x s) xs ((p x).run s).2
    inferInstanceAs (Decidable (_ ∧ _))

variable {p lost left Clear}

theorem agreeOff_lost (hlost : ∀ x s, lost ((p x).run s).1 = true → ((p x).run s).2.store = s.store)
    {stale : List κ}
    {x : ι} {s t : Session σ κ} (hs : AgreeOff (· ∈ stale) s t) (hx : lost ((p x).run s).1 = true) :
    AgreeOff (· ∈ stale ++ (p x).entered s) ((p x).run s).2 t := by
  refine ⟨(hlost x s hx).trans hs.store, fun key hkey => ?_⟩
  rw [List.mem_append, not_or] at hkey
  exact (cache_run_of_not_entered hkey.2).trans (hs.cache key hkey.1)

/-- The store at the end is the one without the lost programs. -/
theorem runEach_kept (hlost : ∀ x s, lost ((p x).run s).1 = true → ((p x).run s).2.store = s.store)
    (hclear : ∀ x s stale, Clear x s stale → ∀ key ∈ (p x).consults s, key ∉ stale)
    {stale : List κ} {xs : List ι} {s t : Session σ κ} (hs : AgreeOff (· ∈ stale) s t)
    (h : Unsuppressed p lost left Clear stale xs s) :
    (runEach p xs s).store = (runEach p (kept p lost xs s) t).store := by
  induction xs generalizing stale s t with
  | nil => exact hs.store
  | cons x xs ih =>
    unfold Unsuppressed at h
    unfold kept
    by_cases hx : lost ((p x).run s).1 = true
    · rw [if_pos hx] at h ⊢
      exact ih (agreeOff_lost hlost hs hx) h.2
    · rw [if_neg hx] at h ⊢
      obtain ⟨-, hagree⟩ :=
        (p x).run_of_unconsulted hs (hclear x s stale (h.1 (Bool.eq_false_iff.2 hx)))
      exact ih (hagree.mono fun _ hk => List.mem_append_left _ hk) h.2

/-- The store at the end is the one the programs that are kept make where savepoints take back the
cache. -/
theorem runEach_taken_back (hlost : ∀ x s, lost ((p x).run s).1 = true →
      ((p x).run s).2.store = s.store)
    (hback : ∀ x s t stale, lost ((p x).run s).1 = false → Clear x s stale →
      AgreeOff (· ∈ stale) s t →
      AgreeOff (· ∈ stale ++ left x s) ((p x).run s).2 ((p x).runBack t).2)
    {stale : List κ} {xs : List ι} {s t : Session σ κ} (hs : AgreeOff (· ∈ stale) s t)
    (h : Unsuppressed p lost left Clear stale xs s) :
    (runEach p xs s).store = (runEachBack p (kept p lost xs s) t).store := by
  induction xs generalizing stale s t with
  | nil => exact hs.store
  | cons x xs ih =>
    unfold Unsuppressed at h
    unfold kept
    by_cases hx : lost ((p x).run s).1 = true
    · rw [if_pos hx] at h ⊢
      exact ih (agreeOff_lost hlost hs hx) h.2
    · rw [if_neg hx] at h ⊢
      have hx' := Bool.eq_false_iff.2 hx
      exact ih (hback x s t stale hx' (h.1 hx') hs) h.2

end Sequence

end Program

end Euvieouvi
