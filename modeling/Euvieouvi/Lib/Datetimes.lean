import Euvieouvi.Lib.Keys
import Euvieouvi.Lib.Masking
import Mathlib.Algebra.Group.Nat.Defs

/-!
# The text of a moment

A moment counts microseconds, days have dates of the proleptic Gregorian calendar, and
`datetimeText` writes `YYYY-MM-DD HH:MM:SS`, with a fraction when there is one. The text determines
the moment (`datetimeText_inj`).
-/

namespace Euvieouvi

structure CivilDate where
  year : Int
  month : Int
  day : Int
deriving DecidableEq, Repr

/-- The date of the day that many days after 1970-01-01. A year is counted from March, so that a
leap day is its last, and the last day of four years, or of four centuries, belongs to the last of
the four. -/
def civilDate (days : Int) : CivilDate :=
  let dayOfEra := (days + 719468) % 146097
  let century := min 3 (dayOfEra / 36524)
  let dayOfCentury := dayOfEra - 36524 * century
  let dayOfCycle := dayOfCentury % 1461
  let yearOfCycle := min 3 (dayOfCycle / 365)
  let dayOfYear := dayOfCycle - 365 * yearOfCycle
  let month := (5 * dayOfYear + 2) / 153
  let inNext := month / 10
  { year :=
      (days + 719468) / 146097 * 400 + 100 * century + 4 * (dayOfCentury / 1461) + yearOfCycle +
        inNext
    month := month + 3 - 12 * inNext
    day := dayOfYear - (153 * month + 2) / 5 + 1 }

/-- What the fields of a date are computed from. -/
structure CivilDate.Parts (date : CivilDate)
    (days era century cycle yearOfCycle dayOfYear month inNext : Int) : Prop where
  days_eq : days + 719468 =
    146097 * era + 36524 * century + 1461 * cycle + 365 * yearOfCycle + dayOfYear
  year_eq : date.year = 400 * era + 100 * century + 4 * cycle + yearOfCycle + inNext
  month_eq : date.month = month + 3 - 12 * inNext
  day_eq : date.day = dayOfYear - (153 * month + 2) / 5 + 1
  century_range : 0 ≤ century ∧ century ≤ 3
  cycle_range : 0 ≤ cycle ∧ cycle ≤ 24
  yearOfCycle_range : 0 ≤ yearOfCycle ∧ yearOfCycle ≤ 3
  dayOfYear_range : 0 ≤ dayOfYear ∧ dayOfYear ≤ 365
  month_def : month = (5 * dayOfYear + 2) / 153
  inNext_eq : inNext = month / 10

theorem civilDate_parts (days : Int) : ∃ era century cycle yearOfCycle dayOfYear month inNext,
    (civilDate days).Parts days era century cycle yearOfCycle dayOfYear month inNext := by
  obtain ⟨era, hera⟩ : ∃ era, era = (days + 719468) / 146097 := ⟨_, rfl⟩
  obtain ⟨dayOfEra, hdayOfEra⟩ : ∃ day, day = (days + 719468) % 146097 := ⟨_, rfl⟩
  obtain ⟨century, hcentury⟩ : ∃ century, century = min 3 (dayOfEra / 36524) := ⟨_, rfl⟩
  obtain ⟨dayOfCentury, hdayOfCentury⟩ : ∃ day, day = dayOfEra - 36524 * century := ⟨_, rfl⟩
  obtain ⟨dayOfCycle, hdayOfCycle⟩ : ∃ day, day = dayOfCentury % 1461 := ⟨_, rfl⟩
  obtain ⟨yearOfCycle, hyearOfCycle⟩ : ∃ year, year = min 3 (dayOfCycle / 365) := ⟨_, rfl⟩
  obtain ⟨dayOfYear, hdayOfYear⟩ : ∃ day, day = dayOfCycle - 365 * yearOfCycle := ⟨_, rfl⟩
  have hdate : civilDate days =
      { year :=
          era * 400 + 100 * century + 4 * (dayOfCentury / 1461) + yearOfCycle +
            (5 * dayOfYear + 2) / 153 / 10
        month := (5 * dayOfYear + 2) / 153 + 3 - 12 * ((5 * dayOfYear + 2) / 153 / 10)
        day := dayOfYear - (153 * ((5 * dayOfYear + 2) / 153) + 2) / 5 + 1 } := by
    subst hera hdayOfEra hcentury hdayOfCentury hdayOfCycle hyearOfCycle hdayOfYear
    rfl
  have hera' : days + 719468 = 146097 * era + dayOfEra ∧ 0 ≤ dayOfEra ∧
      dayOfEra ≤ 146096 := by omega
  have hcentury' : 0 ≤ century ∧ century ≤ 3 ∧ 0 ≤ dayOfCentury ∧ dayOfCentury ≤ 36524 := by omega
  have hcycle' : dayOfCentury = 1461 * (dayOfCentury / 1461) + dayOfCycle ∧ 0 ≤ dayOfCycle ∧
      dayOfCycle ≤ 1460 := by omega
  have hyear' : 0 ≤ yearOfCycle ∧ yearOfCycle ≤ 3 ∧ 0 ≤ dayOfYear ∧ dayOfYear ≤ 365 := by omega
  clear hera hdayOfEra hcentury hdayOfCycle hyearOfCycle
  refine ⟨era, century, dayOfCentury / 1461, yearOfCycle, dayOfYear, (5 * dayOfYear + 2) / 153,
    (5 * dayOfYear + 2) / 153 / 10, ?_⟩
  rw [hdate]
  clear hdate
  exact
    { days_eq := by omega
      year_eq := by dsimp only; omega
      month_eq := rfl
      day_eq := rfl
      century_range := by omega
      cycle_range := by omega
      yearOfCycle_range := by omega
      dayOfYear_range := by omega
      month_def := rfl
      inNext_eq := rfl }

theorem CivilDate.Parts.month_range {date : CivilDate}
    {days era century cycle yearOfCycle dayOfYear month inNext : Int}
    (h : date.Parts days era century cycle yearOfCycle dayOfYear month inNext) :
    (0 ≤ month ∧ month ≤ 11) ∧ 0 ≤ inNext ∧ inNext ≤ 1 := by
  have hmonth := h.month_def
  have hinNext := h.inNext_eq
  have hrange := h.dayOfYear_range
  have hmonth' : 0 ≤ month ∧ month ≤ 11 := by omega
  omega

theorem civilDate_range (days : Int) :
    (1 ≤ (civilDate days).month ∧ (civilDate days).month ≤ 12) ∧ 1 ≤ (civilDate days).day ∧
    (civilDate days).day ≤ 31 := by
  obtain ⟨era, century, cycle, yearOfCycle, dayOfYear, month, inNext, h⟩ := civilDate_parts days
  have hmonth := h.month_def
  have hinNext := h.inNext_eq
  have hrange := h.dayOfYear_range
  have hmonths := h.month_range
  rw [h.month_eq, h.day_eq]
  clear h
  omega

/-- The month and the day determine where a day is in its year, and the year then determines the
day. -/
theorem civilDate_inj {days days' : Int} (h : civilDate days = civilDate days') : days = days' := by
  obtain ⟨era, century, cycle, yearOfCycle, dayOfYear, month, inNext, p⟩ := civilDate_parts days
  obtain ⟨era', century', cycle', yearOfCycle', dayOfYear', month', inNext', p'⟩ :=
    civilDate_parts days'
  obtain ⟨rfl, rfl⟩ : month = month' ∧ inNext = inNext' := by
    have heq := p.month_eq.symm.trans ((congrArg CivilDate.month h).trans p'.month_eq)
    have hinNext := p.inNext_eq
    have hinNext' := p'.inNext_eq
    have hrange := p.month_range
    have hrange' := p'.month_range
    clear p p'
    omega
  have hday : dayOfYear = dayOfYear' := by
    have heq := p.day_eq.symm.trans ((congrArg CivilDate.day h).trans p'.day_eq)
    omega
  have hyear := p.year_eq.symm.trans ((congrArg CivilDate.year h).trans p'.year_eq)
  have hcentury := p.century_range
  have hcentury' := p'.century_range
  have hcycle := p.cycle_range
  have hcycle' := p'.cycle_range
  have hyearOfCycle := p.yearOfCycle_range
  have hyearOfCycle' := p'.yearOfCycle_range
  have hdays := p.days_eq
  have hdays' := p'.days_eq
  clear p p' h
  have hera : era = era' := by omega
  have hcentury : century = century' := by omega
  omega

/-- `f"{n:0{width}d}"`. -/
def padded (width n : Nat) : List Char :=
  List.replicate (width - (Nat.toDigits 10 n).length) '0' ++ Nat.toDigits 10 n

section Padded
variable {width m n : Nat} {x y : List Char}

theorem ofDigitChars_padded : Nat.ofDigitChars 10 (padded width n) 0 = n := by
  unfold padded
  rw [Nat.ofDigitChars_append, Nat.ofDigitChars_replicate_zero, Nat.mul_zero,
    Nat.ofDigitChars_ten_toDigits]

theorem padded_inj (h : padded width m = padded width n) : m = n := by
  have hvalue := congrArg (Nat.ofDigitChars 10 · 0) h
  simpa only [ofDigitChars_padded] using hvalue

theorem length_padded (hwidth : 0 < width) (hn : n < 10 ^ width) :
    (padded width n).length = width := by
  have hlength := (Nat.length_toDigits_le_iff (by decide : 1 < 10) hwidth).2 hn
  unfold padded
  rw [List.length_append, List.length_replicate]
  omega

theorem isDigit_of_mem_padded {c : Char} (h : c ∈ padded width n) : c.isDigit = true := by
  rcases List.mem_append.1 h with h | h
  · rw [List.eq_of_mem_replicate h]
    rfl
  · exact Nat.isDigit_of_mem_toDigits (by decide) (by decide) h

theorem not_mem_padded {c : Char} (hc : c.isDigit = false) : c ∉ padded width n :=
  fun h => by rw [isDigit_of_mem_padded h] at hc; cases hc

/-- Two digits behind a mark, and the rest. -/
theorem padded_append_inj {c : Char} (hm : m < 100) (hn : n < 100)
    (h : c :: (padded 2 m ++ x) = c :: (padded 2 n ++ y)) :
    m = n ∧ x = y := by
  obtain ⟨hdigits, hrest⟩ := List.append_inj (List.cons.inj h).2
    ((length_padded (by decide) hm).trans (length_padded (by decide) hn).symm)
  exact ⟨padded_inj hdigits, hrest⟩

end Padded

/-! ### Moments -/

/-- The year of a date; a year has four digits. -/
def yearText (year : Int) : List Char :=
  if year < 0 then '-' :: padded 4 year.natAbs else padded 4 year.toNat

/-- What follows the year in the text of a moment, without the fraction. -/
def clockText (month day hour minute second : Nat) : List Char :=
  '-' ::
    (padded 2 month ++ '-' :: (padded 2 day ++ ' ' :: (padded 2 hour ++ ':' :: (padded 2 minute ++
    ':' :: (padded 2 second ++ [])))))

def fractionText (microsecond : Nat) : List Char :=
  if microsecond = 0 then [] else '.' :: padded 6 microsecond

/-- `str` of a moment without a time zone, from the microseconds since 1970-01-01. -/
def datetimeText (t : Int) : List Char :=
  let date := civilDate (t / 86400000000)
  let second := (t / 1000000 % 86400).toNat
  yearText date.year ++ clockText date.month.toNat date.day.toNat (second / 3600) (second / 60 % 60)
    (second % 60) ++
    fractionText (t % 1000000).toNat

theorem yearText_inj {y y' : Int} (h : yearText y = yearText y') : y = y' := by
  unfold yearText at h
  have hsign : ∀ n m : Nat, '-' :: padded 4 n ≠ padded 4 m := fun n m heq =>
    not_mem_padded (c := '-') rfl (by rw [← heq]; exact List.mem_cons_self)
  split_ifs at h
  · have := padded_inj (List.cons.inj h).2
    omega
  · exact absurd h (hsign _ _)
  · exact absurd h.symm (hsign _ _)
  · have := padded_inj h
    omega

section Clock
variable {month day hour minute second month' day' hour' minute' second' : Nat}

theorem length_clockText (hmonth : month < 100) (hday : day < 100) (hhour : hour < 100)
    (hminute : minute < 100)
    (hsecond : second < 100) : (clockText month day hour minute second).length = 15 := by
  simp [clockText, length_padded (by decide : 0 < 2), hmonth, hday, hhour, hminute, hsecond]

theorem clockText_inj (hmonth : month < 100 ∧ month' < 100) (hday : day < 100 ∧ day' < 100)
    (hhour : hour < 100 ∧ hour' < 100)
    (hminute : minute < 100 ∧ minute' < 100) (hsecond : second < 100 ∧ second' < 100)
    (h : clockText month day hour minute second = clockText month' day' hour' minute' second') :
    month = month' ∧ day = day' ∧ hour = hour' ∧ minute = minute' ∧ second = second' := by
  unfold clockText at h
  obtain ⟨hm, h⟩ := padded_append_inj hmonth.1 hmonth.2 h
  obtain ⟨hd, h⟩ := padded_append_inj hday.1 hday.2 h
  obtain ⟨hh, h⟩ := padded_append_inj hhour.1 hhour.2 h
  obtain ⟨hi, h⟩ := padded_append_inj hminute.1 hminute.2 h
  exact ⟨hm, hd, hh, hi, (padded_append_inj hsecond.1 hsecond.2 h).1⟩

end Clock

theorem not_mem_yearText {c : Char} (hc : c.isDigit = false) (hdash : c ≠ '-') (year : Int) :
    c ∉ yearText year := by
  unfold yearText
  split
  · exact List.not_mem_cons_of_ne_of_not_mem hdash (not_mem_padded hc)
  · exact not_mem_padded hc

theorem not_mem_clockText {c : Char} (hc : c.isDigit = false) (hmarks : c ∉ ['-', ' ', ':'])
    (month day hour minute second : Nat) :
    c ∉ clockText month day hour minute second := by
  simp only [List.mem_cons, List.not_mem_nil, or_false, not_or] at hmarks
  simp only [clockText, List.mem_cons, List.mem_append, not_mem_padded hc, hmarks, List.not_mem_nil,
    or_self, not_false_eq_true]

theorem fractionText_inj {m n : Nat} (h : fractionText m = fractionText n) : m = n := by
  unfold fractionText at h
  split_ifs at h with hm hn hn
  · rw [hm, hn]
  · exact padded_inj (List.cons.inj h).2

theorem not_mem_fractionText {c : Char} (hc : c.isDigit = false) (hpoint : c ≠ '.') (n : Nat) :
    c ∉ fractionText n := by
  unfold fractionText
  split
  · exact List.not_mem_nil
  · exact List.not_mem_cons_of_ne_of_not_mem hpoint (not_mem_padded hc)

/-- A text without the mark, and a rest that begins with it if there is one. -/
theorem append_inj_of_mark {α : Type} [DecidableEq α] {c : α} {k k' r r' : List α} (hk : c ∉ k)
    (hk' : c ∉ k')
    (hr : ∀ e ∈ r.head?, e = c) (hr' : ∀ e ∈ r'.head?, e = c) (h : k ++ r = k' ++ r') :
    k = k' ∧ r = r' := by
  have hstop : ∀ k r : List α, c ∉ k → (∀ e ∈ r.head?, e = c) →
      (k ++ r).takeWhile (fun e => decide (e ≠ c)) = k ∧
      (k ++ r).dropWhile (fun e => decide (e ≠ c)) = r := by
    intro k r hk hr
    refine takeWhile_append_stop (fun e he => ?_) fun e he => ?_
    · rw [decide_eq_true_iff]
      rintro rfl
      exact hk he
    · rw [hr e he]
      simp
  obtain ⟨htake, hdrop⟩ := hstop k r hk hr
  obtain ⟨htake', hdrop'⟩ := hstop k' r' hk' hr'
  rw [h] at htake hdrop
  exact ⟨htake.symm.trans htake', hdrop.symm.trans hdrop'⟩

theorem fractionText_head (n : Nat) : ∀ e ∈ (fractionText n).head?, e = '.' := by
  unfold fractionText
  split
  · rintro e ⟨⟩
  · rintro e ⟨⟩
    rfl

/-- The text determines the moment. -/
theorem datetimeText_inj {t t' : Int} (h : datetimeText t = datetimeText t') : t = t' := by
  unfold datetimeText at h
  dsimp only at h
  have hrange := civilDate_range (t / 86400000000)
  have hrange' := civilDate_range (t' / 86400000000)
  have hdays : civilDate (t / 86400000000) = civilDate (t' / 86400000000) →
      t / 86400000000 = t' / 86400000000 := civilDate_inj
  generalize hdate : civilDate (t / 86400000000) = date at h hrange hdays
  generalize hdate' : civilDate (t' / 86400000000) = date' at h hrange' hdays
  generalize hsecond : (t / 1000000 % 86400).toNat = second at h
  generalize hsecond' : (t' / 1000000 % 86400).toNat = second' at h
  have hpoint : ∀ (date : CivilDate) (second : Nat), '.' ∉ yearText date.year ++
      clockText date.month.toNat date.day.toNat (second / 3600) (second / 60 % 60) (second % 60) :=
        fun date second hmem =>
    (List.mem_append.1 hmem).elim (not_mem_yearText rfl (by decide) _)
      (not_mem_clockText rfl (by decide) _ _ _ _ _)
  obtain ⟨hbase, hfraction⟩ :=
    append_inj_of_mark (hpoint date second) (hpoint date' second') (fractionText_head _)
    (fractionText_head _) h
  have hlength : ∀ (date : CivilDate) (second : Nat), date.month ≤ 12 → date.day ≤ 31 →
      second < 86400 →
      (clockText date.month.toNat date.day.toNat (second / 3600) (second / 60 % 60)
        (second % 60)).length = 15 :=
    fun date second hmonth hday hsecond =>
      length_clockText (by omega) (by omega) (by omega) (by omega) (by omega)
  obtain ⟨hyear, hclock⟩ := List.append_inj' hbase
    ((hlength date second (by omega) (by omega) (by omega)).trans
      (hlength date' second' (by omega) (by omega) (by omega)).symm)
  obtain ⟨hmonth, hday, hhour, hminute, hsec⟩ :=
    clockText_inj (by omega) (by omega) (by omega) (by omega) (by omega) hclock
  have hfraction := fractionText_inj hfraction
  have hyear := yearText_inj hyear
  have hmonth' : date.month = date'.month := by omega
  have hday' : date.day = date'.day := by omega
  have hdateEq : date = date' := by
    cases date
    exact CivilDate.mk.injEq .. ▸ ⟨hyear, hmonth', hday'⟩
  have hday' := hdays hdateEq
  omega

theorem not_mem_datetimeText {c : Char} (hc : c.isDigit = false)
    (hmarks : c ∉ ['-', ' ', ':', '.']) (t : Int) :
    c ∉ datetimeText t := by
  simp only [List.mem_cons, List.not_mem_nil, or_false, not_or] at hmarks
  unfold datetimeText
  dsimp only
  rw [List.mem_append, List.mem_append, not_or, not_or]
  exact ⟨⟨not_mem_yearText hc hmarks.1 _, not_mem_clockText hc (by simp [hmarks]) _ _ _ _ _⟩,
    not_mem_fractionText hc hmarks.2.2.2 _⟩

example : String.ofList (datetimeText 1709251199000007) = "2024-02-29 23:59:59.000007" := by
    decide +kernel

end Euvieouvi
