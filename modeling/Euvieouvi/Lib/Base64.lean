import Mathlib.Data.List.DropRight

/-!
# Base64 with the URL alphabet

Bytes as texts of six-bit digits. The decoder reads the standard digits too, skips every other
character, and stops at the padding that ends a group; a text that ends within a group has no value.
Padding that was taken off can be put back: the length tells how much there was
(`decode_pad_strip`).
-/

namespace Euvieouvi

namespace Base64

def standardDigits : List Char :=
  "ABCDEFGHIJKLMNOPQRSTUVWXYZabcdefghijklmnopqrstuvwxyz0123456789+/".toList

def urlDigits : List Char :=
  "ABCDEFGHIJKLMNOPQRSTUVWXYZabcdefghijklmnopqrstuvwxyz0123456789-_".toList

def digit (n : Nat) : Char := urlDigits.getD n 'A'

/-- The value of a digit; the two digits of the URL alphabet are read as the standard ones. -/
def value (c : Char) : Option Nat :=
  standardDigits.idxOf? (if c = '-' then '+' else if c = '_' then '/' else c)

def encode : List UInt8 → List Char
  | [] => []
  | [a] => [digit (a.toNat / 4), digit (a.toNat % 4 * 16), '=', '=']
  | [a, b] =>
    [digit (a.toNat / 4), digit (a.toNat % 4 * 16 + b.toNat / 16), digit (b.toNat % 16 * 4), '=']
  | a :: b :: c :: bytes =>
    digit (a.toNat / 4) :: digit (a.toNat % 4 * 16 + b.toNat / 16) ::
      digit (b.toNat % 16 * 4 + c.toNat / 64) ::
      digit (c.toNat % 64) :: encode bytes

/-- The bytes of a text, from a position in a group of four digits: the bits that are left and the
padding so far. -/
def decodeFrom : List Char → Nat → Nat → Nat → Option (List UInt8)
  | [], position, _, _ => if position = 0 then some [] else none
  | c :: text, position, left, pads =>
    if c = '=' then
      if 2 ≤ position ∧ 4 ≤ position + (pads + 1) then some []
      else decodeFrom text position left (if 2 ≤ position then pads + 1 else pads)
    else match value c with
      | none => decodeFrom text position left pads
      | some v => match position with
        | 0 => decodeFrom text 1 v 0
        | 1 => (decodeFrom text 2 (v % 16) 0).map (UInt8.ofNat (left * 4 + v / 16) :: ·)
        | 2 => (decodeFrom text 3 (v % 4) 0).map (UInt8.ofNat (left * 16 + v / 4) :: ·)
        | _ => (decodeFrom text 0 0 0).map (UInt8.ofNat (left * 64 + v) :: ·)

def decode (text : List Char) : Option (List UInt8) := decodeFrom text 0 0 0

/-- `text.rstrip("=")`. -/
def strip (text : List Char) : List Char := text.rdropWhile (· == '=')

/-- `text + "=" * (-len(text) % 4)`. -/
def pad (text : List Char) : List Char := text ++ List.replicate ((4 - text.length % 4) % 4) '='

theorem digit_spec : ∀ n < 64, value (digit n) = some n ∧ digit n ≠ '=' := by decide +kernel

section Step
variable {text : List Char} {left pads n : Nat}

/-- A digit is read and gives its bits to the position. -/
theorem decodeFrom_digit (hn : n < 64) (position : Nat) :
    decodeFrom (digit n :: text) position left pads =
    if position = 0 then decodeFrom text 1 n 0
    else if position =
      1 then (decodeFrom text 2 (n % 16) 0).map (UInt8.ofNat (left * 4 + n / 16) :: ·)
    else if position =
      2 then (decodeFrom text 3 (n % 4) 0).map (UInt8.ofNat (left * 16 + n / 4) :: ·)
    else (decodeFrom text 0 0 0).map (UInt8.ofNat (left * 64 + n) :: ·) := by
  conv_lhs => unfold decodeFrom
  simp only [if_neg (digit_spec n hn).2, (digit_spec n hn).1]
  rcases position with _ | _ | _ | position <;> rfl

theorem decodeFrom_digit_zero (hn : n < 64) :
    decodeFrom (digit n :: text) 0 left pads = decodeFrom text 1 n 0 :=
  decodeFrom_digit hn 0

theorem decodeFrom_digit_one (hn : n < 64) :
    decodeFrom (digit n :: text) 1 left pads =
      (decodeFrom text 2 (n % 16) 0).map (UInt8.ofNat (left * 4 + n / 16) :: ·) :=
  decodeFrom_digit hn 1

theorem decodeFrom_digit_two (hn : n < 64) :
    decodeFrom (digit n :: text) 2 left pads =
      (decodeFrom text 3 (n % 4) 0).map (UInt8.ofNat (left * 16 + n / 4) :: ·) :=
  decodeFrom_digit hn 2

theorem decodeFrom_digit_three (hn : n < 64) :
    decodeFrom (digit n :: text) 3 left pads =
      (decodeFrom text 0 0 0).map (UInt8.ofNat (left * 64 + n) :: ·) :=
  decodeFrom_digit hn 3

end Step

theorem ofNat_eq {a : UInt8} {n : Nat} (h : n = a.toNat) :
    UInt8.ofNat n = a := by rw [h, UInt8.ofNat_toNat]

theorem decode_encode (bytes : List UInt8) : decode (encode bytes) = some bytes := by
  unfold decode
  induction bytes using encode.induct with
  | case1 => rfl
  | case2 a =>
    have ha := a.toNat_lt
    unfold encode
    rw [decodeFrom_digit_zero (by omega), decodeFrom_digit_one (by omega),
      ofNat_eq (a := a) (by omega)]
    rfl
  | case3 a b =>
    have ha := a.toNat_lt
    have hb := b.toNat_lt
    unfold encode
    rw [decodeFrom_digit_zero (by omega), decodeFrom_digit_one (by omega),
      decodeFrom_digit_two (by omega),
      ofNat_eq (a := a) (by omega), ofNat_eq (a := b) (by omega)]
    rfl
  | case4 a b c bytes ih =>
    have ha := a.toNat_lt
    have hb := b.toNat_lt
    have hc := c.toNat_lt
    unfold encode
    rw [decodeFrom_digit_zero (by omega), decodeFrom_digit_one (by omega),
      decodeFrom_digit_two (by omega),
      decodeFrom_digit_three (by omega), ofNat_eq (a := a) (by omega), ofNat_eq (a := b) (by omega),
      ofNat_eq (a := c) (by omega), ih]
    rfl

/-- A text is its digits and what is missing to a multiple of four. -/
theorem encode_eq_pad (bytes : List UInt8) : ∃ text, encode bytes = pad text ∧ '=' ∉ text := by
  have hshape : ∃ text k, encode bytes = text ++ List.replicate k '=' ∧ '=' ∉ text ∧ k < 4 ∧
      (text.length + k) % 4 = 0 := by
    induction bytes using encode.induct with
    | case1 => exact ⟨[], 0, rfl, List.not_mem_nil, by omega, rfl⟩
    | case2 a =>
      have ha := a.toNat_lt
      refine ⟨[digit (a.toNat / 4), digit (a.toNat % 4 * 16)], 2, rfl, ?_, by omega, by simp⟩
      simp [(digit_spec (a.toNat / 4) (by omega)).2.symm,
        (digit_spec (a.toNat % 4 * 16) (by omega)).2.symm]
    | case3 a b =>
      have ha := a.toNat_lt
      have hb := b.toNat_lt
      refine ⟨[digit (a.toNat / 4), digit (a.toNat % 4 * 16 + b.toNat / 16),
        digit (b.toNat % 16 * 4)], 1, rfl, ?_, by omega, by simp⟩
      simp [(digit_spec (a.toNat / 4) (by omega)).2.symm,
        (digit_spec (a.toNat % 4 * 16 + b.toNat / 16) (by omega)).2.symm,
        (digit_spec (b.toNat % 16 * 4) (by omega)).2.symm]
    | case4 a b c bytes ih =>
      have ha := a.toNat_lt
      have hb := b.toNat_lt
      have hc := c.toNat_lt
      obtain ⟨text, k, htext, hpads, hk, hlen⟩ := ih
      refine ⟨digit (a.toNat / 4) :: digit (a.toNat % 4 * 16 + b.toNat / 16) ::
        digit (b.toNat % 16 * 4 + c.toNat / 64) ::
        digit (c.toNat % 64) :: text, k, ?_, ?_, hk, ?_⟩
      · unfold encode
        rw [htext]
        rfl
      · simp [(digit_spec (a.toNat / 4) (by omega)).2.symm,
          (digit_spec (a.toNat % 4 * 16 + b.toNat / 16) (by omega)).2.symm,
          (digit_spec (b.toNat % 16 * 4 + c.toNat / 64) (by omega)).2.symm,
            (digit_spec (c.toNat % 64) (by omega)).2.symm, hpads]
      · simp only [List.length_cons]
        omega
  obtain ⟨text, k, htext, hpads, hk, hlen⟩ := hshape
  refine ⟨text, ?_, hpads⟩
  have hcount : (4 - text.length % 4) % 4 = k := by omega
  rw [htext, pad, hcount]

theorem forall_encode {P : Char → Prop} (hdigit : ∀ n < 64, P (digit n)) (hpad : P '=')
    (bytes : List UInt8) :
    ∀ c ∈ encode bytes, P c := by
  induction bytes using encode.induct with
  | case1 => rintro c ⟨⟩
  | case2 a =>
    have ha := a.toNat_lt
    simp only [encode, List.mem_cons, List.not_mem_nil, or_false]
    rintro c (rfl | rfl | rfl | rfl)
    exacts [hdigit _ (by omega), hdigit _ (by omega), hpad, hpad]
  | case3 a b =>
    have ha := a.toNat_lt
    have hb := b.toNat_lt
    simp only [encode, List.mem_cons, List.not_mem_nil, or_false]
    rintro c (rfl | rfl | rfl | rfl)
    exacts [hdigit _ (by omega), hdigit _ (by omega), hdigit _ (by omega), hpad]
  | case4 a b c bytes ih =>
    have ha := a.toNat_lt
    have hb := b.toNat_lt
    have hc := c.toNat_lt
    simp only [encode, List.mem_cons]
    rintro d (rfl | rfl | rfl | rfl | hd)
    exacts [hdigit _ (by omega), hdigit _ (by omega), hdigit _ (by omega),
      hdigit _ (by omega), ih d hd]

theorem ascii_encode (bytes : List UInt8) : ∀ c ∈ encode bytes, c.toNat < 128 :=
  forall_encode (by decide +kernel) (by decide) bytes

theorem strip_pad {text : List Char} (h : '=' ∉ text) : strip (pad text) = text := by
  unfold strip pad
  generalize (4 - text.length % 4) % 4 = k
  induction k with
  | zero =>
    rw [List.replicate_zero, List.append_nil]
    refine List.rdropWhile_eq_self_iff.2 fun hne => ?_
    rw [beq_iff_eq]
    exact fun heq => h (heq ▸ List.getLast_mem hne)
  | succ k ih =>
    rw [List.replicate_succ', ← List.append_assoc, List.rdropWhile_concat_pos _ _ _ (by decide), ih]

theorem decode_pad_strip (bytes : List UInt8) :
    decode (pad (strip (encode bytes))) = some bytes := by
  obtain ⟨text, htext, hpads⟩ := encode_eq_pad bytes
  rw [htext, strip_pad hpads, ← htext, decode_encode]

end Base64

end Euvieouvi
