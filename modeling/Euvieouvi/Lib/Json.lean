import Euvieouvi.Lib.Doubles
import Euvieouvi.Lib.Keys
import Mathlib.Data.List.TakeWhile

/-!
# Reading JSON

`json.loads` and `int` of the Python library, on texts and on the values that a text stands for. The
text is cut into tokens and the tokens drive a machine with a stack, one frame for each array or
object that is open. So reading ends on every text, and it fails in two ways only: with a
`ValueError` where the text is malformed or a number has too many digits, and with a
`RecursionError` where more is open than the interpreter allows.

Strings are lists of code points, since an escape can stand for half of a surrogate pair.
-/

namespace Euvieouvi

inductive JsonValue
  | null
  | bool (value : Bool)
  | int (value : Int)
  | float (value : Double)
  | string (points : List Nat)
  | array (items : List JsonValue)
  | object (members : List (List Nat × JsonValue))

/-- What reading a text and its values raises. `JSONDecodeError` is a `ValueError`. -/
inductive JsonError
  | value
  | key
  | type
  | overflow
  | recursion
deriving DecidableEq, Repr

namespace JsonValue

/-- The code points of a text. -/
def pointsOf (text : String) : List Nat := text.toList.map Char.toNat

/-- `payload[key]`, where the last member with this key counts. -/
def getItem (key : String) : JsonValue → Except JsonError JsonValue
  | object members => match members.reverse.find? fun member => member.1 == pointsOf key with
    | some member => .ok member.2
    | none => .error .key
  | _ => .error .type

mutual

/-- How deeply arrays and objects are nested. -/
def depth : JsonValue → Nat
  | array items => itemsDepth items + 1
  | object members => membersDepth members + 1
  | _ => 0

def itemsDepth : List JsonValue → Nat
  | [] => 0
  | item :: items => max item.depth (itemsDepth items)

def membersDepth : List (List Nat × JsonValue) → Nat
  | [] => 0
  | (_, value) :: members => max value.depth (membersDepth members)

end

/-! ### Numbers -/

/-- `sys.get_int_max_str_digits()`. -/
def maxDigits : Nat := 4300

/-- `[0-9]+`, and what follows. -/
def digits? (text : List Char) : Option (List Char × List Char) :=
  match text.takeWhile Char.isDigit with
  | [] => none
  | run => some (run, text.dropWhile Char.isDigit)

/-- `-?(0|[1-9][0-9]*)`: the sign, the digits, and what follows. -/
def whole? (text : List Char) : Option (Bool × List Char × List Char) :=
  let (negative, body) := match text with
    | '-' :: body => (true, body)
    | body => (false, body)
  match digits? body with
  | some ('0' :: _ :: _, _) => none
  | some (run, rest) => some (negative, run, rest)
  | none => none

/-- `(\.[0-9]+)?`. -/
def fraction? : List Char → Option (Option (List Char) × List Char)
  | '.' :: text => (digits? text).map fun (run, rest) => (some run, rest)
  | text => some (none, text)

/-- `([eE][-+]?[0-9]+)?`. -/
def exponent? : List Char → Option (Option Int × List Char)
  | c :: text =>
    if c = 'e' ∨ c = 'E' then
      let (negative, body) := match text with
        | '-' :: body => (true, body)
        | '+' :: body => (false, body)
        | body => (false, body)
      (digits? body).map fun (run, rest) =>
        let value : Int := Nat.ofDigitChars 10 run 0
        (some (if negative then -value else value), rest)
    else some (none, c :: text)
  | [] => some (none, [])

/-- A number, with a decimal point or an exponent if it is a float. -/
def number (text : List Char) : Except JsonError JsonValue :=
  match whole? text with
  | none => .error .value
  | some (negative, whole, rest) =>
    match (fraction? rest).bind fun (fraction, rest) =>
      (exponent? rest).map fun (exponent, rest) => (fraction, exponent, rest) with
    | some (none, none, []) =>
      if maxDigits < whole.length then .error .value
      else
        let value : Int := Nat.ofDigitChars 10 whole 0
        .ok (.int (if negative then -value else value))
    | some (fraction, exponent, []) =>
      let fraction := fraction.getD []
      .ok (.float (.ofDecimal negative (Nat.ofDigitChars 10 (whole ++ fraction) 0)
        (exponent.getD 0 - fraction.length)))
    | _ => .error .value

def constants : List (List Char × JsonValue) :=
  [("null".toList, .null), ("true".toList, .bool true), ("false".toList, .bool false),
    ("NaN".toList, .float .nan),
    ("Infinity".toList, .float (.infinite false)), ("-Infinity".toList, .float (.infinite true))]

/-- The value of a word: a constant or a number. -/
def word (text : List Char) : Except JsonError JsonValue :=
  match constants.lookup text with
  | some value => .ok value
  | none => number text

theorem word_error {text : List Char} {e : JsonError} (h : word text = .error e) : e = .value := by
  unfold word at h
  cases hconstant : constants.lookup text with
  | some value => simp [hconstant] at h
  | none =>
    simp only [hconstant, number] at h
    grind

/-- A number begins with a zero only if it is zero. -/
theorem head_toDigits_ne_zero {n : Nat} (hn : 0 < n) : (Nat.toDigits 10 n).head? ≠ some '0' := by
  induction n using Nat.strong_induction_on with
  | h n ih =>
    rcases Nat.lt_or_ge n 10 with hlt | hge
    · have hdigit : ∀ d < 10, 0 < d → d.digitChar ≠ '0' := by decide
      simpa [Nat.toDigits_of_lt_base hlt] using hdigit n hlt hn
    · have hne : Nat.toDigits 10 (n / 10) ≠ [] := Nat.toDigits_ne_nil
      rw [Nat.toDigits_of_base_le (by decide) hge, List.head?_append_of_ne_nil _ hne]
      exact ih (n / 10) (by omega) (by omega)

theorem digits?_eq {run : List Char} (hne : run ≠ []) (hdigit : ∀ c ∈ run, c.isDigit) :
    digits? run = some (run, []) := by
  have htake : run.takeWhile Char.isDigit = run := List.takeWhile_eq_self_iff.2 hdigit
  have hdrop : run.dropWhile Char.isDigit = [] := List.dropWhile_eq_nil_iff.2 hdigit
  cases run with
  | nil => exact absurd rfl hne
  | cons c run => rw [digits?, htake, hdrop]

theorem whole?_toDigits (n : Nat) :
    whole? (Nat.toDigits 10 n) = some (false, Nat.toDigits 10 n, []) := by
  have hdigit : ∀ c ∈ Nat.toDigits 10 n, c.isDigit :=
    fun c hc => Nat.isDigit_of_mem_toDigits (by decide) le_rfl hc
  have hrun := digits?_eq Nat.toDigits_ne_nil hdigit
  have hzero : Nat.toDigits 10 n = ['0'] ∨ (Nat.toDigits 10 n).head? ≠ some '0' := by
    rcases Nat.eq_zero_or_pos n with rfl | hn
    · exact .inl rfl
    · exact .inr (head_toDigits_ne_zero hn)
  rcases hzero with hzero | hzero
  · rw [hzero]
    rfl
  · cases hchars : Nat.toDigits 10 n with
    | nil => exact absurd hchars Nat.toDigits_ne_nil
    | cons c run =>
      have hminus : c ≠ '-' := by
        rintro rfl
        have := hdigit '-' (by simp [hchars])
        simp at this
      have hc : c ≠ '0' := by simpa [hchars] using hzero
      rw [hchars] at hrun
      simp [whole?, hminus, hrun, hc]

theorem constants_head : ∀ p ∈ constants, p.1.head?.all (!·.isDigit) = true := by decide

/-- The decimal text of a whole number stands for it, unless it is too long. -/
theorem word_toDigits (n : Nat) :
    word (Nat.toDigits 10 n) =
      if maxDigits < (Nat.toDigits 10 n).length then .error .value else .ok (.int n) := by
  have hconstant : constants.lookup (Nat.toDigits 10 n) = none := by
    refine List.lookup_eq_none_iff.2 fun p hp => ?_
    rw [bne_iff_ne]
    intro heq
    cases hchars : Nat.toDigits 10 n with
    | nil => exact Nat.toDigits_ne_nil hchars
    | cons c run =>
      have hc : c.isDigit :=
        Nat.isDigit_of_mem_toDigits (n := n) (b := 10) (by decide) le_rfl (by simp [hchars])
      have hhead := constants_head p hp
      simp [← heq, hchars, hc] at hhead
  simp [word, hconstant, number, whole?_toDigits, fraction?, exponent?,
    Nat.ofDigitChars_ten_toDigits]

/-! ### Tokens -/

inductive Token
  | openArray
  | closeArray
  | openObject
  | closeObject
  | colon
  | comma
  | string (points : List Nat)
  | word (text : List Char)
  /-- A string that is not one. Nothing behind it is read. -/
  | broken
deriving DecidableEq, Repr

/-- Where the scanner stands. -/
inductive Scan
  | between
  | word (read : List Char)
  | string (read : List Nat)
  | escape (read : List Nat)
  | unicode (read : List Nat) (digits : List Nat)

def isWhitespace (c : Char) : Bool := c = ' ' || c = '\t' || c = '\n' || c = '\r'

def mark? : Char → Option Token
  | '[' => some .openArray
  | ']' => some .closeArray
  | '{' => some .openObject
  | '}' => some .closeObject
  | ':' => some .colon
  | ',' => some .comma
  | _ => none

/-- The escapes of one character. -/
def escaped? : Char → Option Nat
  | '"' => some 34
  | '\\' => some 92
  | '/' => some 47
  | 'b' => some 8
  | 'f' => some 12
  | 'n' => some 10
  | 'r' => some 13
  | 't' => some 9
  | _ => none

def hexDigit? (c : Char) : Option Nat :=
  if '0' ≤ c ∧ c ≤ '9' then some (c.toNat - '0'.toNat)
  else if 'a' ≤ c ∧ c ≤ 'f' then some (c.toNat - 'a'.toNat + 10)
  else if 'A' ≤ c ∧ c ≤ 'F' then some (c.toNat - 'A'.toNat + 10)
  else none

/-- A high and a low surrogate that follow each other are one code point. Texts have surrogates from
escapes only. -/
def joinSurrogates : List Nat → List Nat
  | high :: low :: points =>
    if 0xD800 ≤ high ∧ high ≤ 0xDBFF ∧ 0xDC00 ≤ low ∧ low ≤ 0xDFFF then
      (0x10000 + (high - 0xD800) * 0x400 + (low - 0xDC00)) :: joinSurrogates points
    else high :: joinSurrogates (low :: points)
  | points => points

def lex : Scan → List Char → List Token
  | .between, [] => []
  | .word read, [] => [.word read]
  | _, [] => [.broken]
  | .between, c :: text =>
    if isWhitespace c then lex .between text
    else if c = '"' then lex (.string []) text
    else match mark? c with
      | some token => token :: lex .between text
      | none => lex (.word [c]) text
  | .word read, c :: text =>
    if isWhitespace c then .word read :: lex .between text
    else if c = '"' then .word read :: lex (.string []) text
    else match mark? c with
      | some token => .word read :: token :: lex .between text
      | none => lex (.word (read ++ [c])) text
  | .string read, c :: text =>
    if c = '"' then .string (joinSurrogates read) :: lex .between text
    else if c = '\\' then lex (.escape read) text
    else if c.toNat < 0x20 then [.broken]
    else lex (.string (read ++ [c.toNat])) text
  | .escape read, c :: text =>
    if c = 'u' then lex (.unicode read []) text
    else match escaped? c with
      | some point => lex (.string (read ++ [point])) text
      | none => [.broken]
  | .unicode read digits, c :: text =>
    match hexDigit? c with
    | none => [.broken]
    | some digit =>
      if digits.length =
        3 then lex (.string (read ++ [(digits ++ [digit]).foldl (fun n d => 16 * n + d) 0])) text
      else lex (.unicode read (digits ++ [digit])) text

/-- A character that goes on with a word. -/
def continues (c : Char) : Bool := !isWhitespace c && c ≠ '"' && (mark? c).isNone

theorem continues_iff {c : Char} : continues c ↔ isWhitespace c = false ∧ c ≠ '"' ∧
    mark? c = none := by
  simp [continues, and_assoc]

theorem continues_of_isDigit {c : Char} (h : c.isDigit) : continues c := by
  have hne : ∀ c' : Char, c'.isDigit = false → c ≠ c' := by
    rintro c' hc' rfl
    simp [h] at hc'
  refine continues_iff.2 ⟨?_, hne _ rfl, ?_⟩
  · simp [isWhitespace, hne]
  · simp [mark?, hne]

theorem lex_word_append {run : List Char} (hrun : ∀ c ∈ run, continues c) (read text : List Char) :
    lex (.word read) (run ++ text) = lex (.word (read ++ run)) text := by
  induction run generalizing read with
  | nil => simp
  | cons c run ih =>
    have hc := continues_iff.1 (hrun c (by simp))
    rw [List.cons_append, lex]
    simp only [hc.1, hc.2.1, hc.2.2]
    simpa using ih (fun c' h => hrun c' (by simp [h])) (read ++ [c])

/-- A word that is followed by the end of an object. -/
theorem lex_word {run : List Char} (hne : run ≠ []) (hrun : ∀ c ∈ run, continues c)
    (text : List Char) :
    lex .between (run ++ '\x7d' :: text) = .word run :: .closeObject :: lex .between text := by
  cases run with
  | nil => exact absurd rfl hne
  | cons c run =>
    have hc := continues_iff.1 (hrun c (by simp))
    rw [List.cons_append, lex]
    simp only [hc.1, hc.2.1, hc.2.2]
    have hmore :=
      lex_word_append (fun c' h => hrun c' (List.mem_cons_of_mem c h)) [c] ('\x7d' :: text)
    simp [hmore, lex, isWhitespace, mark?]

/-- An array or an object with the value that is being read still missing. -/
inductive Frame
  | array (items : List JsonValue)
  | object (members : List (List Nat × JsonValue)) (key : List Nat)

/-- What may come next, and what is open. -/
inductive Machine
  | value (stack : List Frame)
  /-- An array has been opened: a value or its end. -/
  | firstItem (stack : List Frame)
  | afterItem (items : List JsonValue) (stack : List Frame)
  /-- A key, or the end of an object that has just been opened. -/
  | key (first : Bool) (members : List (List Nat × JsonValue)) (stack : List Frame)
  | colon (members : List (List Nat × JsonValue)) (key : List Nat) (stack : List Frame)
  | afterMember (members : List (List Nat × JsonValue)) (stack : List Frame)
  | done (value : JsonValue)

namespace Machine

/-- A value is complete. -/
def complete (v : JsonValue) : List Frame → Machine
  | [] => .done v
  | .array items :: stack => .afterItem (items ++ [v]) stack
  | .object members name :: stack => .afterMember (members ++ [(name, v)]) stack

/-- A token where a value is expected. Arrays and objects are open for as long as they have a
frame. -/
def readValue (limit : Nat) (stack : List Frame) : Token → Except JsonError Machine
  | .string points => .ok (complete (.string points) stack)
  | .word text => (JsonValue.word text).map fun v => complete v stack
  | .openArray => if limit ≤ stack.length then .error .recursion else .ok (.firstItem stack)
  | .openObject => if limit ≤ stack.length then .error .recursion else .ok (.key true [] stack)
  | _ => .error .value

def step (limit : Nat) : Machine → Token → Except JsonError Machine
  | .value stack, token => readValue limit stack token
  | .firstItem stack, .closeArray => .ok (complete (.array []) stack)
  | .firstItem stack, token => readValue limit (.array [] :: stack) token
  | .afterItem items stack, .comma => .ok (.value (.array items :: stack))
  | .afterItem items stack, .closeArray => .ok (complete (.array items) stack)
  | .key _ members stack, .string points => .ok (.colon members points stack)
  | .key true _ stack, .closeObject => .ok (complete (.object []) stack)
  | .colon members name stack, .colon => .ok (.value (.object members name :: stack))
  | .afterMember members stack, .comma => .ok (.key false members stack)
  | .afterMember members stack, .closeObject => .ok (complete (.object members) stack)
  | _, _ => .error .value

def result : Machine → Except JsonError JsonValue
  | .done v => .ok v
  | _ => .error .value

end Machine

/-- `json.loads`, where `limit` arrays and objects may be open at once. -/
def loads (limit : Nat) (text : String) : Except JsonError JsonValue :=
  ((lex .between text.toList).foldlM (Machine.step limit) (.value [])).bind Machine.result

theorem Machine.run_cons {limit : Nat} {m m' : Machine} {token : Token} {tokens : List Token}
    (h : m.step limit token = .ok m') :
    (token :: tokens).foldlM (Machine.step limit) m = tokens.foldlM (Machine.step limit) m' := by
  rw [List.foldlM_cons, h]
  rfl

theorem Machine.readValue_error {limit : Nat} {stack : List Frame} {token : Token} {e : JsonError}
    (h : readValue limit stack token = .error e) : e = .value ∨ e = .recursion := by
  cases token with
  | word text =>
    cases hword : JsonValue.word text with
    | ok v => simp [readValue, hword, Except.map] at h
    | error e' =>
      simp only [readValue, hword, Except.map, Except.error.injEq] at h
      exact .inl (h ▸ word_error hword)
  | _ => grind [readValue]

theorem Machine.step_error {limit : Nat} {m : Machine} {token : Token} {e : JsonError}
    (h : m.step limit token = .error e) :
    e = .value ∨ e = .recursion := by
  unfold Machine.step at h
  split at h
  case h_1 | h_3 => exact Machine.readValue_error h
  all_goals grind

theorem Machine.run_error {limit : Nat} {tokens : List Token} {m : Machine} {e : JsonError}
    (h : tokens.foldlM (Machine.step limit) m = .error e) : e = .value ∨ e = .recursion := by
  induction tokens generalizing m with
  | nil => cases h
  | cons token tokens ih =>
    rw [List.foldlM_cons] at h
    cases hstep : m.step limit token with
    | error e' =>
      rw [hstep] at h
      cases h
      exact Machine.step_error hstep
    | ok m' =>
      rw [hstep] at h
      exact ih h

/-- Reading a text raises nothing else. -/
theorem loads_error {limit : Nat} {text : String} {e : JsonError}
    (h : loads limit text = .error e) :
    e = .value ∨ e = .recursion := by
  unfold loads at h
  cases hrun : (lex .between text.toList).foldlM (Machine.step limit) (.value []) with
  | error e' =>
    rw [hrun] at h
    cases h
    exact Machine.run_error hrun
  | ok m =>
    rw [hrun] at h
    cases m with
    | done v => cases h
    | _ =>
      cases h
      exact .inl rfl

/-- The tables of Unicode that `int` reads, for code points that are not ASCII. -/
structure Unicode where
  isSpace : Nat → Bool
  decimal : Nat → Option Nat

namespace Unicode

/-- Texts of plain ASCII. -/
def plain : Unicode := ⟨fun _ => false, fun _ => none⟩

variable (u : Unicode)

/-- `Py_ISSPACE` of a code point that is ASCII, and `str.isspace` of another one. -/
def isBlank (point : Nat) : Bool := point == 32 || (9 ≤ point && point ≤ 13) || 127 ≤ point &&
    u.isSpace point

def digit? (point : Nat) : Option Nat :=
  if 48 ≤ point ∧
    point ≤ 57 then some (point - 48) else if 127 ≤ point then u.decimal point else none

/-- Digits with single underscores between them. -/
def grouped? : List Nat → Option (List Nat)
  | [] => none
  | [point] => (u.digit? point).map fun d => [d]
  | point :: 95 :: points => (u.digit? point).bind fun d => (grouped? points).map (d :: ·)
  | point :: next :: points =>
    (u.digit? point).bind fun d => (grouped? (next :: points)).map (d :: ·)

/-- `int(text)`; nothing for a `ValueError`. -/
def int? (points : List Nat) : Option Int :=
  let stripped := ((points.dropWhile u.isBlank).reverse.dropWhile u.isBlank).reverse
  let (negative, body) := match stripped with
    | 45 :: body => (true, body)
    | 43 :: body => (false, body)
    | body => (false, body)
  (u.grouped? body).bind fun digits =>
    if maxDigits < digits.length then none
    else
      let value : Int := digits.foldl (fun n d => 10 * n + d) 0
      some (if negative then -value else value)

end Unicode

/-- `int(value)`. -/
def toInt (u : Unicode) : JsonValue → Except JsonError Int
  | .int value => .ok value
  | .bool value => .ok (if value then 1 else 0)
  | .float .nan => .error .value
  | .float (.infinite _) => .error .overflow
  | .float (.finite negative units) => .ok (Double.truncated negative units)
  | .string points => match u.int? points with
    | some value => .ok value
    | none => .error .value
  | .null | .array _ | .object _ => .error .type

end JsonValue

end Euvieouvi
