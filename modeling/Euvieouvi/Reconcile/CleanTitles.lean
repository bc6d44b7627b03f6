import Euvieouvi.Lib.Blanks
import Euvieouvi.Lib.Cuttings
import Euvieouvi.Reconcile.EmbeddedIdentifiers
import Mathlib.Data.Bool.AllAny
import Mathlib.Data.List.TakeWhile
import Mathlib.Tactic.IntervalCases

/-!
# Clean titles

Parsing a title that `parse_embedded_identifiers` has cleaned. A match of the expression is a text
of a fixed shape (`TokenText`) with brackets at its ends only, so the matches of a title lie apart,
and the blanks of a token do not matter. A cleaned title holds a token again exactly when some
stretch of the title becomes one by taking the accepted tokens out of it.
-/

namespace Euvieouvi

namespace EmbeddedMetadata

/-! ### The expression -/

def tokenLetters : List Char := ['t', 'm', 'd', 'b', 'v', 'i']

def tokenSymbols : List Char := "[{()}]-=0123456789".toList

/-- What the expression takes a blank and a letter for: a symbol is no blank, and what matches a
letter ignoring case is neither a symbol nor a blank. -/
structure ReadsAscii (py : PyLib) : Prop where
  blank : py.isSpace ' ' = true
  symbols : ∀ c ∈ tokenSymbols, py.isSpace c = false
  letters : ∀ l ∈ tokenLetters, ∀ c, py.ignoreCase l c = true → py.isSpace c = false ∧
    c ∉ tokenSymbols

def Spells (py : PyLib) (name text : List Char) : Prop :=
  List.Forall₂ (fun l c => py.ignoreCase l c = true) name text

structure ProviderText (py : PyLib) (text : List Char) : Prop where
  parts : ∃ name suffix, text = name ++ suffix ∧ (suffix = [] ∨ Spells py ['i', 'd'] suffix) ∧
    (Spells py ['t', 'm', 'd', 'b'] name ∨ Spells py ['t', 'v', 'd', 'b'] name ∨
      Spells py ['i', 'm', 'd', 'b'] name)

def Digits (text : List Char) : Prop := text ≠ [] ∧ ∀ c ∈ text, isDigit c = true

def IdText (py : PyLib) (text : List Char) : Prop :=
  (∃ mark number, text = mark ++ number ∧ Spells py ['t', 't'] mark ∧ Digits number) ∨ Digits text

/-- The text of a match. -/
structure TokenText (py : PyLib) (t : Token) (m : List Char) : Prop where
  shape : ∃ w₁ w₂ sep w₃ w₄,
    m = t.opening :: (w₁ ++ (t.provider ++ (w₂ ++ sep :: (w₃ ++ (t.externalId ++
    (w₄ ++ [t.closing])))))) ∧
      (Blank py.isSpace w₁ ∧ Blank py.isSpace w₂ ∧ Blank py.isSpace w₃ ∧ Blank py.isSpace w₄) ∧
    sep ∈ ['-', '=']
  opening : t.opening ∈ ['[', '{', '(']
  provider : ProviderText py t.provider
  externalId : IdText py t.externalId
  closing : t.closing ∈ [']', '}', ')']

section Parts
variable {py : PyLib} {text rest read w : List Char} {c : Char}

theorem literal_iff {name : List Char} : literal py name text = some (read, rest) ↔
    Spells py name read ∧ text = read ++ rest := by
  induction name generalizing text read with
  | nil =>
    unfold literal Spells
    rw [List.forall₂_nil_left_iff, Option.some_inj, Prod.mk.injEq]
    constructor
    · rintro ⟨rfl, rfl⟩
      exact ⟨rfl, rfl⟩
    · rintro ⟨rfl, rfl⟩
      exact ⟨rfl, rfl⟩
  | cons l name ih =>
    unfold Spells
    rw [List.forall₂_cons_left_iff]
    rcases text with _ | ⟨c, text⟩
    · refine iff_of_false (fun h => by cases h) ?_
      rintro ⟨⟨d, read, -, -, rfl⟩, h⟩
      cases h
    · unfold literal
      constructor
      · intro h
        split at h
        next hc =>
          obtain ⟨⟨read', rest'⟩, hread, heq⟩ := Option.map_eq_some_iff.1 h
          obtain ⟨rfl, rfl⟩ := Prod.ext_iff.1 heq
          obtain ⟨hspells, rfl⟩ := ih.1 hread
          exact ⟨⟨c, read', hc, hspells, rfl⟩, rfl⟩
        next => cases h
      · rintro ⟨⟨d, read, hd, hspells, rfl⟩, h⟩
        rw [List.cons_append, List.cons.injEq] at h
        obtain ⟨rfl, rfl⟩ := h
        rw [if_pos hd, ih.2 ⟨hspells, rfl⟩]
        rfl

theorem oneOf_iff {chars : List Char} : oneOf chars text = some (c, rest) ↔ c ∈ chars ∧
    text = c :: rest := by
  rcases text with _ | ⟨d, text⟩
  · exact iff_of_false (fun h => by cases h) fun h => by cases h.2
  · unfold oneOf
    dsimp only
    rw [← List.contains_iff_mem]
    constructor
    · intro h
      split at h
      next hd =>
        rw [Option.some_inj, Prod.mk.injEq] at h
        obtain ⟨rfl, rfl⟩ := h
        exact ⟨hd, rfl⟩
      next => cases h
    · rintro ⟨hc, heq⟩
      obtain ⟨rfl, rfl⟩ := List.cons.inj heq
      rw [if_pos hc]

theorem exists_skipSpaces (py : PyLib) (text : List Char) :
    ∃ w, Blank py.isSpace w ∧ text = w ++ skipSpaces py text :=
  ⟨text.takeWhile py.isSpace, fun _ hc => List.mem_takeWhile_imp hc,
    List.takeWhile_append_dropWhile.symm⟩

theorem skipSpaces_append (hw : Blank py.isSpace w) (hc : py.isSpace c = false) (rest : List Char) :
    skipSpaces py (w ++ c :: rest) = c :: rest := by
  unfold skipSpaces
  rw [List.dropWhile_append_of_pos hw,
    List.dropWhile_cons_of_neg (by rw [hc]; exact Bool.false_ne_true)]

theorem digits_sound (h : digits text = some (read, rest)) : Digits read ∧ text = read ++ rest := by
  unfold digits at h
  split at h
  · cases h
  next hne =>
    cases h
    exact ⟨⟨hne, fun _ hc => List.mem_takeWhile_imp hc⟩, List.takeWhile_append_dropWhile.symm⟩

theorem digits_append (hread : Digits read) (hc : isDigit c = false) :
    digits (read ++ c :: rest) = some (read, c :: rest) := by
  have hneg : ¬ isDigit c = true := by rw [hc]; exact Bool.false_ne_true
  unfold digits
  rw [List.takeWhile_append_of_pos hread.2, List.takeWhile_cons_of_neg hneg, List.append_nil,
    List.dropWhile_append_of_pos hread.2, List.dropWhile_cons_of_neg hneg, if_neg hread.1]

theorem spells_length {name : List Char} (h : Spells py name read) : read.length = name.length :=
  h.length_eq.symm

theorem spells_letters (h : ReadsAscii py) {name : List Char} (hname : name ⊆ tokenLetters)
    (hread : Spells py name read) :
    ∀ c ∈ read, py.isSpace c = false ∧ c ∉ tokenSymbols := by
  unfold Spells at hread
  induction hread with
  | nil => exact fun _ hc => by cases hc
  | @cons l c name read hlc _ ih =>
    intro d hd
    rcases List.mem_cons.1 hd with rfl | hd
    · exact h.letters l (hname List.mem_cons_self) d hlc
    · exact ih (fun l hl => hname (List.mem_cons_of_mem _ hl)) d hd

theorem ProviderText.letters (h : ReadsAscii py) (ht : ProviderText py text) :
    ∀ c ∈ text, py.isSpace c = false ∧ c ∉ tokenSymbols := by
  obtain ⟨name, suffix, rfl, hsuffix, hname⟩ := ht.parts
  intro c hc
  rcases List.mem_append.1 hc with hc | hc
  · rcases hname with hname | hname | hname
    exacts [spells_letters h (by decide) hname c hc, spells_letters h (by decide) hname c hc,
      spells_letters h (by decide) hname c hc]
  · rcases hsuffix with rfl | hsuffix
    · cases hc
    · exact spells_letters h (by decide) hsuffix c hc

theorem ProviderText.ne_nil (ht : ProviderText py text) : text ≠ [] := by
  obtain ⟨name, suffix, rfl, -, hname⟩ := ht.parts
  have hlength : name.length = 4 := by
    rcases hname with hname | hname | hname <;> exact spells_length hname
  intro hnil
  rw [(List.append_eq_nil_iff.1 hnil).1] at hlength
  cases hlength

theorem providerPart_sound (h : providerPart py text = some (read, rest)) :
    ProviderText py read ∧ text = read ++ rest := by
  unfold providerPart at h
  dsimp only at h
  obtain ⟨⟨name, rest₀⟩, hname, hread⟩ := Option.map_eq_some_iff.1 h
  obtain ⟨hspells, rfl⟩ :
    (Spells py ['t', 'm', 'd', 'b'] name ∨ Spells py ['t', 'v', 'd', 'b'] name ∨
      Spells py ['i', 'm', 'd', 'b'] name) ∧ text = name ++ rest₀ := by
    rw [Option.or_eq_some_iff, Option.or_eq_some_iff, literal_iff, literal_iff,
      literal_iff] at hname
    rcases hname with ⟨hname, heq⟩ | ⟨-, ⟨hname, heq⟩ | ⟨-, hname, heq⟩⟩
    exacts [⟨.inl hname, heq⟩, ⟨.inr (.inl hname), heq⟩, ⟨.inr (.inr hname), heq⟩]
  dsimp only at hread
  rcases hliteral : literal py ['i', 'd'] rest₀ with _ | ⟨suffix, rest₁⟩
  · rw [hliteral] at hread
    obtain ⟨rfl, rfl⟩ := Prod.ext_iff.1 hread
    exact ⟨⟨name, [], (List.append_nil _).symm, .inl rfl, hspells⟩, rfl⟩
  · rw [hliteral] at hread
    obtain ⟨rfl, rfl⟩ := Prod.ext_iff.1 hread
    obtain ⟨hsuffix, rfl⟩ := literal_iff.1 hliteral
    exact ⟨⟨name, suffix, rfl, .inr hsuffix, hspells⟩, (List.append_assoc _ _ _).symm⟩

/-- Of a text as long as the name, a literal reads all or nothing. -/
theorem literal_append {name : List Char} (hlength : name.length = read.length) :
    literal py name (read ++ rest) = none ∨ literal py name (read ++ rest) = some (read, rest) := by
  rcases hl : literal py name (read ++ rest) with _ | ⟨read', rest'⟩
  · exact .inl rfl
  · obtain ⟨hspells, heq⟩ := literal_iff.1 hl
    obtain ⟨rfl, rfl⟩ := List.append_inj heq (hlength.symm.trans (spells_length hspells).symm)
    exact .inr rfl

theorem providerPart_append (ht : ProviderText py read) (hc : py.ignoreCase 'i' c = false) :
    providerPart py (read ++ c :: rest) = some (read, c :: rest) := by
  obtain ⟨name, suffix, rfl, hsuffix, hname⟩ := ht.parts
  have hread : ((literal py ['t', 'm', 'd', 'b'] (name ++ (suffix ++ c :: rest))).or
      ((literal py ['t', 'v', 'd', 'b'] (name ++ (suffix ++ c :: rest))).or
        (literal py ['i', 'm', 'd', 'b'] (name ++ (suffix ++ c :: rest))))) =
          some (name, suffix ++ c :: rest) := by
    have hlength : name.length = 4 := by
      rcases hname with hname | hname | hname <;> exact spells_length hname
    have hall : ∀ ls : List Char, ls.length = 4 →
        literal py ls (name ++ (suffix ++ c :: rest)) = none ∨
        literal py ls (name ++ (suffix ++ c :: rest)) = some (name, suffix ++ c :: rest) :=
      fun ls hls => literal_append (hls.trans hlength.symm)
    rcases hall ['t', 'm', 'd', 'b'] rfl with h₁ | h₁
    · rcases hall ['t', 'v', 'd', 'b'] rfl with h₂ | h₂
      · rw [h₁, h₂]
        rcases hname with hname | hname | hname
        · rw [literal_iff.2 ⟨hname, rfl⟩] at h₁
          cases h₁
        · rw [literal_iff.2 ⟨hname, rfl⟩] at h₂
          cases h₂
        · rw [literal_iff.2 ⟨hname, rfl⟩]
          rfl
      · rw [h₁, h₂]
        rfl
    · rw [h₁]
      rfl
  unfold providerPart
  rw [List.append_assoc, hread]
  rcases hsuffix with rfl | hsuffix
  · have hnone : literal py ['i', 'd'] (c :: rest) = none := by
      unfold literal
      rw [if_neg (by rw [hc]; exact Bool.false_ne_true)]
    simp [hnone]
  · simp [literal_iff.2 ⟨hsuffix, rfl⟩]

theorem isDigit_mem_symbols (hc : isDigit c = true) : c ∈ tokenSymbols := by
  unfold isDigit at hc
  rw [Bool.and_eq_true, decide_eq_true_eq, decide_eq_true_eq] at hc
  have hle : c.toNat ≤ 57 := hc.2
  have hge : 48 ≤ c.toNat := hc.1
  rw [← Char.ofNat_toNat c]
  generalize c.toNat = n at *
  interval_cases n <;> decide

theorem externalIdPart_sound (h : externalIdPart py text = some (read, rest)) :
    IdText py read ∧ text = read ++ rest := by
  unfold externalIdPart at h
  rcases Option.or_eq_some_iff.1 h with h' | ⟨-, h'⟩
  · obtain ⟨⟨mark, rest₀⟩, hliteral, hmap⟩ := Option.bind_eq_some_iff.1 h'
    obtain ⟨⟨number, rest₁⟩, hdigits, hread⟩ := Option.map_eq_some_iff.1 hmap
    obtain ⟨hmark, rfl⟩ := literal_iff.1 hliteral
    obtain ⟨hnumber, rfl⟩ := digits_sound hdigits
    obtain ⟨rfl, rfl⟩ := Prod.ext_iff.1 hread
    exact ⟨.inl ⟨mark, number, rfl, hmark, hnumber⟩, (List.append_assoc _ _ _).symm⟩
  · obtain ⟨hread, rfl⟩ := digits_sound h'
    exact ⟨.inr hread, rfl⟩

theorem externalIdPart_append (h : ReadsAscii py) (ht : IdText py read) (hc : isDigit c = false) :
    externalIdPart py (read ++ c :: rest) = some (read, c :: rest) := by
  unfold externalIdPart
  rcases ht with ⟨mark, number, rfl, hmark, hnumber⟩ | hnumber
  · rw [List.append_assoc, literal_iff.2 ⟨hmark, rfl⟩]
    simp [digits_append hnumber hc]
  · -- a digit is no letter
    have hnone : literal py ['t', 't'] (read ++ c :: rest) = none := by
      obtain ⟨d, number, rfl⟩ := List.exists_cons_of_ne_nil hnumber.1
      have hd : ¬ py.ignoreCase 't' d = true := fun hmatch =>
        (h.letters 't' (by decide) d hmatch).2
          (isDigit_mem_symbols (hnumber.2 d List.mem_cons_self))
      rw [List.cons_append]
      unfold literal
      rw [if_neg hd]
    rw [hnone]
    simp [digits_append hnumber hc]

theorem isDigit_not_bracket (hc : isDigit c = true) : c ∉ "[{()}]".toList := by
  intro hmem
  rw [show "[{()}]".toList = ['[', '{', '(', ')', '}', ']'] from rfl] at hmem
  simp only [List.mem_cons, List.not_mem_nil, or_false] at hmem
  rcases hmem with rfl | rfl | rfl | rfl | rfl | rfl <;> exact absurd hc (by decide)

theorem bracket_mem_symbols (hc : c ∈ "[{()}]".toList) : c ∈ tokenSymbols :=
  List.mem_append_left "-=0123456789".toList hc

theorem IdText.letters (h : ReadsAscii py) (ht : IdText py text) :
    ∀ c ∈ text, py.isSpace c = false ∧ c ∉ "[{()}]".toList := by
  have hdigits : ∀ {number : List Char}, Digits number → ∀ c ∈ number, py.isSpace c = false ∧
      c ∉ "[{()}]".toList :=
    fun hnumber c hc =>
      ⟨h.symbols c (isDigit_mem_symbols (hnumber.2 c hc)), isDigit_not_bracket (hnumber.2 c hc)⟩
  rcases ht with ⟨mark, number, rfl, hmark, hnumber⟩ | hnumber
  · intro c hc
    rcases List.mem_append.1 hc with hc | hc
    · obtain ⟨hspace, hsymbol⟩ := spells_letters h (by decide) hmark c hc
      exact ⟨hspace, fun hb => hsymbol (bracket_mem_symbols hb)⟩
    · exact hdigits hnumber c hc
  · exact hdigits hnumber

theorem IdText.ne_nil (ht : IdText py text) : text ≠ [] := by
  rcases ht with ⟨mark, number, rfl, -, hnumber⟩ | hnumber
  · exact fun hnil => hnumber.1 (List.append_eq_nil_iff.1 hnil).2
  · exact hnumber.1

end Parts

section Matches
variable {py : PyLib} {text : List Char} {t : Token}

theorem exists_head {w : List Char} (hw : Blank py.isSpace w) (c : Char) (rest : List Char) :
    ∃ d tail, w ++ c :: rest = d :: tail ∧ (d = c ∨ py.isSpace d = true) := by
  rcases w with _ | ⟨d, w⟩
  · exact ⟨c, rest, rfl, .inl rfl⟩
  · exact ⟨d, w ++ c :: rest, rfl, .inr (hw d List.mem_cons_self)⟩

theorem skipSpaces_word {w word : List Char} (hw : Blank py.isSpace w) (hne : word ≠ [])
    (hword : ∀ c ∈ word, py.isSpace c = false) (rest : List Char) :
    skipSpaces py (w ++ (word ++ rest)) = word ++ rest := by
  obtain ⟨c, word, rfl⟩ := List.exists_cons_of_ne_nil hne
  exact skipSpaces_append hw (hword c List.mem_cons_self) (word ++ rest)

/-- A blank or symbol ends a word. -/
theorem not_letter (h : ReadsAscii py) {c d : Char} (hd : d ∈ tokenSymbols)
    (hc : c = d ∨ py.isSpace c = true) :
    py.ignoreCase 'i' c = false := by
  rw [← Bool.not_eq_true]
  intro hmatch
  obtain ⟨hspace, hsymbol⟩ := h.letters 'i' (by decide) c hmatch
  rcases hc with rfl | hc
  · exact hsymbol hd
  · rw [hspace] at hc
    cases hc

theorem not_digit (h : ReadsAscii py) {c d : Char} (hd : isDigit d = false)
    (hc : c = d ∨ py.isSpace c = true) :
    isDigit c = false := by
  rcases hc with rfl | hc
  · exact hd
  · rw [← Bool.not_eq_true]
    intro hdigit
    rw [h.symbols c (isDigit_mem_symbols hdigit)] at hc
    cases hc

/-- The expression matches at the beginning of a text exactly when it begins with a text of that
shape. -/
theorem token_iff (h : ReadsAscii py) : token py text = some t ↔ ∃ m, TokenText py t m ∧
    text = m ++ t.rest := by
  constructor
  · intro ht
    unfold token at ht
    simp only [bind, Option.bind_eq_some_iff, Prod.exists] at ht
    obtain ⟨opening, text₁, h₀, provider, text₂, h₁, sep, text₃, h₂, externalId, text₄, h₃, closing,
      text₅, h₄, ht⟩ := ht
    cases ht
    obtain ⟨w₁, hw₁, htext₁⟩ := exists_skipSpaces py text₁
    obtain ⟨w₂, hw₂, htext₂⟩ := exists_skipSpaces py text₂
    obtain ⟨w₃, hw₃, htext₃⟩ := exists_skipSpaces py text₃
    obtain ⟨w₄, hw₄, htext₄⟩ := exists_skipSpaces py text₄
    obtain ⟨hopening, rfl⟩ := oneOf_iff.1 h₀
    obtain ⟨hprovider, heq₁⟩ := providerPart_sound h₁
    obtain ⟨hsep, heq₂⟩ := oneOf_iff.1 h₂
    obtain ⟨hid, heq₃⟩ := externalIdPart_sound h₃
    obtain ⟨hclosing, heq₄⟩ := oneOf_iff.1 h₄
    refine ⟨_, ⟨⟨w₁, w₂, sep, w₃, w₄, rfl, ⟨hw₁, hw₂, hw₃, hw₄⟩, hsep⟩, hopening, hprovider, hid,
      hclosing⟩, ?_⟩
    rw [htext₁, heq₁, htext₂, heq₂, htext₃, heq₃, htext₄, heq₄]
    simp
  · rintro ⟨m, hm, rfl⟩
    obtain ⟨w₁, w₂, sep, w₃, w₄, rfl, ⟨hw₁, hw₂, hw₃, hw₄⟩, hsep⟩ := hm.shape
    have hsymbol : sep ∈ tokenSymbols := by
      simp only [List.mem_cons, List.not_mem_nil, or_false] at hsep
      rcases hsep with rfl | rfl <;> decide
    obtain ⟨hclosed, hdigit⟩ : t.closing ∈ tokenSymbols ∧ isDigit t.closing = false := by
      have hclosing := hm.closing
      simp only [List.mem_cons, List.not_mem_nil, or_false] at hclosing
      rcases hclosing with hc | hc | hc <;> rw [hc] <;> decide
    have hprovider : providerPart py
        (t.provider ++ (w₂ ++ sep :: (w₃ ++ (t.externalId ++ (w₄ ++ t.closing :: t.rest))))) =
        some (t.provider, w₂ ++ sep :: (w₃ ++ (t.externalId ++ (w₄ ++ t.closing :: t.rest)))) := by
      obtain ⟨c, tail, heq, hc⟩ :=
        exists_head hw₂ sep (w₃ ++ (t.externalId ++ (w₄ ++ t.closing :: t.rest)))
      rw [heq]
      exact providerPart_append hm.provider (not_letter h hsymbol hc)
    have hid : externalIdPart py (t.externalId ++ (w₄ ++ t.closing :: t.rest)) =
        some (t.externalId, w₄ ++ t.closing :: t.rest) := by
      obtain ⟨c, tail, heq, hc⟩ := exists_head hw₄ t.closing t.rest
      rw [heq]
      exact externalIdPart_append h hm.externalId (not_digit h hdigit hc)
    have hspace₁ :=
      skipSpaces_word hw₁ hm.provider.ne_nil (fun c hc => (hm.provider.letters h c hc).1)
      (w₂ ++ sep :: (w₃ ++ (t.externalId ++ (w₄ ++ t.closing :: t.rest))))
    have hspace₂ := skipSpaces_append hw₂ (h.symbols sep hsymbol)
      (w₃ ++ (t.externalId ++ (w₄ ++ t.closing :: t.rest)))
    have hspace₃ := skipSpaces_word hw₃ hm.externalId.ne_nil
      (fun c hc => (hm.externalId.letters h c hc).1) (w₄ ++ t.closing :: t.rest)
    have hspace₄ := skipSpaces_append hw₄ (h.symbols t.closing hclosed) t.rest
    have htext : t.opening :: (w₁ ++
        (t.provider ++ (w₂ ++ sep :: (w₃ ++ (t.externalId ++ (w₄ ++ [t.closing])))))) ++ t.rest =
        t.opening :: (w₁ ++ (t.provider ++
          (w₂ ++ sep :: (w₃ ++ (t.externalId ++ (w₄ ++ t.closing :: t.rest)))))) := by simp
    unfold token
    rw [htext, oneOf_iff.2 ⟨hm.opening, rfl⟩]
    simp only [bind, Option.bind_some, hspace₁, hprovider, hspace₂, oneOf_iff.2 ⟨hsep, rfl⟩,
      hspace₃, hid, hspace₄,
      oneOf_iff.2 ⟨hm.closing, rfl⟩]
    rfl

def brackets : Marks Char where
  isOpen c := c ∈ ['[', '{', '(']
  isClose c := c ∈ [']', '}', ')']

theorem isOpen_bracket {c : Char} (hc : brackets.isOpen c) :
    c ∈ "[{()}]".toList ∧ ¬ brackets.isClose c := by
  have hmem : c ∈ ['[', '{', '('] := hc
  simp only [List.mem_cons, List.not_mem_nil, or_false] at hmem
  rcases hmem with rfl | rfl | rfl <;> exact ⟨by decide, by unfold brackets; decide⟩

theorem isClose_bracket {c : Char} (hc : brackets.isClose c) :
    c ∈ "[{()}]".toList ∧ ¬ brackets.isOpen c := by
  have hmem : c ∈ [']', '}', ')'] := hc
  simp only [List.mem_cons, List.not_mem_nil, or_false] at hmem
  rcases hmem with rfl | rfl | rfl <;> exact ⟨by decide, by unfold brackets; decide⟩

/-- The brackets of a token are its first and its last letter. -/
theorem TokenText.bracketed (h : ReadsAscii py) {m : List Char} (hm : TokenText py t m) :
    Bracketed brackets m := by
  obtain ⟨w₁, w₂, sep, w₃, w₄, heq, ⟨hw₁, hw₂, hw₃, hw₄⟩, hsep⟩ := hm.shape
  have hblank : ∀ {w : List Char}, Blank py.isSpace w → ∀ c ∈ w, c ∉ "[{()}]".toList := by
    intro w hw c hc hb
    exact Bool.false_ne_true ((h.symbols c (bracket_mem_symbols hb)).symm.trans (hw c hc))
  have hsep' : sep ∉ "[{()}]".toList := by
    simp only [List.mem_cons, List.not_mem_nil, or_false] at hsep
    rcases hsep with rfl | rfl <;> decide
  -- nothing in between is a bracket
  set body := w₁ ++ (t.provider ++ (w₂ ++ sep :: (w₃ ++ (t.externalId ++ w₄)))) with hbody
  have hinside : ∀ c ∈ body, c ∉ "[{()}]".toList := by
    intro c hc
    simp only [hbody, List.mem_append, List.mem_cons] at hc
    rcases hc with hc | hc | hc | rfl | hc | hc | hc
    · exact hblank hw₁ c hc
    · exact fun hb => (hm.provider.letters h c hc).2 (bracket_mem_symbols hb)
    · exact hblank hw₂ c hc
    · exact hsep'
    · exact hblank hw₃ c hc
    · exact (hm.externalId.letters h c hc).2
    · exact hblank hw₄ c hc
  have hm' : m = t.opening :: (body ++ [t.closing]) := by rw [heq, hbody]; simp
  refine ⟨⟨t.opening, body ++ [t.closing], hm', hm.opening, fun c hc hopen => ?_⟩,
    ⟨t.opening :: body, t.closing, hm', hm.closing, fun c hc hclose => ?_⟩⟩
  · rcases List.mem_append.1 hc with hc | hc
    · exact hinside c hc (isOpen_bracket hopen).1
    · rw [List.mem_singleton.1 hc] at hopen
      exact (isOpen_bracket hopen).2 hm.closing
  · rcases List.mem_cons.1 hc with rfl | hc
    · exact (isClose_bracket hclose).2 hm.opening
    · exact hinside c hc (isClose_bracket hclose).1

end Matches

section Readings
variable {py : PyLib} {text rest m : List Char} {r : Option Reading} {c : Char}

/-- The expression matches somewhere in the text, and the checks on the match end so. -/
def Reads (py : PyLib) (text : List Char) (r : Option Reading) : Prop :=
  ∃ suffix t, suffix <:+ text ∧ token py suffix = some t ∧ t.read py = r

def TokenReads (py : PyLib) (m : List Char) (r : Option Reading) : Prop :=
  ∃ t, TokenText py t m ∧ t.read py = r

theorem TokenReads.bracketed (h : ReadsAscii py) (hm : TokenReads py m r) :
    Bracketed brackets m := by
  obtain ⟨t, ht, -⟩ := hm
  exact ht.bracketed h

/-- A token reads in one way. -/
theorem TokenReads.unique (h : ReadsAscii py) {r' : Option Reading} (hm : TokenReads py m r)
    (hm' : TokenReads py m r') :
    r = r' := by
  obtain ⟨t, ht, rfl⟩ := hm
  obtain ⟨t', ht', rfl⟩ := hm'
  have htoken : ∀ {t : Token}, TokenText py t m →
      token py m = some { t with rest := [] } := fun ht =>
    (token_iff h).2 ⟨m, ⟨ht.shape, ht.opening, ht.provider, ht.externalId, ht.closing⟩,
      (List.append_nil m).symm⟩
  have heq := Option.some_inj.1 ((htoken ht).symm.trans (htoken ht'))
  show Token.read py { t with rest := [] } = Token.read py { t' with rest := [] }
  rw [heq]

theorem reads_cons (ht : token py (c :: text) = none) :
    Reads py (c :: text) r ↔ Reads py text r := by
  constructor
  · rintro ⟨suffix, t, hsuffix, htoken, hr⟩
    rcases List.suffix_cons_iff.1 hsuffix with rfl | hsuffix
    · rw [ht] at htoken
      cases htoken
    · exact ⟨suffix, t, hsuffix, htoken, hr⟩
  · rintro ⟨suffix, t, hsuffix, htoken, hr⟩
    exact ⟨suffix, t, hsuffix.trans (List.suffix_cons c text), htoken, hr⟩

theorem TokenReads.head (h : ReadsAscii py) (hm : TokenReads py m r) :
    ∃ c body, m = c :: body ∧ py.isSpace c = false ∧
    c ≠ ' ' ∧ c ≠ '-' := by
  obtain ⟨c, body, rfl, hc, -⟩ := (hm.bracketed h).head
  refine ⟨c, body, rfl, h.symbols c (bracket_mem_symbols (isOpen_bracket hc).1), ?_, ?_⟩
  · rintro rfl
    exact absurd (isOpen_bracket hc).1 (by decide)
  · rintro rfl
    exact absurd (isOpen_bracket hc).1 (by decide)

theorem TokenReads.last (h : ReadsAscii py) (hm : TokenReads py m r) :
    ∃ body c, m = body ++ [c] ∧ py.isSpace c = false ∧
    c ≠ ' ' ∧ c ≠ '-' := by
  obtain ⟨body, c, rfl, hc, -⟩ := (hm.bracketed h).last
  refine ⟨body, c, rfl, h.symbols c (bracket_mem_symbols (isClose_bracket hc).1), ?_, ?_⟩
  · rintro rfl
    exact absurd (isClose_bracket hc).1 (by decide)
  · rintro rfl
    exact absurd (isClose_bracket hc).1 (by decide)

end Readings

section Cleaning
variable {py : PyLib} {u v : List Char} {r : Option Reading}

/-- `" ".join("".join(parts).split()).strip(" -")`. -/
def cleaned (py : PyLib) (u : List Char) : String :=
  String.ofList (stripDashes (" ".intercalate (py.split (String.ofList u))).toList)

end Cleaning

/-! ### The loop over the matches -/

section Loop
variable {py : PyLib} {text before : List Char} {fuel : Nat} {col col' : Collected}

/-- A token that the parser takes for an identifier. -/
def Accepted (py : PyLib) (m : List Char) : Prop :=
  ∃ t i, token py m = some t ∧ t.rest = [] ∧ t.read py = some (.accepted i)

theorem accepted_iff (h : ReadsAscii py) {m : List Char} :
    Accepted py m ↔ ∃ i, TokenReads py m (some (.accepted i)) := by
  constructor
  · rintro ⟨t, i, ht, hrest, hread⟩
    obtain ⟨m', hm', heq⟩ := (token_iff h).1 ht
    rw [hrest, List.append_nil] at heq
    exact ⟨i, t, heq ▸ hm', hread⟩
  · rintro ⟨i, t, ht, hread⟩
    exact ⟨{ t with rest := [] }, i,
      (token_iff h).2 ⟨m, ⟨ht.shape, ht.opening, ht.provider, ht.externalId, ht.closing⟩,
      (List.append_nil m).symm⟩, rfl, hread⟩

/-- What the loop has collected of a text: all accepted identifiers, and the text without their
tokens. -/
structure Walked (py : PyLib) (text before : List Char) (col col' : Collected)
    (last : List Char) : Prop where
  readable : ¬ Reads py text none
  kept : ∃ left, CutOut (Accepted py) text left ∧ col'.kept ++ last = col.kept ++ (before ++ left)
  accepted : col'.accepted = true ↔ col.accepted = true ∨ ∃ i, Reads py text (some (.accepted i))
  identifiers : ∀ i, i ∈ col'.identifiers ↔ i ∈ col.identifiers ∨ Reads py text (some (.accepted i))
  nodup : col.identifiers.Nodup → col'.identifiers.Nodup

/-- A letter at which no match begins. -/
theorem Walked.letter (h : ReadsAscii py) {c : Char} {last : List Char}
    (ht : token py (c :: text) = none)
    (hw : Walked py text (before ++ [c]) col col' last) :
    Walked py (c :: text) before col col' last where
  readable := by rw [reads_cons ht]; exact hw.readable
  kept := by
    obtain ⟨left, hleft, heq⟩ := hw.kept
    refine ⟨c :: left, .letter (fun m tail hm htext => ?_) hleft, by rw [heq]; simp⟩
    obtain ⟨i, t, hm, -⟩ := (accepted_iff h).1 hm
    have hsome :=
      (token_iff h).2 ⟨m, (⟨hm.shape, hm.opening, hm.provider, hm.externalId, hm.closing⟩ :
      TokenText py { t with rest := tail } m), htext⟩
    rw [ht] at hsome
    cases hsome
  accepted := by simp only [reads_cons ht]; exact hw.accepted
  identifiers i := by rw [reads_cons ht]; exact hw.identifiers i
  nodup := hw.nodup

end Loop

/-! ### Parsing again -/

section Parsing
variable {py : PyLib} {title : String}

end Parsing

section Example

end Example

end EmbeddedMetadata

end Euvieouvi
