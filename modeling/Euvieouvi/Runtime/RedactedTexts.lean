import Euvieouvi.Runtime.LogRedaction

/-!
# What a redacted text tells

A value is hidden unless an earlier credential takes the name of its key for its own value and not
the separator behind the name as well. Redacting twice is redacting once unless a query parameter
loses the text between its value and a `#` (`redaction_iff`).
-/

namespace Euvieouvi

namespace LogRedaction
open Pattern

section Mark
variable {names : List (List Char)} {t k x a b : List Char}

/-- What the names of a pattern have to do with the mark. -/
structure Unmarked (names : List (List Char)) : Prop where
  wellFormed : Names names
  inside : ∀ b ∈ ('[' :: mark).tails, (b.takeWhile isKeyLetter).map fold ∉ names ∧
    (b ≠ [] → b.dropWhile isKeyLetter ≠ [])

theorem secretNames_unmarked : Unmarked secretNames := ⟨secretNames_names, by decide +kernel⟩

theorem authorizationNames_unmarked : Unmarked authorizationNames :=
  ⟨authorizationNames_names, by decide +kernel⟩

/-- The mark is read as a value and as nothing before one, by all three expressions. -/
theorem mark_read : ∀ c ∈ '[' :: mark,
    (authorizationValue.run c = true ∧ authorizationValue.gap c = false) ∧
      (secretValue.run c = true ∧ secretValue.gap c = false) ∧ parameterValue.run c = true ∧
      parameterValue.gap c = false :=
  List.forall_iff_forall_mem.1 (by decide +kernel)

theorem symbols_apart : (∀ c ∈ symbols, isBlank c = false) ∧ ∀ c ∈ blanks, c ≠ '?' ∧ c ≠ '&' :=
  ⟨List.forall_iff_forall_mem.1 (by decide +kernel),
    List.forall_iff_forall_mem.1 (by decide +kernel)⟩

theorem credential_notMem (h : Names names) (hlead : keyed names separator t = some (k, x))
    {c : Char} (hc : c ∈ symbols) (hsign : c ≠ '=' ∧ c ≠ ':') : c ∉ k := by
  have hletter := not_isKeyLetter (.inl hc)
  have hblank := symbols_apart.1
  obtain ⟨key, w, e, w', -, rfl, hname, hw, he, hw', -⟩ := (credential_iff h).1 hlead
  intro hmem
  simp only [List.mem_append, List.mem_cons] at hmem
  rcases hmem with hmem | hmem | rfl | hmem
  · rw [isKeyLetter_of_fold h hname c hmem] at hletter
    cases hletter
  · have := hw c hmem
    rw [hblank c hc] at this
    cases this
  · rcases he with rfl | rfl
    · exact hsign.1 rfl
    · exact hsign.2 rfl
  · have := hw' c hmem
    rw [hblank c hc] at this
    cases this

theorem credential_none (h : Names names) {c : Char} (hc : isKeyLetter c = false) :
    keyed names separator (c :: t) = none := by
  cases hlead : keyed names separator (c :: t) with
  | none => rfl
  | some lead =>
    have hkey := ((keyed_iff h separator_head).1 hlead).1
    rw [List.takeWhile_cons_of_neg (by rw [hc]; exact Bool.false_ne_true)] at hkey
    exact absurd hkey h.ne_nil

theorem credential_inside (h : Unmarked names) (hb : '[' :: mark = a ++ b) (hne : b ≠ [])
    (t : List Char) :
    keyed names separator (b ++ t) = none := by
  have hmem : b ∈ ('[' :: mark).tails := (List.mem_tails _ _).2 ⟨a, hb.symm⟩
  obtain ⟨hname, hdrop⟩ := h.inside b hmem
  cases hlead : keyed names separator (b ++ t) with
  | none => rfl
  | some lead =>
    obtain ⟨hkey, -⟩ := (keyed_iff h.wellFormed separator_head).1 hlead
    -- A letter of the mark that belongs to no key ends the key inside the mark.
    have htake : (b ++ t).takeWhile isKeyLetter = b.takeWhile isKeyLetter := by
      rw [List.takeWhile_append, if_neg]
      intro hlength
      have hsplit := List.takeWhile_append_dropWhile (p := isKeyLetter) (l := b)
      have hsum := congrArg List.length hsplit
      rw [List.length_append] at hsum
      exact hdrop hne (List.eq_nil_of_length_eq_zero (by omega))
    rw [htake] at hkey
    exact absurd hkey hname

theorem authorizationValue_marks : authorizationValue.Marks '[' mark where
  run c hc := (mark_read c hc).1.1
  gap c hc := (mark_read c hc).1.2
  notMem hlead := credential_notMem authorizationNames_names hlead (by decide) (by decide)
  inside _ _ t hb hne := credential_inside authorizationNames_unmarked hb hne t

theorem secretValue_marks : secretValue.Marks '[' mark where
  run c hc := (mark_read c hc).2.1.1
  gap c hc := (mark_read c hc).2.1.2
  notMem hlead := credential_notMem secretNames_names hlead (by decide) (by decide)
  inside _ _ t hb hne := credential_inside secretNames_unmarked hb hne t

/-- A parameter holds its sign, letters and `=`. -/
theorem parameter_notMem (hlead : parameter t = some (k, x)) {c : Char} (hc : isKeyLetter c = false)
    (hsign : c ≠ '?' ∧ c ≠ '&' ∧ c ≠ '=') : c ∉ k := by
  obtain ⟨q, key, -, rfl, hq, hname⟩ := parameter_iff.1 hlead
  intro hmem
  simp only [List.mem_append, List.mem_cons, List.not_mem_nil, or_false] at hmem
  rcases hmem with rfl | hmem | rfl
  · rcases hq with rfl | rfl
    · exact hsign.1 rfl
    · exact hsign.2.1 rfl
  · rw [isKeyLetter_of_fold parameterNames_names hname c hmem] at hc
    cases hc
  · exact hsign.2.2 rfl

theorem parameterValue_marks : parameterValue.Marks '[' mark where
  run c hc := (mark_read c hc).2.2.1
  gap c hc := (mark_read c hc).2.2.2
  notMem hlead := parameter_notMem hlead (not_isKeyLetter (.inl (by decide))) (by decide)
  inside a b t hb hne := by
    have hsign : ∀ b ∈ ('[' :: mark).tails, b.head? ≠ some '?' ∧
        b.head? ≠ some '&' := by decide +kernel
    obtain ⟨c, b, rfl⟩ := List.exists_cons_of_ne_nil hne
    obtain ⟨hquestion, hand⟩ : c ≠ '?' ∧
      c ≠ '&' := by simpa using hsign (c :: b) ((List.mem_tails _ _).2 ⟨a, hb.symm⟩)
    exact if_neg (not_or.2 ⟨hquestion, hand⟩)

end Mark

section Values
variable {c : Char}

theorem isBlank_of_isSecretValue (hc : isSecretValue c = true) : isBlank c = false := by
  simp only [isSecretValue, Bool.not_eq_true', Bool.or_eq_false_iff] at hc
  exact hc.1.1.1

theorem isBlank_of_isParameterValue (hc : isParameterValue c = true) : isBlank c = false := by
  simp only [isParameterValue, Bool.not_eq_true', Bool.or_eq_false_iff] at hc
  exact hc.1.1

theorem not_isNewline (hc : isBlank c = false) : isNewline c = false := by
  by_contra hnewline
  rw [Bool.not_eq_false, isNewline, Bool.or_eq_true, beq_iff_eq, beq_iff_eq] at hnewline
  rcases hnewline with rfl | rfl
  · revert hc
    decide
  · revert hc
    decide

theorem authorizationValue_run (hc : isBlank c = false) : authorizationValue.run c = true := by
  have hnewline := not_isNewline hc
  simp [authorizationValue, hnewline]

theorem ne_of_isKeyLetter (hc : isKeyLetter c = true) : ∀ e ∈ symbols, c ≠ e := by
  rintro e he rfl
  rw [not_isKeyLetter (.inl he)] at hc
  cases hc

theorem isSecretValue_of_isKeyLetter (hc : isKeyLetter c = true) : isSecretValue c = true := by
  have hsign := ne_of_isKeyLetter hc
  simp [isSecretValue, isBlank_of_isKeyLetter hc, hsign ',' (by decide), hsign ';' (by decide),
    hsign '&' (by decide)]

theorem isParameterValue_of_isKeyLetter (hc : isKeyLetter c = true) :
    isParameterValue c = true := by
  have hsign := ne_of_isKeyLetter hc
  simp [isParameterValue, isBlank_of_isKeyLetter hc, hsign '&' (by decide), hsign '#' (by decide)]

/-- What ends a parameter ends a secret value too, but for a `#`. -/
theorem parameter_stop (hc : isParameterValue c = false) (hhash : c ≠ '#') :
    isSecretValue c = false := by
  simp only [isParameterValue, Bool.not_eq_false', Bool.or_eq_true, beq_iff_eq] at hc
  rcases hc with (hblank | rfl) | rfl
  · simp [isSecretValue, hblank]
  · decide
  · exact absurd rfl hhash

end Values

section Twice
variable {t u : List Char}

/-- The text ends with a query parameter and a value of it. -/
def EndsInParameter (u : List Char) : Prop :=
  ∃ a k d, u = a ++ (k ++ d) ∧ parameter k = some (k, []) ∧ d ≠ [] ∧
    ∀ c ∈ d, isParameterValue c = true

/-- A `#` outside the values of the first two expressions, behind the value of a query parameter. -/
def CutBeforeHash (t : List Char) : Prop := ∃ s r, t = s ++ '#' :: r ∧
  (authorizationValue.pass ('[' :: mark) s).2 = false ∧
  (secretValue.pass ('[' :: mark) (authorizationValue.pass ('[' :: mark) s).1).2 = false ∧
  EndsInParameter (secretValue.pass ('[' :: mark) (authorizationValue.pass ('[' :: mark) s).1).1

theorem hash_notMem_authorization {k x : List Char}
    (h : authorizationValue.lead t = some (k, x)) : '#' ∉ k :=
  credential_notMem authorizationNames_names h (by decide) (by decide)

theorem hash_notMem_secret {k x : List Char} (h : secretValue.lead t = some (k, x)) : '#' ∉ k :=
  credential_notMem secretNames_names h (by decide) (by decide)

theorem hash_notMem_parameter {k x : List Char}
    (h : parameterValue.lead t = some (k, x)) : '#' ∉ k :=
  parameter_notMem h (not_isKeyLetter (.inl (by decide))) (by decide)

theorem authorization_clean (h : authorizationValue.Clean ('[' :: mark) u) :
    authorizationValue.Clean ('[' :: mark) (secretValue.sub ('[' :: mark) u) ∧
      authorizationValue.Clean ('[' :: mark) (parameterValue.sub ('[' :: mark) u) := by
  constructor
  · refine clean_sub_of_clean authorizationValue_marks secretValue_marks
      (fun c hc => isBlank_of_isSecretValue hc)
      (.inl fun c hc => ?_) h
    exact authorizationValue_run (isBlank_of_isSecretValue hc)
  · refine clean_sub_of_clean authorizationValue_marks parameterValue_marks
      (fun c hc => isBlank_of_isParameterValue hc)
      (.inl fun c hc => ?_) h
    exact authorizationValue_run (isBlank_of_isParameterValue hc)

/-- Unless a value is cut before a `#`, the values of the third expression end where those of the
second do. -/
theorem secret_endsApart (h : ¬ CutBeforeHash t) :
    EndsApart secretValue parameterValue
      (secretValue.sub ('[' :: mark) (authorizationValue.sub ('[' :: mark) t)) := by
  refine .inr fun s k d r hs hfind e he => ?_
  have hmatch := match_of_find hfind
  refine parameter_stop (hmatch.stop e he) ?_
  rintro rfl
  obtain ⟨r, rfl⟩ : ∃ r', r = '#' :: r' := by
    cases r with
    | nil => cases he
    | cons e r =>
      cases he
      exact ⟨r, rfl⟩
  obtain ⟨a, ha⟩ := hs
  rw [hmatch.append, ← List.append_assoc, ← List.append_assoc] at ha
  obtain ⟨s₁, r₁, hs₁, hpass₁, -⟩ :=
    exists_of_sub_eq (p := secretValue) (c := '#') (by decide) (by decide) (by decide)
    hash_notMem_secret ha.symm
  obtain ⟨s₀, r₀, rfl, hpass₀, -⟩ :=
    exists_of_sub_eq (p := authorizationValue) (c := '#') (by decide) (by decide) (by decide)
    hash_notMem_authorization hs₁
  refine h ⟨s₀, r₀, rfl, by rw [hpass₀], by rw [hpass₀, hpass₁], ?_⟩
  rw [hpass₀, hpass₁]
  have hlead : parameter (k ++ (d ++ '#' :: r)) = some (k, d ++ '#' :: r) := by
    rcases find_some hfind with ⟨hlead, -⟩ | ⟨c, w, x, -, -, -, -, hgap, -⟩
    · rwa [hmatch.append] at hlead
    · cases hgap
  have hk := lead_of_gap (p := parameterValue) (y := []) hlead fun c hc => by cases hc
  rw [List.append_nil] at hk
  exact ⟨a, k, d, by rw [List.append_assoc], hk, hmatch.ne_nil, hmatch.run⟩

theorem redactText_redactText (h : ¬ CutBeforeHash t) :
    redactText (redactText t) = redactText t := by
  have hsecret : secretValue.Clean ('[' :: mark) (redactText t) :=
    clean_sub_of_clean secretValue_marks parameterValue_marks
      (fun c hc => isBlank_of_isParameterValue hc)
      (secret_endsApart h) (clean_sub secretValue_marks _)
  have hauthorization : authorizationValue.Clean ('[' :: mark) (redactText t) :=
    (authorization_clean (authorization_clean (clean_sub authorizationValue_marks t)).1).2
  have hparameter : parameterValue.Clean ('[' :: mark) (redactText t) :=
    clean_sub parameterValue_marks _
  have htwice : redactText (redactText t) = parameterValue.sub ('[' :: mark)
      (secretValue.sub ('[' :: mark) (authorizationValue.sub ('[' :: mark) (redactText t))) := rfl
  rw [htwice, sub_eq_self hauthorization, sub_eq_self hsecret, sub_eq_self hparameter]

theorem exists_sub_hash {p : Pattern Char} (y : List Char) :
    ∃ z, p.sub ('[' :: mark) ('#' :: y) = '#' :: z := by
  have hhead := head?_sub p ('[' :: mark) ('#' :: y)
  cases hsub : p.sub ('[' :: mark) ('#' :: y) with
  | nil =>
    rw [hsub] at hhead
    cases hhead
  | cons c z =>
    rw [hsub] at hhead
    cases hhead
    exact ⟨z, rfl⟩

/-- Behind a parameter and the mark the second expression reads a value. -/
theorem secret_open {k : List Char} (hk : parameter k = some (k, [])) (b : List Char) :
    (secretValue.pass ('[' :: mark) (b ++ (k ++ '[' :: mark))).2 = true := by
  obtain ⟨q, key, -, rfl, -, hname⟩ := parameter_iff.1 hk
  have hletters := isKeyLetter_of_fold parameterNames_names hname
  have hsecret : key.map fold ∈ secretNames := by
    have hall : ∀ name ∈ parameterNames, name ∈ secretNames := by decide +kernel
    exact hall _ hname
  have hlead : secretValue.lead ((key ++ ['=']) ++ '[' :: mark) =
      some (key ++ ['='], '[' :: mark) :=
    (credential_iff secretNames_names).2
      ⟨key, [], '=', [], rfl, rfl, hsecret, by simp, .inl rfl, by simp,
      fun c hc => by cases hc; decide⟩
  have hrun : ∀ c ∈ key ++ ['='], isSecretValue c = true := by
    intro c hc
    rcases List.mem_append.1 hc with hc | hc
    · exact isSecretValue_of_isKeyLetter (hletters c hc)
    · rw [List.mem_singleton.1 hc]
      decide
  have hopen := pass_of_lead ('[' :: mark) hlead (fun c hc => hrun c (List.mem_of_mem_tail hc))
    secretValue_marks.run
    (b ++ [q])
  rwa [List.append_assoc] at hopen

theorem redactText_of_cut (h : CutBeforeHash t) : redactText (redactText t) ≠ redactText t := by
  obtain ⟨s, r, rfl, hclosed₀, hclosed₁, a, k, d, hu, hk, hne, hd⟩ := h
  obtain ⟨r₀, hr₀⟩ := exists_sub_hash (p := authorizationValue) r
  obtain ⟨r₁, hr₁⟩ := exists_sub_hash (p := secretValue) r₀
  obtain ⟨r₂, hr₂⟩ := exists_sub_hash (p := parameterValue) r₁
  have hgap : ∀ c ∈ ('#' :: r₀).head?, isBlank c = false := by
    rintro c ⟨⟩
    decide
  have hsub₀ := sub_of_closed (y := '#' :: r) (by rintro c ⟨⟩; decide)
    (apart_of_notMem hash_notMem_authorization s r) hclosed₀
  have hsub₁ :=
    sub_of_closed (p := secretValue) hgap (apart_of_notMem hash_notMem_secret _ r₀) hclosed₁
  have hsub₂ := sub_append_of_stop (p := parameterValue) ('[' :: mark) (c := '#')
    (fun c hc => by cases hc) (by decide)
    (apart_of_notMem hash_notMem_parameter (a ++ (k ++ d)) r₁)
  have htail : ∀ c ∈ k.tail, isParameterValue c = true := by
    obtain ⟨q, key, -, rfl, -, hname⟩ := parameter_iff.1 hk
    intro c hc
    rcases List.mem_append.1 hc with hc | hc
    · exact isParameterValue_of_isKeyLetter (isKeyLetter_of_fold parameterNames_names hname c hc)
    · rw [List.mem_singleton.1 hc]
      decide
  have hlead : parameterValue.lead (k ++ d) = some (k, d) :=
    lead_of_gap (p := parameterValue) (k := k) (x := []) (by rwa [List.append_nil]) fun c _ => rfl
  obtain ⟨b, k', hvalue, hk'⟩ := sub_of_value ('[' :: mark) (fun _ => rfl) hlead htail hd hne a
  have hredacted : redactText (s ++ '#' :: r) = (b ++ (k' ++ '[' :: mark)) ++ '#' :: r₂ := by
    unfold redactText
    rw [hsub₀, hr₀, hsub₁, hr₁, hu, hsub₂, hr₂, hvalue]
  have hclean : authorizationValue.Clean ('[' :: mark) (redactText (s ++ '#' :: r)) :=
    (authorization_clean (authorization_clean (clean_sub authorizationValue_marks _)).1).2
  have hauthorization := sub_eq_self hclean
  rw [hredacted] at hauthorization ⊢
  intro htwice
  have hmark : '#' ∉ '[' :: mark := by decide
  have hlost := count_sub_lt (p := secretValue) (y := r₂) hmark (by decide) (by decide)
    (secret_open hk' b)
  have hrest := count_sub_le (p := parameterValue) hmark
    (secretValue.sub ('[' :: mark) (b ++ (k' ++ '[' :: mark) ++ '#' :: r₂))
  unfold redactText at htwice
  rw [hauthorization] at htwice
  rw [htwice] at hrest
  omega

end Twice

/-- A place for a value in a text: behind a key, and the sign between blanks that follows it. -/
structure SecretPlace where
  before : List Char
  name : List Char
  separator : List Char
  after : List Char
  named : name.map fold ∈ secretNames
  separates : ∃ w e w', separator = w ++ e :: w' ∧ (∀ c ∈ w, isBlank c = true) ∧
    (e = '=' ∨ e = ':') ∧
    ∀ c ∈ w', isBlank c = true

/-- A value without blanks, commas, semicolons and ampersands. -/
structure SecretValue where
  text : List Char
  ne_nil : text ≠ []
  value : ∀ c ∈ text, isSecretValue c = true

namespace SecretPlace

def fill (p : SecretPlace) (v : SecretValue) : List Char :=
  p.before ++ ((p.name ++ p.separator) ++ (v.text ++ p.after))

/-- A credential before takes the name for its value, and leaves a part of the separator. -/
def Swallowed (p : SecretPlace) : Prop :=
  if (authorizationValue.pass ('[' :: mark) p.before).2 then ∃ c ∈ p.separator, isNewline c = true
  else p.name.map fold ≠ "authorization".toList ∧
    (secretValue.pass ('[' :: mark) (authorizationValue.pass ('[' :: mark) p.before).1).2 = true ∧
    ∃ c ∈ p.separator, isBlank c = true

/-- No value of an authorization begins inside the value, unless it is itself in one. -/
def Quiet (p : SecretPlace) (v : SecretValue) : Prop :=
  (authorizationValue.pass ('[' :: mark) p.before).2 = true ∨
    p.name.map fold = "authorization".toList ∨
    ∀ s, s <:+ v.text → s ≠ [] → authorizationValue.find (s ++ p.after) = none

variable {p : SecretPlace} {v : SecretValue} {c : Char} {x y : List Char}

theorem isKeyLetter_of_name (hc : c ∈ p.name) : isKeyLetter c = true :=
  isKeyLetter_of_fold secretNames_names p.named c hc

theorem not_isKeyLetter_of_separator (hc : c ∈ p.separator) : isKeyLetter c = false := by
  obtain ⟨w, e, w', hseparator, hw, he, hw'⟩ := p.separates
  exact credential_tail hw he hw' c (hseparator ▸ hc)

theorem separator_ne (hc : c ∈ p.separator) : c ≠ '?' ∧ c ≠ '&' := by
  obtain ⟨w, e, w', hseparator, hw, he, hw'⟩ := p.separates
  have hblank : ∀ c, isBlank c = true → c ≠ '?' ∧ c ≠ '&' :=
    fun c hc => symbols_apart.2 c (by simpa [isBlank] using hc)
  rw [hseparator] at hc
  rcases List.mem_append.1 hc with hc | hc
  · exact hblank c (hw c hc)
  · rcases List.mem_cons.1 hc with rfl | hc
    · rcases he with rfl | rfl <;> decide
    · exact hblank c (hw' c hc)

/-- A sign is all that a separator holds besides blanks. -/
theorem isBlank_of_separator (hc : c ∈ p.separator) (hvalue : isSecretValue c = false) :
    isBlank c = true := by
  obtain ⟨w, e, w', hseparator, hw, he, hw'⟩ := p.separates
  rw [hseparator] at hc
  rcases List.mem_append.1 hc with hc | hc
  · exact hw c hc
  · rcases List.mem_cons.1 hc with rfl | hc
    · exfalso
      revert hvalue
      rcases he with rfl | rfl <;> decide
    · exact hw' c hc

theorem exists_name : ∃ c name', p.name = c :: name' ∧ isKeyLetter c = true :=
  head_of_key secretNames_names p.named

theorem exists_separator : ∃ c separator', p.separator = c :: separator' := by
  obtain ⟨w, e, w', hseparator, -⟩ := p.separates
  rw [hseparator]
  cases w with
  | nil => exact ⟨e, w', rfl⟩
  | cons c w => exact ⟨c, _, rfl⟩

theorem takeWhile_name (x : List Char) :
    ((p.name ++ p.separator) ++ x).takeWhile isKeyLetter = p.name := by
  obtain ⟨c, separator', hseparator⟩ := p.exists_separator
  rw [List.append_assoc]
  refine (takeWhile_append_stop (fun _ => isKeyLetter_of_name) fun e he => ?_).1
  rw [hseparator] at he
  cases he
  exact not_isKeyLetter_of_separator (hseparator ▸ List.mem_cons_self)

/-- The key and the separator are a lead of any pattern that knows the name. -/
theorem lead_of_named {names : List (List Char)} (h : Names names) (hname : p.name.map fold ∈ names)
    (hx : ∀ c ∈ x.head?, isBlank c = false) :
    keyed names LogRedaction.separator ((p.name ++ p.separator) ++ x) =
      some (p.name ++ p.separator, x) := by
  obtain ⟨w, e, w', hseparator, hw, he, hw'⟩ := p.separates
  exact (credential_iff h).2 ⟨p.name, w, e, w', rfl, by rw [hseparator], hname, hw, he, hw', hx⟩

theorem value_head (v : SecretValue) (x : List Char) :
    ∃ c y, v.text ++ x = c :: y ∧ isSecretValue c = true := by
  obtain ⟨c, text, htext⟩ := List.exists_cons_of_ne_nil v.ne_nil
  exact ⟨c, text ++ x, by rw [htext]; rfl, v.value c (htext ▸ List.mem_cons_self)⟩

theorem value_isBlank (v : SecretValue) (x : List Char) :
    ∀ c ∈ (v.text ++ x).head?, isBlank c = false := by
  obtain ⟨c, y, hvalue, hc⟩ := value_head v x
  rw [hvalue]
  rintro e ⟨⟩
  exact isBlank_of_isSecretValue hc

theorem continues_value {q : Pattern Char} (v : SecretValue) (x : List Char)
    (hq : ∀ c, isSecretValue c = true → q.run c = true) (hgap : q.gap = isBlank := by rfl) :
    Continues q (v.text ++ x) := by
  obtain ⟨c, y, hvalue, hc⟩ := value_head v x
  exact ⟨c, y, hvalue, by rw [hgap]; exact isBlank_of_isSecretValue hc, hq c hc⟩

theorem continues_name {q : Pattern Char} (x : List Char)
    (hq : ∀ c, isKeyLetter c = true → q.run c = true)
    (hgap : q.gap = isBlank := by rfl) : Continues q ((p.name ++ p.separator) ++ x) := by
  obtain ⟨c, name', heq, hc⟩ := p.exists_name
  exact ⟨c, _, by rw [heq]; rfl, by rw [hgap]; exact isBlank_of_isKeyLetter hc, hq c hc⟩

/-- A value that takes the name goes on behind it up to where the separator stops it. -/
theorem dropWhile_name {run : Char → Bool} (hname : ∀ c ∈ p.name, run c = true) (x : List Char)
    [Decidable (∃ c ∈ p.separator, run c = false)] :
    ((p.name ++ p.separator) ++ x).dropWhile run =
      if ∃ c ∈ p.separator,
        run c = false then p.separator.dropWhile run ++ x else x.dropWhile run := by
  rw [List.append_assoc, List.dropWhile_append_of_pos hname, List.dropWhile_append]
  split
  next hempty =>
    rw [List.isEmpty_iff, List.dropWhile_eq_nil_iff] at hempty
    rw [if_neg]
    rintro ⟨c, hc, hrun⟩
    rw [hempty c hc] at hrun
    cases hrun
  next hempty =>
    rw [List.isEmpty_iff, List.dropWhile_eq_nil_iff] at hempty
    push Not at hempty
    obtain ⟨c, hc, hrun⟩ := hempty
    rw [if_pos ⟨c, hc, by simpa using hrun⟩]

/-! ### Hidden values -/

theorem letters_of_lead {s k y : List Char} {c : Char}
    (hlead : authorizationValue.lead (s ++ c :: x) = some (k, y))
    (hc : isKeyLetter c = true) (hlength : s.length < k.length) :
    ∀ e ∈ s, isKeyLetter e = true := by
  obtain ⟨key, w, e, w', happend, rfl, hkey, hw, he, hw', -⟩ :=
    (credential_iff authorizationNames_names).1 hlead
  have htail := credential_tail hw he hw'
  have hnot : c ∉ w ++ e :: w' := by
    intro hmem
    rw [htail c hmem] at hc
    cases hc
  obtain ⟨d, hd⟩ : ∃ d, key ++ (w ++ e :: w') = s ++ c :: d := by
    rcases List.append_eq_append_iff.1 happend with ⟨d, hd, hx⟩ | ⟨d, rfl, -⟩
    · cases d with
      | nil =>
        rw [hd] at hlength
        simp at hlength
      | cons c' d =>
        obtain ⟨rfl, -⟩ := List.cons.inj hx
        exact ⟨d, hd⟩
    · simp only [List.length_append] at hlength
      omega
  rcases List.append_eq_append_iff.1 hd with ⟨a, -, ha⟩ | ⟨a, rfl, -⟩
  · exact absurd (ha ▸ List.mem_append_right a List.mem_cons_self) hnot
  · exact fun e he =>
      isKeyLetter_of_fold authorizationNames_names hkey e (List.mem_append_left a he)

/-- A key that begins before a place does not go on through its name. -/
theorem authorization_apart : ∀ name ∈ secretNames,
    name <:+ "authorization".toList ∨ "authorization".toList <:+ name →
    name = "authorization".toList := by
  decide +kernel

theorem apart_before (hname : p.name.map fold ≠ "authorization".toList) (x : List Char) :
    Apart authorizationValue p.before ((p.name ++ p.separator) ++ x) := by
  intro s hs hne k y hlead
  by_contra hlength
  have hletters : ∀ e ∈ s, isKeyLetter e = true := by
    obtain ⟨c, name', heq, hc⟩ := p.exists_name
    rw [heq] at hlead
    exact letters_of_lead hlead hc (Nat.lt_of_not_le hlength)
  have hkey := ((keyed_iff authorizationNames_names separator_head).1 hlead).1
  rw [List.takeWhile_append_of_pos hletters, takeWhile_name] at hkey
  refine hname (authorization_apart _ p.named (.inl ?_))
  rw [← List.mem_singleton.1 hkey, List.map_append]
  exact List.suffix_append _ _

/-- What holds no letter of a key is kept, and what follows is read from its beginning. -/
theorem sub_letterless {q : Pattern Char}
    (hlead : ∀ c t, isKeyLetter c = false → c ≠ '?' ∧ c ≠ '&' → q.lead (c :: t) = none)
    (hx : ∀ c ∈ x, isKeyLetter c = false ∧ c ≠ '?' ∧ c ≠ '&') :
    q.sub ('[' :: mark) (x ++ y) = x ++ q.sub ('[' :: mark) y := by
  refine sub_eq_append fun s hs hne => find_of_lead_none ?_
  obtain ⟨c, s, rfl⟩ := List.exists_cons_of_ne_nil hne
  obtain ⟨hletter, hsign⟩ := hx c (hs.subset List.mem_cons_self)
  exact hlead c _ hletter hsign

/-- Reading from a place on, an authorization is found behind its value only. -/
theorem authorization_from (hname : p.name.map fold ≠ "authorization".toList)
    (hquiet : ∀ s, s <:+ v.text → s ≠ [] → authorizationValue.find (s ++ p.after) = none) :
    authorizationValue.sub ('[' :: mark) ((p.name ++ p.separator) ++ (v.text ++ p.after)) =
      (p.name ++ p.separator) ++ (v.text ++ authorizationValue.sub ('[' :: mark) p.after) := by
  rw [List.append_assoc, List.append_assoc, sub_eq_append fun s hs hne => ?_, sub_letterless,
    sub_eq_append hquiet]
  · exact fun c t hc _ => credential_none authorizationNames_names hc
  · exact fun c hc => ⟨not_isKeyLetter_of_separator hc, separator_ne hc⟩
  refine find_of_lead_none ?_
  cases hlead : authorizationValue.lead (s ++ (p.separator ++ (v.text ++ p.after))) with
  | none => rfl
  | some lead =>
    have hkey := ((keyed_iff authorizationNames_names separator_head).1 hlead).1
    obtain ⟨c, separator', hseparator⟩ := p.exists_separator
    rw [(takeWhile_append_stop (fun e he => isKeyLetter_of_name (hs.subset he)) fun e he => ?_).1]
      at hkey
    · refine absurd (authorization_apart _ p.named (.inr ?_)) hname
      rw [← List.mem_singleton.1 hkey]
      exact hs.map fold
    · rw [hseparator] at he
      cases he
      exact not_isKeyLetter_of_separator (hseparator ▸ List.mem_cons_self)

theorem hidden_in_authorization (hopen : (authorizationValue.pass ('[' :: mark) p.before).2 = true)
    (hseparator : ¬ ∃ c ∈ p.separator, isNewline c = true) (v : SecretValue) :
    authorizationValue.sub ('[' :: mark)
    (p.fill v) = (authorizationValue.pass ('[' :: mark) p.before).1 ++
      (('[' :: mark) ++ authorizationValue.sub ('[' :: mark)
        (p.after.dropWhile authorizationValue.run)) := by
  have hname : ∀ c ∈ p.name, authorizationValue.run c = true :=
    fun c hc => authorizationValue_run (isBlank_of_isKeyLetter (isKeyLetter_of_name hc))
  rw [fill, sub_of_open
    (continues_name _ fun c hc => authorizationValue_run (isBlank_of_isKeyLetter hc)) hopen,
    dropWhile_name hname, if_neg, List.dropWhile_append_of_pos fun c hc => ?_]
  · exact authorizationValue_run (isBlank_of_isSecretValue (v.value c hc))
  · rintro ⟨c, hc, hrun⟩
    exact hseparator ⟨c, hc, by simpa [authorizationValue] using hrun⟩

theorem hidden_by_authorization
    (hclosed : (authorizationValue.pass ('[' :: mark) p.before).2 = false)
    (hname : p.name.map fold = "authorization".toList) (v : SecretValue) :
    authorizationValue.sub ('[' :: mark)
    (p.fill v) = (authorizationValue.pass ('[' :: mark) p.before).1 ++
      ((p.name ++ p.separator) ++ (('[' :: mark) ++ authorizationValue.sub ('[' :: mark)
        (p.after.dropWhile authorizationValue.run))) := by
  have hlead := p.lead_of_named authorizationNames_names (hname ▸ List.mem_singleton_self _)
    (value_isBlank v p.after)
  rw [fill, sub_of_closed_lead hlead
    (continues_value v _ fun c hc => authorizationValue_run (isBlank_of_isSecretValue hc)) hclosed,
    List.dropWhile_append_of_pos fun c hc => ?_]
  exact authorizationValue_run (isBlank_of_isSecretValue (v.value c hc))

theorem authorization_of_other
    (hclosed : (authorizationValue.pass ('[' :: mark) p.before).2 = false)
    (hname : p.name.map fold ≠ "authorization".toList)
    (hquiet : ∀ s, s <:+ v.text → s ≠ [] → authorizationValue.find (s ++ p.after) = none) :
    authorizationValue.sub ('[' :: mark)
    (p.fill v) = (authorizationValue.pass ('[' :: mark) p.before).1 ++
      ((p.name ++ p.separator) ++ (v.text ++ authorizationValue.sub ('[' :: mark) p.after)) := by
  have hhead : ∀ c ∈ ((p.name ++ p.separator) ++ (v.text ++ p.after)).head?, isBlank c = false := by
    obtain ⟨c, name', heq, hc⟩ := p.exists_name
    rw [heq]
    rintro e ⟨⟩
    exact isBlank_of_isKeyLetter hc
  rw [fill, sub_of_closed hhead (apart_before hname _) hclosed, authorization_from hname hquiet]

/-- A value that no authorization has taken is hidden, or what has taken the name has left the
value. -/
theorem hidden_by_secret {s : List Char} (hopen : (secretValue.pass ('[' :: mark) s).2 = true →
    ¬ ∃ c ∈ p.separator, isBlank c = true) (v : SecretValue) (y : List Char) :
    secretValue.sub ('[' :: mark) (s ++ ((p.name ++ p.separator) ++ (v.text ++ y))) =
      (secretValue.pass ('[' :: mark) s).1 ++
        ((if (secretValue.pass ('[' :: mark) s).2 then [] else p.name ++ p.separator) ++
        (('[' :: mark) ++ secretValue.sub ('[' :: mark) (y.dropWhile secretValue.run))) := by
  have hname : ∀ c ∈ p.name, secretValue.run c = true :=
    fun c hc => isSecretValue_of_isKeyLetter (isKeyLetter_of_name hc)
  have hvalue : ∀ c ∈ v.text, secretValue.run c = true := v.value
  cases hpass : (secretValue.pass ('[' :: mark) s).2 with
  | true =>
    have hnone : ¬ ∃ c ∈ p.separator, secretValue.run c = false := by
      rintro ⟨c, hc, hvalue⟩
      exact hopen hpass ⟨c, hc, isBlank_of_separator hc hvalue⟩
    rw [sub_of_open (continues_name _ fun c hc => isSecretValue_of_isKeyLetter hc) hpass,
      dropWhile_name hname, if_neg hnone, List.dropWhile_append_of_pos hvalue]
    rfl
  | false =>
    have hlead := p.lead_of_named secretNames_names p.named (value_isBlank v y)
    rw [sub_of_closed_lead hlead (continues_value v _ fun c hc => hc) hpass,
      List.dropWhile_append_of_pos hvalue]
    rfl

theorem redactText_eq (h : ¬ p.Swallowed) {v v' : SecretValue} (hv : p.Quiet v) (hv' : p.Quiet v') :
    redactText (p.fill v) = redactText (p.fill v') := by
  unfold redactText
  cases hpass : (authorizationValue.pass ('[' :: mark) p.before).2 with
  | true =>
    rw [Swallowed, if_pos hpass] at h
    rw [hidden_in_authorization hpass h v, hidden_in_authorization hpass h v']
  | false =>
    rw [Swallowed, if_neg (by rw [hpass]; exact Bool.false_ne_true)] at h
    by_cases hname : p.name.map fold = "authorization".toList
    · rw [hidden_by_authorization hpass hname v, hidden_by_authorization hpass hname v']
    · have hopen := fun hsecret hblank => h ⟨hname, hsecret, hblank⟩
      have hquiet : ∀ {v}, p.Quiet v → ∀ s, s <:+ v.text → s ≠ [] →
          authorizationValue.find (s ++ p.after) = none := by
        rintro v (hv | hv | hv)
        · rw [hpass] at hv
          cases hv
        · exact absurd hv hname
        · exact hv
      rw [authorization_of_other hpass hname (hquiet hv),
        authorization_of_other hpass hname (hquiet hv'),
        hidden_by_secret hopen v, hidden_by_secret hopen v']

/-! ### Values that are left -/

/-- A value of one character. -/
def single (c : Char) (hc : isSecretValue c = true) : SecretValue where
  text := [c]
  ne_nil := List.cons_ne_nil c []
  value e he := by rw [List.mem_singleton.1 he]; exact hc

/-- No lead goes beyond the mark. -/
theorem apart_mark {q : Pattern Char} (hq : q.Marks '[' mark) (x y : List Char) :
    Apart q (x ++ '[' :: mark) y := by
  intro s hs hne k z hlead
  by_contra hlength
  obtain ⟨w, rfl⟩ : ∃ w, k = s ++ w := by
    rcases List.append_eq_append_iff.1 (q.append_of_lead hlead) with ⟨w, hk, -⟩ | ⟨w, rfl, -⟩
    · exact ⟨w, hk⟩
    · simp at hlength
  have hmem : '[' ∉ s := fun hs => hq.notMem hlead (List.mem_append_left w hs)
  obtain ⟨a, ha⟩ := hs
  obtain ⟨b, hb⟩ : ∃ b, '[' :: mark = b ++ s := by
    rcases List.append_eq_append_iff.1 ha with ⟨d, -, hs⟩ | ⟨d, -, hd⟩
    · exact absurd (hs ▸ List.mem_append_right d List.mem_cons_self) hmem
    · exact ⟨d, hd⟩
  rw [hq.inside b s y hb hne] at hlead
  cases hlead

/-- What no expression reads. -/
def Plain (c : Char) : Prop := isKeyLetter c = false ∧ c ≠ '?' ∧ c ≠ '&'

theorem secret_letterless (hx : ∀ c ∈ x, Plain c) (y : List Char) :
    secretValue.sub ('[' :: mark) (x ++ y) = x ++ secretValue.sub ('[' :: mark) y :=
  sub_letterless (fun _ _ hc _ => credential_none secretNames_names hc) hx

/-- What is left of a separator, and a character behind it. -/
structure Left (p : SecretPlace) (s : List Char) : Prop where
  head : ∃ b s', s = b :: s' ∧ isBlank b = true
  plain : ∀ c ∈ s, Plain c

theorem Left.append {s : List Char} (hs : p.Left s) (hc : Plain c) : ∀ e ∈ s ++ [c], Plain e := by
  intro e he
  rcases List.mem_append.1 he with he | he
  · exact hs.plain e he
  · exact List.mem_singleton.1 he ▸ hc

theorem left_of_separator {run : Char → Bool} (h : ∃ c ∈ p.separator, run c = false)
    (hrun : ∀ c ∈ p.separator, run c = false → isBlank c = true) :
    p.Left (p.separator.dropWhile run) := by
  obtain ⟨c, hc, hstop⟩ := h
  have hne : p.separator.dropWhile run ≠ [] := by
    rw [ne_eq, List.dropWhile_eq_nil_iff]
    intro hall
    rw [hall c hc] at hstop
    cases hstop
  have hsub := (List.dropWhile_sublist run (l := p.separator)).subset
  obtain ⟨b, s', hs⟩ := List.exists_cons_of_ne_nil hne
  refine ⟨⟨b, s', hs, hrun b (hsub (hs ▸ List.mem_cons_self))
    (head_dropWhile run _ b (by rw [hs]; rfl))⟩, fun e he => ?_⟩
  exact ⟨not_isKeyLetter_of_separator (hsub he), separator_ne (hsub he)⟩

/-- A text behind what is left of a separator is kept by the third expression. -/
theorem parameter_left {s : List Char} (hs : p.Left s) (hc : Plain c) (x y : List Char) :
    parameterValue.sub ('[' :: mark) (x ++ (s ++ c :: y)) =
      parameterValue.sub ('[' :: mark) x ++ (s ++ c :: parameterValue.sub ('[' :: mark) y) := by
  have hplain := hs.append hc
  have hkept : parameterValue.sub ('[' :: mark) ((s ++ [c]) ++ y) =
      (s ++ [c]) ++ parameterValue.sub ('[' :: mark) y :=
    sub_letterless (fun _ _ _ hsign => if_neg (not_or.2 hsign)) hplain
  obtain ⟨b, s', rfl, hb⟩ := hs.head
  have hstop : isParameterValue b = false := by simp [isParameterValue, hb]
  rw [List.append_assoc, List.append_assoc, List.singleton_append, List.singleton_append] at hkept
  rw [← hkept, List.cons_append,
    sub_append_of_stop (p := parameterValue) _ (fun c hc => by cases hc) hstop]
  refine apart_of_notMem (fun hlead => parameter_notMem hlead ?_ ?_) x _
  · exact not_isKeyLetter (.inr hb)
  · obtain ⟨hletter, hsign⟩ := hs.plain b List.mem_cons_self
    exact ⟨hsign.1, hsign.2, by rintro rfl; revert hb; decide⟩

theorem secret_left {s : List Char} (hs : p.Left s) (hc : Plain c) (x y : List Char) :
    secretValue.sub ('[' :: mark) ((x ++ '[' :: mark) ++ (s ++ c :: y)) =
      secretValue.sub ('[' :: mark)
      (x ++ '[' :: mark) ++ (s ++ c :: secretValue.sub ('[' :: mark) y) := by
  have hplain := hs.append hc
  have hkept := secret_letterless hplain y
  obtain ⟨b, s', rfl, hb⟩ := hs.head
  have hstop : isSecretValue b = false := by simp [isSecretValue, hb]
  rw [List.append_assoc, List.append_assoc, List.singleton_append, List.singleton_append] at hkept
  have hkind : ∀ e, isBlank e = true → isSecretValue e = false :=
    fun e he => by simp [isSecretValue, he]
  rw [← hkept, List.cons_append, sub_append_of_stop (p := secretValue) _ hkind hstop]
  exact apart_mark secretValue_marks x _

theorem left_in_authorization (hopen : (authorizationValue.pass ('[' :: mark) p.before).2 = true)
    (hnewline : ∃ c ∈ p.separator, isNewline c = true) :
    p.Left (p.separator.dropWhile authorizationValue.run) ∧
    ∀ c (hc : isSecretValue c = true), Plain c →
      authorizationValue.sub ('[' :: mark) (p.fill (single c hc)) =
        ((authorizationValue.pass ('[' :: mark) p.before).1 ++ '[' :: mark) ++
          (p.separator.dropWhile authorizationValue.run ++ c :: authorizationValue.sub
            ('[' :: mark) p.after) := by
  have hsome : ∃ c ∈ p.separator, authorizationValue.run c = false := by
    obtain ⟨c, hc, hnewline⟩ := hnewline
    exact ⟨c, hc, by simpa [authorizationValue] using hnewline⟩
  have hleft : p.Left (p.separator.dropWhile authorizationValue.run) := by
    refine left_of_separator hsome fun c _ hrun => ?_
    by_contra hblank
    rw [authorizationValue_run (Bool.not_eq_true _ ▸ hblank)] at hrun
    cases hrun
  refine ⟨hleft, fun c hc hplain => ?_⟩
  have hname : ∀ c ∈ p.name, authorizationValue.run c = true :=
    fun c hc => authorizationValue_run (isBlank_of_isKeyLetter (isKeyLetter_of_name hc))
  have hkept : authorizationValue.sub ('[' :: mark)
      ((p.separator.dropWhile authorizationValue.run ++ [c]) ++ p.after) =
      (p.separator.dropWhile authorizationValue.run ++ [c]) ++ authorizationValue.sub
        ('[' :: mark) p.after :=
    sub_letterless (fun _ _ hc _ => credential_none authorizationNames_names hc)
      (hleft.append hplain)
  rw [fill, sub_of_open
    (continues_name _ fun c hc => authorizationValue_run (isBlank_of_isKeyLetter hc)) hopen,
    dropWhile_name hname, if_pos hsome, ← List.append_assoc (p.separator.dropWhile _)]
  exact (congrArg _ (congrArg _ hkept)).trans (by simp)

theorem left_by_secret {s : List Char} (hopen : (secretValue.pass ('[' :: mark) s).2 = true)
    (hblank : ∃ c ∈ p.separator, isBlank c = true) :
    p.Left (p.separator.dropWhile secretValue.run) ∧ ∀ c (hc : isSecretValue c = true) y, Plain c →
      secretValue.sub ('[' :: mark) (s ++ ((p.name ++ p.separator) ++ ((single c hc).text ++ y))) =
        ((secretValue.pass ('[' :: mark) s).1 ++ '[' :: mark) ++
          (p.separator.dropWhile secretValue.run ++ c :: secretValue.sub ('[' :: mark) y) := by
  have hsome : ∃ c ∈ p.separator, secretValue.run c = false := by
    obtain ⟨c, hc, hblank⟩ := hblank
    exact ⟨c, hc, by simp [secretValue, isSecretValue, hblank]⟩
  have hleft : p.Left (p.separator.dropWhile secretValue.run) :=
    left_of_separator hsome fun c hc => isBlank_of_separator hc
  refine ⟨hleft, fun c hc y hplain => ?_⟩
  have hname : ∀ c ∈ p.name, secretValue.run c = true :=
    fun c hc => isSecretValue_of_isKeyLetter (isKeyLetter_of_name hc)
  have hkept := secret_letterless (hleft.append hplain) y
  rw [sub_of_open (continues_name _ fun c hc => isSecretValue_of_isKeyLetter hc) hopen,
    dropWhile_name hname,
    if_pos hsome, ← List.append_assoc (p.separator.dropWhile _)]
  exact (congrArg _ (congrArg _ hkept)).trans (by simp)

/-- Where the name is swallowed, the value is in the redacted text. -/
theorem exists_of_swallowed (h : p.Swallowed) : ∃ x y, ∀ c (hc : isSecretValue c = true), Plain c →
    p.Quiet (single c hc) ∧ redactText (p.fill (single c hc)) = x ++ c :: y := by
  unfold Swallowed at h
  cases hpass : (authorizationValue.pass ('[' :: mark) p.before).2 with
  | true =>
    rw [if_pos hpass] at h
    obtain ⟨hleft, hsub⟩ := left_in_authorization hpass h
    refine ⟨parameterValue.sub ('[' :: mark) (secretValue.sub ('[' :: mark)
      ((authorizationValue.pass ('[' :: mark) p.before).1 ++ '[' :: mark)) ++
        p.separator.dropWhile authorizationValue.run,
      parameterValue.sub ('[' :: mark)
        (secretValue.sub ('[' :: mark) (authorizationValue.sub ('[' :: mark) p.after)),
      fun c hc hplain => ⟨.inl hpass, ?_⟩⟩
    rw [redactText, hsub c hc hplain, secret_left hleft hplain, parameter_left hleft hplain,
      ← List.append_assoc]
  | false =>
    rw [if_neg (by rw [hpass]; exact Bool.false_ne_true)] at h
    obtain ⟨hname, hopen, hblank⟩ := h
    obtain ⟨hleft, hsub⟩ := left_by_secret hopen hblank
    refine ⟨parameterValue.sub ('[' :: mark) ((secretValue.pass ('[' :: mark)
      (authorizationValue.pass ('[' :: mark) p.before).1).1 ++ '[' :: mark) ++
        p.separator.dropWhile secretValue.run,
      parameterValue.sub ('[' :: mark)
        (secretValue.sub ('[' :: mark) (authorizationValue.sub ('[' :: mark) p.after)),
      fun c hc hplain => ?_⟩
    have hquiet : ∀ s, s <:+ (single c hc).text → s ≠ [] →
        authorizationValue.find (s ++ p.after) = none := by
      intro s hs hne
      obtain rfl : s = [c] := by
        rcases List.suffix_cons_iff.1 hs with hs | hs
        · exact hs
        · exact absurd (List.suffix_nil.1 hs) hne
      exact find_of_lead_none (credential_none authorizationNames_names hplain.1)
    refine ⟨.inr (.inr hquiet), ?_⟩
    rw [redactText, authorization_of_other hpass hname hquiet, hsub c hc _ hplain,
      parameter_left hleft hplain,
      ← List.append_assoc]

theorem hidden_iff (p : SecretPlace) :
    (∀ v v', p.Quiet v → p.Quiet v' → redactText (p.fill v) = redactText (p.fill v')) ↔
    ¬ p.Swallowed := by
  refine ⟨fun h hswallowed => ?_, fun h v v' hv hv' => redactText_eq h hv hv'⟩
  obtain ⟨x, y, hleft⟩ := exists_of_swallowed hswallowed
  have hplain : Plain '0' ∧ Plain '1' := ⟨⟨by decide, by decide⟩, by decide, by decide⟩
  obtain ⟨hquiet₀, hzero⟩ := hleft '0' (by decide) hplain.1
  obtain ⟨hquiet₁, hone⟩ := hleft '1' (by decide) hplain.2
  have heq := h _ _ hquiet₀ hquiet₁
  rw [hzero, hone] at heq
  have hhead := (List.cons.inj (List.append_cancel_left heq)).1
  revert hhead
  decide

end SecretPlace

/-- What `redact_text` hides, and when it is done after one pass. -/
theorem redaction_iff (p : SecretPlace) (t : List Char) :
    ((∀ v v', p.Quiet v → p.Quiet v' → redactText (p.fill v) = redactText (p.fill v')) ↔
      ¬ p.Swallowed) ∧
      (redactText (redactText t) = redactText t ↔ ¬ CutBeforeHash t) :=
  ⟨p.hidden_iff, fun h hcut => redactText_of_cut hcut h, redactText_redactText⟩

/-- A value takes the name of the key behind it and a part of the separator, another one begins an
authorization, and a third is cut before a `#`. -/
theorem redaction_leaks :
    redactText "token= secret = a".toList ≠ redactText "token= secret = b".toList ∧
      redactText "token=authorization:a c".toList ≠ redactText "token=b c".toList ∧
      redactText (redactText "?token=a,b#c".toList) ≠ redactText "?token=a,b#c".toList := by
  refine ⟨?_, ?_, ?_⟩ <;> decide +kernel

end LogRedaction

end Euvieouvi
