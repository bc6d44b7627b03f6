import Euvieouvi.Lib.Base64
import Euvieouvi.Runtime.Credentials
import Mathlib.Logic.Function.Basic

/-!
# The master key

`_credential_key` and `_validate_credential_key` (`config.py`), for processes that start with
neither a seed nor an explicit key and share one instance directory. Each goes through the same
steps, and the steps of different processes come in any order: the key file is read, created empty
by one process only (`O_CREAT | O_EXCL`), written, and read again by those that found it there. The
invariant is `KeyInv`: only a process that has created the file writes it, once.
-/

namespace Euvieouvi

/-- `.euvieouvi-master.key`; bytes that are no ASCII text cannot be read. -/
inductive KeyFile
  | absent
  | binary
  | text (content : List Char)
deriving DecidableEq, Repr

/-- The characters that `str.strip` takes from the ends of an ASCII text. -/
def isAsciiSpace (c : Char) : Bool :=
  c == ' ' || ('\t' ≤ c && c ≤ '\r') || ('\x1c' ≤ c && c ≤ '\x1f')

def asciiStrip (text : List Char) : List Char :=
  ((text.dropWhile isAsciiSpace).reverse.dropWhile isAsciiSpace).reverse

/-- `_validate_credential_key` raises nothing. -/
def validKey (value : List Char) : Bool := (Base64.decode value).any (·.length = 32)

/-- Where a process stands. A process that is refused raises `ConfigurationError` for the key that
it has read. -/
inductive KeyPlace
  | starting
  | generated (value : List Char)
  | created (value : List Char)
  | beaten
  | loaded (value : List Char)
  | returned (value : List Char)
  | refused (value : List Char)
  | failed
deriving DecidableEq, Repr

/-- The steps of a process. `secured` says whether `chmod` succeeds, and a process may die anywhere
before its end. -/
inductive KeyAction
  | read (token : Vector UInt8 32)
  | «open»
  | write
  | readAgain
  | validate (secured : Bool)
  | die

/-- What a step of a process makes of the file and of its place; a step that is not its next one
does nothing. -/
def KeyAction.run : KeyAction → KeyFile → KeyPlace → KeyFile × KeyPlace
  | .read token, .absent, .starting => (.absent, .generated (Base64.encode token.toList))
  | .read _, .binary, .starting => (.binary, .failed)
  | .read _, .text content, .starting => (.text content, .loaded (asciiStrip content))
  | .open, .absent, .generated value => (.text [], .created value)
  | .open, file, .generated _ => (file, .beaten)
  | .write, _, .created value => (.text (value ++ ['\n']), .loaded value)
  | .readAgain, .text content, .beaten => (.text content, .loaded (asciiStrip content))
  | .readAgain, file, .beaten => (file, .failed)
  | .validate secured, file, .loaded value =>
    (file, if validKey value then if secured then .returned value else .failed else .refused value)
  | .die, file, .returned value => (file, .returned value)
  | .die, file, .refused value => (file, .refused value)
  | .die, file, _ => (file, .failed)
  | _, file, place => (file, place)

structure KeyState where
  file : KeyFile
  place : Nat → KeyPlace := fun _ => .starting

namespace KeyState

def step (s : KeyState) (e : Nat × KeyAction) : KeyState where
  file := (e.2.run s.file (s.place e.1)).1
  place := Function.update s.place e.1 (e.2.run s.file (s.place e.1)).2

end KeyState

/-! ### Keys -/

/-- A key of the right length, with nothing to strip. -/
structure CleanKey (value : List Char) : Prop where
  valid : validKey value = true
  clean : ∀ c ∈ value, isAsciiSpace c = false

theorem cleanKey_encode (token : Vector UInt8 32) : CleanKey (Base64.encode token.toList) where
  valid := by
    rw [validKey, Base64.decode_encode]
    simp
  clean := Base64.forall_encode (by decide +kernel) (by decide) _

theorem asciiStrip_line {value : List Char} (h : CleanKey value) :
    asciiStrip (value ++ ['\n']) = value := by
  have hne : value ≠ [] := by
    rintro rfl
    cases h.valid
  obtain ⟨c, rest, rfl⟩ := List.exists_cons_of_ne_nil hne
  have hfirst : isAsciiSpace c = false := h.clean c List.mem_cons_self
  have hall : (c :: rest).reverse.dropWhile isAsciiSpace = (c :: rest).reverse := by
    refine List.dropWhile_eq_self_iff.2 fun hlength => ?_
    rw [h.clean _ (List.mem_reverse.1 (List.getElem_mem hlength))]
    exact Bool.false_ne_true
  unfold asciiStrip
  rw [List.cons_append, List.dropWhile_cons_of_neg (by rw [hfirst]; exact Bool.false_ne_true),
    ← List.cons_append,
    List.reverse_append, List.reverse_singleton, List.singleton_append,
      List.dropWhile_cons_of_pos (by decide), hall,
    List.reverse_reverse]

/-! ### The file -/

/-- What a step does, without the steps that do nothing. -/
inductive KeyMove : KeyFile × KeyPlace → KeyFile × KeyPlace → Prop
  | stays {file place} : KeyMove (file, place) (file, place)
  | fails {file place} : KeyMove (file, place) (file, .failed)
  | generates (token : Vector UInt8 32) :
    KeyMove (.absent, .starting) (.absent, .generated (Base64.encode token.toList))
  | loses {file value} : KeyMove (file, .generated value) (file, .beaten)
  | loads {content place} :
    KeyMove (.text content, place) (.text content, .loaded (asciiStrip content))
  | returns {file value} (h : validKey value = true) :
    KeyMove (file, .loaded value) (file, .returned value)
  | refuses {file value} (h : validKey value = false) :
    KeyMove (file, .loaded value) (file, .refused value)
  | creates {value} : KeyMove (.absent, .generated value) (.text [], .created value)
  | writes {file value} : KeyMove (file, .created value) (.text (value ++ ['\n']), .loaded value)

theorem KeyAction.run_validate {secured : Bool} {file : KeyFile} {value : List Char} :
    (validate secured).run file (.loaded value) =
      (file, if validKey value then if secured then .returned value else .failed
        else .refused value) := rfl

theorem KeyAction.moves (action : KeyAction) (file : KeyFile) (place : KeyPlace) :
    KeyMove (file, place) (action.run file place) := by
  cases action with
  | read token =>
    cases place with
    | starting =>
      cases file with
      | absent => exact .generates token
      | binary => exact .fails
      | text content => exact .loads
    | _ => cases file <;> exact .stays
  | «open» =>
    cases place with
    | generated value =>
      cases file with
      | absent => exact .creates
      | _ => exact .loses
    | _ => cases file <;> exact .stays
  | write =>
    cases place with
    | created value => exact .writes
    | _ => exact .stays
  | readAgain =>
    cases place with
    | beaten =>
      cases file with
      | text content => exact .loads
      | _ => exact .fails
    | _ => cases file <;> exact .stays
  | validate secured =>
    cases place with
    | loaded value =>
      rw [run_validate]
      cases hvalid : validKey value with
      | false => exact .refuses hvalid
      | true =>
        cases secured with
        | true => exact .returns hvalid
        | false => exact .fails
    | _ => exact .stays
  | die =>
    cases place with
    | returned value | refused value => exact .stays
    | _ => exact .fails

/-- The value is what the file says, or what it said while it was empty. -/
def KeyFile.Says (file₀ file : KeyFile) (value : List Char) : Prop :=
  file₀ = .absent ∧ value = [] ∨ ∃ content, file = .text content ∧ value = asciiStrip content

/-- What holds of a process: `file₀` is the file before all of them. -/
def KeyPlace.Fits (file₀ file : KeyFile) : KeyPlace → Prop
  | generated value => CleanKey value
  | created value => CleanKey value ∧ file₀ = .absent ∧ file = .text []
  | loaded value => file₀.Says file value
  | returned value => file₀.Says file value ∧ validKey value = true
  | refused value => file₀.Says file₀ value ∧ validKey value = false
  | _ => True

/-- The file is the old one, or the only process that has created one has written it or will. -/
structure KeyInv (file₀ : KeyFile) (s : KeyState) : Prop where
  file : s.file = file₀ ∨ file₀ = .absent ∧
    (s.file = .text [] ∨ ∃ value, CleanKey value ∧ s.file = .text (value ++ ['\n']))
  sole : ∀ p q value value', s.place p = .created value → s.place q = .created value' → p = q
  fits : ∀ p, (s.place p).Fits file₀ s.file

namespace KeyFile.Says
variable {file₀ file : KeyFile} {value : List Char}

theorem eq_nil (h : file₀.Says file value) (hfile : file = .absent ∨ file = .text []) :
    value = [] := by
  obtain ⟨-, hnil⟩ | ⟨content, rfl, rfl⟩ := h
  · exact hnil
  · obtain hfile | hfile := hfile
    · cases hfile
    · cases hfile
      rfl

/-- A valid key is in the file. -/
theorem exists_text (h : file₀.Says file value) (hvalid : validKey value = true) :
    ∃ content, file = .text content ∧ value = asciiStrip content := by
  obtain ⟨-, rfl⟩ | htext := h
  · cases hvalid
  · exact htext

end KeyFile.Says

namespace KeyInv
variable {file₀ : KeyFile} {s : KeyState} {p : Nat} {value : List Char}

theorem start (file₀ : KeyFile) : KeyInv file₀ { file := file₀ } where
  file := .inl rfl
  sole _ _ _ _ h := nomatch h
  fits _ := trivial

/-- A process that does not create the file goes to a place that fits. -/
theorem move {place : KeyPlace} (h : KeyInv file₀ s) (hne : ∀ value, place ≠ .created value)
    (hfits : place.Fits file₀ s.file) :
    KeyInv file₀ { file := s.file, place := Function.update s.place p place } where
  file := h.file
  sole := by
    intro q q' value value' hq hq'
    dsimp only at hq
    rw [Function.update_apply] at hq
    split at hq
    · exact absurd hq (hne value)
    · dsimp only at hq'
      rw [Function.update_apply] at hq'
      split at hq'
      · exact absurd hq' (hne value')
      · exact h.sole q q' value value' hq hq'
  fits q := by
    dsimp only
    rw [Function.update_apply]
    split
    · exact hfits
    · exact h.fits q

/-- Who has read the file while it was empty fits every later one. -/
theorem fits_of_empty {place : KeyPlace} {file file' : KeyFile} (h : place.Fits file₀ file)
    (hfile₀ : file₀ = .absent)
    (hfile : file = .absent ∨ file = .text []) (hne : ∀ value, place ≠ .created value) :
    place.Fits file₀ file' := by
  cases place with
  | created value => exact absurd rfl (hne value)
  | loaded value => exact .inl ⟨hfile₀, KeyFile.Says.eq_nil h hfile⟩
  | returned value =>
    obtain ⟨hsaid, hvalid⟩ := h
    rw [hsaid.eq_nil hfile] at hvalid
    cases hvalid
  | _ => exact h

theorem created (h : KeyInv file₀ s) (hp : s.place p = .created value) :
    CleanKey value ∧ file₀ = .absent ∧ s.file = .text [] := by
  have hfits := h.fits p
  rw [hp] at hfits
  exact hfits

theorem create (h : KeyInv file₀ s) (hfile : s.file = .absent) (hp : s.place p = .generated value) :
    KeyInv file₀ { file := .text [], place := Function.update s.place p (.created value) } := by
  have hnone : ∀ q value, s.place q ≠ .created value := by
    intro q value' hq
    cases hfile.symm.trans (h.created hq).2.2
  have hfile₀ : file₀ = .absent := by
    obtain heq | ⟨heq, -⟩ := h.file
    · exact heq ▸ hfile
    · exact heq
  have hclean := h.fits p
  rw [hp] at hclean
  refine ⟨.inr ⟨hfile₀, .inl rfl⟩, fun q q' value₁ value₂ hq hq' => ?_, fun q => ?_⟩
  · dsimp only at hq
    rw [Function.update_apply] at hq
    split at hq
    next heq =>
      dsimp only at hq'
      rw [Function.update_apply] at hq'
      split at hq'
      next heq' => exact heq.trans heq'.symm
      next => exact absurd hq' (hnone q' value₂)
    next => exact absurd hq (hnone q value₁)
  · dsimp only
    rw [Function.update_apply]
    split
    · exact ⟨hclean, hfile₀, rfl⟩
    · exact fits_of_empty (h.fits q) hfile₀ (.inl hfile) (hnone q)

theorem write (h : KeyInv file₀ s) (hp : s.place p = .created value) :
    KeyInv file₀ { file := .text (value ++ ['\n']),
                   place := Function.update s.place p (.loaded value) } := by
  obtain ⟨hclean, hfile₀, hempty⟩ := h.created hp
  have hother : ∀ q, q ≠ p → ∀ value', s.place q ≠ .created value' :=
    fun q hne value' hq => hne (h.sole q p value' value hq hp)
  refine ⟨.inr ⟨hfile₀, .inr ⟨value, hclean, rfl⟩⟩, fun q q' value₁ value₂ hq hq' => ?_,
    fun q => ?_⟩
  · dsimp only at hq
    rw [Function.update_apply] at hq
    split at hq
    next => cases hq
    next hne => exact absurd hq (hother q hne value₁)
  · dsimp only
    rw [Function.update_apply]
    split
    next => exact .inr ⟨_, rfl, (asciiStrip_line hclean).symm⟩
    next hne => exact fits_of_empty (h.fits q) hfile₀ (.inr hempty) (hother q hne)

/-- A key that is refused was in the file before all processes, or the file was still empty. -/
theorem says_of_invalid (h : KeyInv file₀ s) (hsaid : file₀.Says s.file value)
    (hvalid : validKey value = false) :
    file₀.Says file₀ value := by
  obtain heq | ⟨hfile₀, hempty | ⟨value', hclean, htext⟩⟩ := h.file
  · rw [heq] at hsaid
    exact hsaid
  · exact .inl ⟨hfile₀, hsaid.eq_nil (.inr hempty)⟩
  · obtain hnil | ⟨content, heq, rfl⟩ := hsaid
    · exact .inl hnil
    · cases htext.symm.trans heq
      rw [asciiStrip_line hclean, hclean.valid] at hvalid
      cases hvalid

theorem step (h : KeyInv file₀ s) (e : Nat × KeyAction) : KeyInv file₀ (s.step e) := by
  obtain ⟨p, action⟩ := e
  have hmove := action.moves s.file (s.place p)
  have hfits := h.fits p
  unfold KeyState.step
  dsimp only
  generalize hplace : s.place p = place at hmove hfits
  generalize hfile : s.file = file at hmove
  generalize hnext : action.run file place = next at hmove ⊢
  cases hmove with
  | stays =>
    rw [← hfile, ← hplace, Function.update_eq_self]
    exact h
  | fails => exact hfile ▸ h.move nofun trivial
  | generates token => exact hfile ▸ h.move nofun (cleanKey_encode token)
  | loses => exact hfile ▸ h.move nofun trivial
  | loads => exact hfile ▸ h.move nofun (.inr ⟨_, hfile, rfl⟩)
  | returns hvalid => exact hfile ▸ h.move nofun ⟨hfits, hvalid⟩
  | refuses hvalid => exact hfile ▸ h.move nofun ⟨h.says_of_invalid hfits hvalid, hvalid⟩
  | creates => exact h.create hfile hplace
  | writes => exact h.write hplace

theorem run (h : KeyInv file₀ s) (es : List (Nat × KeyAction)) :
    KeyInv file₀ (es.foldl KeyState.step s) := by
  induction es generalizing s with
  | nil => exact h
  | cons e es ih => exact ih (h.step e)

/-- A file that says something is never written again. -/
theorem file_step (h : KeyInv file₀ s) {content : List Char} (hfile : s.file = .text content)
    (hne : content ≠ []) (e : Nat × KeyAction) : (s.step e).file = .text content := by
  obtain ⟨p, action⟩ := e
  have hmove := action.moves s.file (s.place p)
  unfold KeyState.step
  dsimp only
  generalize hplace : s.place p = place at hmove
  rw [hfile] at hmove ⊢
  generalize hnext : action.run (.text content) place = next at hmove ⊢
  cases hmove with
  | writes =>
    cases hfile.symm.trans (h.created hplace).2.2
    exact absurd rfl hne
  | _ => rfl

theorem file_run (h : KeyInv file₀ s) {content : List Char} (hfile : s.file = .text content)
    (hne : content ≠ [])
    (es : List (Nat × KeyAction)) : (es.foldl KeyState.step s).file = .text content := by
  induction es generalizing s with
  | nil => exact hfile
  | cons e es ih => exact ih (h.step e) (h.file_step hfile hne e)

theorem returned (h : KeyInv file₀ s) (hp : s.place p = .returned value) :
    validKey value = true ∧ ∃ content, s.file = .text content ∧ value = asciiStrip content := by
  have hfits := h.fits p
  rw [hp] at hfits
  exact ⟨hfits.2, hfits.1.exists_text hfits.2⟩

/-- Where the file says a key, only processes that met the empty file are refused. -/
theorem refused (h : KeyInv file₀ s) {content refused : List Char} (hfile : s.file = .text content)
    (hvalid : validKey (asciiStrip content) = true) (hp : s.place p = .refused refused) :
    file₀ = .absent ∧ refused = [] := by
  have hfits := h.fits p
  rw [hp] at hfits
  obtain ⟨hnil | ⟨content', heq, rfl⟩, hinvalid⟩ := hfits
  · exact hnil
  · obtain hsame | ⟨habsent, -⟩ := h.file
    · cases (hsame.trans heq).symm.trans hfile
      rw [hvalid] at hinvalid
      cases hinvalid
    · cases habsent.symm.trans heq

end KeyInv

namespace KeyState
variable {file₀ : KeyFile} {es es' : List (Nat × KeyAction)} {p q : Nat} {value value' : List Char}

/-- The processes have taken these steps. -/
def after (file₀ : KeyFile) (es : List (Nat × KeyAction)) : KeyState :=
  es.foldl step { file := file₀ }

theorem keyInv_after (file₀ : KeyFile) (es : List (Nat × KeyAction)) :
    KeyInv file₀ (after file₀ es) := (KeyInv.start file₀).run es

theorem after_append : after file₀ (es ++ es') = es'.foldl step (after file₀ es) :=
  List.foldl_append

/-- A returned key is valid, and the file says it from now on. -/
theorem file_of_returned (hp : (after file₀ es).place p = .returned value) : validKey value = true ∧
    ∃ content, value = asciiStrip content ∧
    ∀ es', (after file₀ (es ++ es')).file = .text content := by
  obtain ⟨hvalid, content, hfile, rfl⟩ := (keyInv_after file₀ es).returned hp
  have hne : content ≠ [] := by
    rintro rfl
    cases hvalid
  exact ⟨hvalid, content, rfl, fun es' =>
    after_append ▸ (keyInv_after file₀ es).file_run hfile hne es'⟩

theorem returned_later (hp : (after file₀ es).place p = .returned value)
    (hq : (after file₀ (es ++ es')).place q = .returned value') : value' = value := by
  obtain ⟨-, content, rfl, hfile⟩ := file_of_returned hp
  obtain ⟨-, content', hfile', rfl⟩ := (keyInv_after file₀ (es ++ es')).returned hq
  cases (hfile es').symm.trans hfile'
  rfl

/-- Whoever starts when the file says a key gets it. -/
theorem returned_of_starting {s : KeyState} {content : List Char} (hfile : s.file = .text content)
    (hvalid : validKey (asciiStrip content) = true) (hq : s.place q = .starting)
    (token : Vector UInt8 32) :
    ((s.step (q, .read token)).step (q, .validate true)).place q =
      .returned (asciiStrip content) := by
  have hread : s.step (q, .read token) =
      { file := .text content,
        place := Function.update s.place q (.loaded (asciiStrip content)) } := by
    unfold step
    rw [hq, hfile]
    rfl
  rw [hread]
  unfold step
  dsimp only
  rw [Function.update_self, Function.update_self, KeyAction.run_validate, if_pos hvalid, if_pos rfl]

/-- In every order of steps, all processes that get a master key get one and the same, at any time.
The file says it and is never written again, who starts later gets it too, and only a process that
met the empty file is refused. -/
theorem master_key_agreed (hp : (after file₀ es).place p = .returned value) :
    validKey value = true ∧
    (∃ content, value = asciiStrip content ∧
      ∀ es', (after file₀ (es ++ es')).file = .text content) ∧
    (∀ es' q value', (after file₀ (es ++ es')).place q = .returned value' → value' = value) ∧
    (∀ es' q value', (after file₀ (es ++ es')).place q = .refused value' → file₀ = .absent ∧
      value' = []) ∧
    ∀ es' q token, (after file₀ (es ++ es')).place q = .starting →
      (after file₀ (es ++ es' ++ [(q, .read token), (q, .validate true)])).place q =
        .returned value := by
  obtain ⟨hvalid, content, rfl, hfile⟩ := file_of_returned hp
  refine ⟨hvalid, ⟨content, rfl, hfile⟩, fun es' q value' hq => returned_later hp hq,
    fun es' q value' hq => ?_,
    fun es' q token hq => ?_⟩
  · exact (keyInv_after file₀ (es ++ es')).refused (hfile es') hvalid hq
  · rw [after_append]
    exact returned_of_starting (hfile es') hvalid hq token

/-- Two processes start together: one creates the file, and the other finds it. -/
def startedTogether : List (Nat × KeyAction) :=
  [(0, .read (Vector.replicate 32 7)), (1, .read (Vector.replicate 32 9)), (0, .open), (1, .open),
    (0, .write), (0, .validate true)]

theorem startedTogether_returned :
    (after .absent startedTogether).place 0 = .returned (Base64.encode (List.replicate 32 7)) := by
  decide +kernel

/-- The process that comes second reads the file when it is written. -/
theorem master_key_agreed_together :
    (after .absent (startedTogether ++ [(1, .readAgain), (1, .validate true)])).place 1 =
      .returned (Base64.encode (List.replicate 32 7)) ∧
    ∀ value, (after .absent (startedTogether ++ [(1, .readAgain), (1, .validate true)])).place 1 =
      .returned value →
      value = Base64.encode (List.replicate 32 7) :=
  ⟨by decide +kernel, fun value => (master_key_agreed startedTogether_returned).2.2.1 _ 1 value⟩

/-- What one process encrypts every other decrypts, whichever started first. -/
theorem secrets_shared {fernet : String → Option Fernet}
    (hinv : ∀ key, Installation.Inverts ⟨some key, fernet⟩)
    (hp : (after file₀ es).place p = .returned value)
    (hq : (after file₀ es').place q = .returned value')
    (hruns : es <+: es' ∨ es' <+: es) {nonce : Nat} {secret stored : String}
    (hplain : isEncrypted secret = false)
    (hstored : Installation.encryptText ⟨some (String.ofList value), fernet⟩ nonce secret =
      .ok stored) :
    Installation.decryptText ⟨some (String.ofList value'), fernet⟩ stored = .ok secret := by
  have hsame : value' = value := by
    obtain ⟨es₂, rfl⟩ | ⟨es₂, rfl⟩ := hruns
    · exact returned_later hp hq
    · exact (returned_later hq hp).symm
  obtain ⟨htrue, -⟩ | ⟨-, cipher, hcipher, rfl⟩ := Installation.encryptText_eq_ok.1 hstored
  · rw [hplain] at htrue
    cases htrue
  · rw [hsame]
    exact Installation.decryptText_encrypted hcipher (hinv _ cipher hcipher)

/-- A cipher whose tokens begin with its key, and that takes no others. -/
def keyedFernet (key : String) : Fernet where
  encrypt _ value := "gAAAAA" ++ key ++ value
  decrypt token :=
    if ("gAAAAA" ++ key).toList.isPrefixOf token.toList then
      some (String.ofList (token.toList.drop ("gAAAAA" ++ key).toList.length))
    else none

theorem inverts_keyedFernet (key : String) :
    Installation.Inverts ⟨some key, fun key => some (keyedFernet key)⟩ := by
  intro fernet h nonce value
  unfold Installation.cipher at h
  dsimp only at h
  split at h
  · cases h
  next used _ =>
    cases h
    have htoken : ((keyedFernet used).encrypt nonce value).toList =
        ("gAAAAA" ++ used).toList ++ value.toList :=
      String.toList_append
    unfold keyedFernet at htoken ⊢
    dsimp only at htoken ⊢
    rw [htoken, if_pos (List.isPrefixOf_iff_prefix.2 (List.prefix_append _ _)), List.drop_left,
      String.ofList_toList]

/-- The second process reads a token that the first has stored, and an installation with another key
does not. -/
theorem secrets_shared_token : ∃ stored,
    Installation.encryptText ⟨some (String.ofList (Base64.encode (List.replicate 32 7))), fun key =>
      some (keyedFernet key)⟩ 0
      "token" = .ok stored ∧
    Installation.decryptText ⟨some (String.ofList (Base64.encode (List.replicate 32 7))), fun key =>
      some (keyedFernet key)⟩
      stored = .ok "token" ∧
    Installation.decryptText ⟨some (String.ofList (Base64.encode (List.replicate 32 8))), fun key =>
      some (keyedFernet key)⟩
      stored = .error .cannotDecrypt :=
  ⟨_, rfl, @secrets_shared .absent startedTogether
    (startedTogether ++ [(1, .readAgain), (1, .validate true)]) 0 1
    (Base64.encode (List.replicate 32 7)) (Base64.encode (List.replicate 32 7)) _
      inverts_keyedFernet
    startedTogether_returned (by decide +kernel) (.inl ⟨_, rfl⟩) 0 "token" _ (by decide) rfl, by
      decide +kernel⟩

end KeyState

end Euvieouvi
