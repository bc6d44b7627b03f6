import Euvieouvi.Lib.Json
import Euvieouvi.Sync.LibraryScan

/-!
# Resuming a scan

`_resume_position` and what `_set_checkpoint` stores for it (`sync/orchestrator.py`), on the text of
the cursor column. The text may be anything: other versions of the program have written to the
column. A position is recorded by an object with the name of a stage and a whole number. `int` takes
more than whole numbers, and raises an `OverflowError` for an infinity.
-/

namespace Euvieouvi

def ScanStage.text : ScanStage → String
  | .media => "media"
  | .history => "history"

/-- What the answer depends on besides the row: how many arrays and objects `json.loads` may have
open, how deeply they may be nested for `str`, and the characters that `int` reads. -/
structure Interpreter where
  loadsDepth : Nat
  strDepth : Nat
  unicode : JsonValue.Unicode
  loadsDepth_pos : 0 < loadsDepth

/-- With a limit of 1000, for texts of plain ASCII. -/
def Interpreter.plain : Interpreter := ⟨1000, 1000, .plain, by decide⟩

/-- The columns of `SyncCheckpoint` that `_resume_position` reads. -/
structure CheckpointRow where
  strategy : String
  cursor : Option String
deriving DecidableEq, Repr

/-- Those that `_resume_position` catches. -/
def JsonError.caught : JsonError → Bool
  | .key | .type | .value => true
  | .overflow | .recursion => false

namespace CheckpointRow
open JsonValue

/-- `json.dumps({"stage": stage, "start": start})`. The text of a number must not be too long. -/
def cursorText (stage : ScanStage) (start : Nat) : Except JsonError String :=
  if maxDigits < (Nat.toDigits 10 start).length then .error .value
  else .ok ("\x7b\"stage\": \"" ++ stage.text ++ "\", \"start\": " ++ toString start ++ "\x7d")

/-- `_set_checkpoint`; `none` is the stage `complete`. -/
def setCheckpoint (stage : Option ScanStage) (start : Nat) : Except JsonError CheckpointRow :=
  match stage with
  | none => .ok ⟨"incremental_v2", none⟩
  | some stage => (cursorText stage start).map fun text => ⟨"incremental_v2", some text⟩

/-- The stage that a value names. -/
def stageNamed? : JsonValue → Option ScanStage
  | .string points => [ScanStage.media, .history].find? fun stage => points == pointsOf stage.text
  | _ => none

/-- `str(value)`, as far as it is the name of a stage. What is no string has another text. -/
def str (i : Interpreter) (v : JsonValue) : Except JsonError (Option ScanStage) :=
  if i.strDepth < v.depth then .error .recursion else .ok (stageNamed? v)

/-- The stage, if it is one, and the start of a cursor. -/
def decode (i : Interpreter) (text : String) : Except JsonError (Option ScanStage × Int) := do
  let payload ← loads i.loadsDepth text
  let stage ← str i (← payload.getItem "stage")
  let start ← toInt i.unicode (← payload.getItem "start")
  return (stage, start)

/-- `_resume_position` of a text. -/
def position (i : Interpreter) (text : String) : Except JsonError ScanCursor :=
  match decode i text with
  | .error e => if e.caught then .ok ⟨.media, 0⟩ else .error e
  | .ok (none, _) => .ok ⟨.media, 0⟩
  | .ok (some stage, start) => if start < 0 then .ok ⟨.media, 0⟩ else .ok ⟨stage, start.toNat⟩

/-- The strategies whose cursors are read. -/
def Resumable (row : CheckpointRow) : Prop :=
  row.strategy = "full_scan_v1" ∨ row.strategy = "incremental_v2"

instance (row : CheckpointRow) : Decidable row.Resumable := inferInstanceAs (Decidable (_ ∨ _))

/-- `_resume_position`. -/
def resumePosition (i : Interpreter) : Option CheckpointRow → Except JsonError ScanCursor
  | none => .ok ⟨.media, 0⟩
  | some row =>
    if row.Resumable then
      match row.cursor with
      | some text => position i text
      | none => .ok ⟨.media, 0⟩
    else .ok ⟨.media, 0⟩

/-- The position that a text records: the name of a stage and a whole number. -/
def recorded? (i : Interpreter) (text : String) : Option ScanCursor :=
  match loads i.loadsDepth text with
  | .ok payload => match payload.getItem "stage", payload.getItem "start" with
    | .ok stage, .ok (.int start) =>
      if 0 ≤ start then (stageNamed? stage).map fun stage => ⟨stage, start.toNat⟩ else none
    | _, _ => none
  | .error _ => none

/-- The position that a row records, and the beginning if it records none. -/
def recorded (i : Interpreter) (row : CheckpointRow) : ScanCursor :=
  if row.Resumable then (row.cursor.bind (recorded? i)).getD ⟨.media, 0⟩ else ⟨.media, 0⟩

/-- The whole number that `int` makes of a value that is none. -/
def converted? (i : Interpreter) : JsonValue → Option Int
  | .bool value => some (if value then 1 else 0)
  | .float (.finite negative units) => some (Double.truncated negative units)
  | .string points => i.unicode.int? points
  | _ => none

/-- The texts that are not read as the position they record. -/
inductive Misread (i : Interpreter) (text : String) : Prop
  /-- Too much is open in the text. -/
  | nested (h : loads i.loadsDepth text = .error .recursion)
  /-- The stage is nested too deeply. -/
  | nestedStage {payload stage : JsonValue} (hpayload : loads i.loadsDepth text = .ok payload)
      (hstage : payload.getItem "stage" = .ok stage) (h : i.strDepth < stage.depth)
  /-- The start is an infinity. -/
  | infinite {payload stage : JsonValue} {negative : Bool}
    (hpayload : loads i.loadsDepth text = .ok payload)
      (hstage : payload.getItem "stage" = .ok stage)
        (hstart : payload.getItem "start" = .ok (.float (.infinite negative)))
  /-- The start is a truth value, a fraction or a text with a number, and not taken for the
  beginning. -/
  | converted {payload stage start : JsonValue} {name : ScanStage} {n : Int}
    (hpayload : loads i.loadsDepth text = .ok payload)
      (hstage : payload.getItem "stage" = .ok stage) (hname : stageNamed? stage = some name)
      (hstart : payload.getItem "start" = .ok start) (hn : converted? i start = some n)
        (hpos : 0 ≤ n)
      (hne : name ≠ .media ∨ n ≠ 0)

/-- The tokens in front of the start. -/
def cursorTokens (stage : ScanStage) : List Token :=
  [.openObject, .string (pointsOf "stage"), .colon, .string (pointsOf stage.text), .comma,
    .string (pointsOf "start"), .colon]

theorem lex_cursorText (stage : ScanStage) (text : List Char) :
    lex .between (("\x7b\"stage\": \"" ++ stage.text ++ "\", \"start\": ").toList ++ text) =
      cursorTokens stage ++ lex .between text := by
  cases stage <;> rfl

theorem run_cursorTokens (i : Interpreter) (stage : ScanStage) :
    (cursorTokens stage).foldlM (Machine.step i.loadsDepth) (.value []) =
      .ok (.value
        [.object [(pointsOf "stage", .string (pointsOf stage.text))] (pointsOf "start")]) := by
  have hopen : (Machine.value []).step i.loadsDepth .openObject = .ok (.key true [] []) := by
    simp [Machine.step, Machine.readValue, i.loadsDepth_pos.ne']
  rw [cursorTokens, Machine.run_cons hopen]
  rfl

/-- A number that is the last member of an object. -/
theorem run_number (limit : Nat) {n : Nat} (hlong : ¬ maxDigits < (Nat.toDigits 10 n).length)
    (name : List Nat) (members : List (List Nat × JsonValue)) :
    (lex .between (Nat.toDigits 10 n ++ "\x7d".toList)).foldlM (Machine.step limit)
    (.value [.object members name]) =
      .ok (.done (.object (members ++ [(name, .int n)]))) := by
  have hdigit : ∀ c ∈ Nat.toDigits 10 n, continues c := fun c hc =>
    continues_of_isDigit (Nat.isDigit_of_mem_toDigits (by decide) le_rfl hc)
  have hword : (Machine.value [.object members name]).step limit (.word (Nat.toDigits 10 n)) =
      .ok (.afterMember (members ++ [(name, .int n)]) []) := by
    rw [Machine.step, Machine.readValue, word_toDigits, if_neg hlong]
    rfl
  have hend : "\x7d".toList = ['\x7d'] := rfl
  rw [hend, lex_word Nat.toDigits_ne_nil hdigit, Machine.run_cons hword]
  rfl

theorem loads_cursorText (i : Interpreter) {stage : ScanStage} {start : Nat} {text : String}
    (h : cursorText stage start = .ok text) :
    loads i.loadsDepth text =
      .ok (.object [(pointsOf "stage", .string (pointsOf stage.text)),
        (pointsOf "start", .int start)]) := by
  unfold cursorText at h
  split_ifs at h with hlong
  cases h
  rw [loads, String.toList_append, String.toList_append, List.append_assoc, toList_toString_nat,
    lex_cursorText,
    List.foldlM_append, run_cursorTokens]
  exact congrArg (Except.bind · Machine.result) (run_number i.loadsDepth hlong _ _)

@[simp] theorem stageNamed?_text (stage : ScanStage) :
    stageNamed? (.string (pointsOf stage.text)) = some stage := by
  cases stage <;> rfl

/-- With a stage that `str` can write, and a start. -/
theorem decode_of_members {i : Interpreter} {text : String} {payload stage start : JsonValue}
    (hload : loads i.loadsDepth text = .ok payload) (hstage : payload.getItem "stage" = .ok stage)
    (hdeep : ¬ i.strDepth < stage.depth) (hstart : payload.getItem "start" = .ok start) :
    decode i text = (toInt i.unicode start).map fun start => (stageNamed? stage, start) := by
  simp only [decode, hload, hstage, hstart, str, if_neg hdeep, bind, Except.bind]
  rfl

theorem decode_cursorText (i : Interpreter) {stage : ScanStage} {start : Nat} {text : String}
    (h : cursorText stage start = .ok text) :
    decode i text = .ok (some stage, start) := by
  have hdeep : ¬ i.strDepth < JsonValue.depth (.string (pointsOf stage.text)) := by simp [depth]
  rw [decode_of_members (loads_cursorText i h) rfl hdeep rfl, stageNamed?_text]
  rfl

theorem position_cursorText (i : Interpreter) {stage : ScanStage} {start : Nat} {text : String}
    (h : cursorText stage start = .ok text) : position i text = .ok ⟨stage, start⟩ := by
  simp [position, decode_cursorText i h]

/-! ### What else is read -/

theorem getItem_error {key : String} {payload : JsonValue} {e : JsonError}
    (h : payload.getItem key = .error e) : e.caught := by
  unfold getItem at h
  grind [JsonError.caught]

/-- A whole number, a value that `int` makes one of, or none that it can read. -/
theorem toInt_cases (i : Interpreter) (v : JsonValue) :
    (∃ n, v = .int n) ∨ (∃ n, converted? i v = some n ∧ toInt i.unicode v = .ok n) ∨
      (∃ negative, v = .float (.infinite negative)) ∨ converted? i v = none ∧ ∃ e : JsonError,
        e.caught ∧ toInt i.unicode v = .error e := by
  cases v with
  | int n => exact .inl ⟨n, rfl⟩
  | bool value => exact .inr (.inl ⟨_, rfl, rfl⟩)
  | float d =>
    cases d with
    | nan => exact .inr (.inr (.inr ⟨rfl, .value, rfl, rfl⟩))
    | infinite negative => exact .inr (.inr (.inl ⟨negative, rfl⟩))
    | finite negative units => exact .inr (.inl ⟨_, rfl, rfl⟩)
  | string points =>
    cases hn : i.unicode.int? points with
    | none => exact .inr (.inr (.inr ⟨hn, .value, rfl, by rw [toInt, hn]⟩))
    | some n => exact .inr (.inl ⟨n, hn, by rw [toInt, hn]⟩)
  | null | array _ | object _ => exact .inr (.inr (.inr ⟨rfl, .type, rfl, rfl⟩))

theorem position_of_caught {i : Interpreter} {text : String} {e : JsonError}
    (h : decode i text = .error e) (he : e.caught) :
    position i text = .ok ⟨.media, 0⟩ := by
  simp [position, h, he]

theorem position_ne_of_raised {i : Interpreter} {text : String} {e : JsonError}
    (h : decode i text = .error e)
    (he : e.caught = false) (c : ScanCursor) : position i text ≠ .ok c := by
  simp [position, h, he]

/-- A start that `int` can read, beside a stage that `str` can write. -/
theorem position_of_start {i : Interpreter} {text : String} {stage : Option ScanStage} {n : Int}
    (h : decode i text = .ok (stage, n)) :
    position i text = .ok (if 0 ≤ n then (stage.map fun stage => ⟨stage, n.toNat⟩).getD
      ⟨.media, 0⟩ else ⟨.media, 0⟩) := by
  cases stage with
  | none => simp [position, h]
  | some stage =>
    rcases lt_or_ge n 0 with hneg | hpos
    · simp [position, h, hneg, not_le.2 hneg]
    · simp [position, h, hpos, not_lt.2 hpos]

theorem misread_iff {i : Interpreter} {text : String} {payload stage : JsonValue}
    (hload : loads i.loadsDepth text = .ok payload)
    (hstage : payload.getItem "stage" = .ok stage) (hdeep : ¬ i.strDepth < stage.depth) :
    Misread i text ↔ (∃ negative, payload.getItem "start" = .ok (.float (.infinite negative))) ∨
      ∃ start name n, payload.getItem "start" = .ok start ∧ stageNamed? stage = some name ∧
      converted? i start = some n ∧ 0 ≤ n ∧
        (name ≠ .media ∨ n ≠ 0) := by
  constructor
  · rintro (h | ⟨hpayload, hstage', h⟩ | ⟨hpayload, -, h⟩ | ⟨hpayload, hstage', hname, hstart,
      hn, hpos, hne⟩)
    all_goals try obtain rfl : payload = _ := by simpa [hload] using hpayload
    · simp [hload] at h
    · obtain rfl : stage = _ := by simpa [hstage] using hstage'
      exact absurd h hdeep
    · exact .inl ⟨_, h⟩
    · obtain rfl : stage = _ := by simpa [hstage] using hstage'
      exact .inr ⟨_, _, _, hstart, hname, hn, hpos, hne⟩
  · rintro (⟨negative, h⟩ | ⟨start, name, n, hstart, hname, hn, hpos, hne⟩)
    · exact .infinite hload hstage h
    · exact .converted hload hstage hname hstart hn hpos hne

/-- With a stage that `str` can write, and a start. -/
theorem position_eq_recorded_iff_of_members {i : Interpreter} {text : String}
    {payload stage start : JsonValue}
    (hload : loads i.loadsDepth text = .ok payload) (hstage : payload.getItem "stage" = .ok stage)
    (hdeep : ¬ i.strDepth < stage.depth) (hstart : payload.getItem "start" = .ok start) :
    position i text = .ok ((recorded? i text).getD ⟨.media, 0⟩) ↔ ¬ Misread i text := by
  have hdecode := decode_of_members hload hstage hdeep hstart
  rw [misread_iff hload hstage hdeep]
  rcases toInt_cases i start with ⟨n, rfl⟩ | ⟨n, hn, htoInt⟩ | ⟨negative, rfl⟩ | ⟨hnone,
    e, he, htoInt⟩
  · refine iff_of_true ?_ ?_
    · rw [position_of_start (n := n) hdecode]
      simp only [recorded?, hload, hstage, hstart]
      split_ifs <;> rfl
    · simp [hstart, converted?]
  · rw [htoInt] at hdecode
    have hinfinite (negative : Bool) : start ≠ .float (.infinite negative) := by
      rintro rfl
      cases hn
    have hrecorded : recorded? i text = none := by
      cases start with
      | int m => cases hn
      | _ => simp only [recorded?, hload, hstage, hstart]
    rw [position_of_start hdecode, hrecorded]
    cases hname : stageNamed? stage with
    | none => simp [hstart, hinfinite]
    | some name =>
      rcases lt_or_ge n 0 with hneg | hpos
      · simp [hstart, hinfinite, hn, not_le.2 hneg]
      · have hzero : n ≤ 0 ↔ n = 0 := ⟨fun h => le_antisymm h hpos, le_of_eq⟩
        simp [hstart, hinfinite, hn, hpos, hzero]
  · exact iff_of_false (position_ne_of_raised hdecode rfl _) (not_not.2 (.inl ⟨negative, hstart⟩))
  · rw [htoInt] at hdecode
    have hinfinite (negative : Bool) : start ≠ .float (.infinite negative) := by
      rintro rfl
      cases htoInt
      cases he
    have hrecorded : recorded? i text = none := by
      cases start with
      | int m => cases htoInt
      | _ => simp only [recorded?, hload, hstage, hstart]
    simp [position_of_caught hdecode he, hrecorded, hstart, hinfinite, hnone]

/-- A text is read as the position it records, or it is one of those. -/
theorem position_eq_recorded_iff (i : Interpreter) (text : String) :
    position i text = .ok ((recorded? i text).getD ⟨.media, 0⟩) ↔ ¬ Misread i text := by
  cases hload : loads i.loadsDepth text with
  | error e =>
    have hdecode : decode i text = .error e := by simp [decode, hload, bind, Except.bind]
    rcases loads_error hload with rfl | rfl
    · have hmisread : ¬ Misread i text := by rintro (h | h | h | h) <;> simp_all
      simp [position_of_caught hdecode rfl, recorded?, hload, hmisread]
    · exact iff_of_false (position_ne_of_raised hdecode rfl _) (not_not.2 (.nested hload))
  | ok payload =>
    cases hstage : payload.getItem "stage" with
    | error e =>
      have hdecode : decode i text = .error e := by simp [decode, hload, hstage, bind, Except.bind]
      have hmisread : ¬ Misread i text := by rintro (h | h | h | h) <;> simp_all
      simp [position_of_caught hdecode (getItem_error hstage), recorded?, hload, hstage, hmisread]
    | ok stage =>
      by_cases hdeep : i.strDepth < stage.depth
      · have hdecode : decode i text = .error .recursion := by
          simp [decode, hload, hstage, str, hdeep, bind, Except.bind]
        exact iff_of_false (position_ne_of_raised hdecode rfl _)
          (not_not.2 (.nestedStage hload hstage hdeep))
      cases hstart : payload.getItem "start" with
      | ok start => exact position_eq_recorded_iff_of_members hload hstage hdeep hstart
      | error e =>
        have hdecode : decode i text = .error e := by
          simp [decode, hload, hstage, hstart, str, hdeep, bind, Except.bind]
        simp [position_of_caught hdecode (getItem_error hstart), recorded?, hload, hstage, hstart,
          misread_iff hload hstage hdeep]

/-- A row is read as the position it records, or its text is one of those. -/
theorem resumePosition_eq_recorded_iff (i : Interpreter) (row : CheckpointRow) :
    resumePosition i (some row) = .ok (row.recorded i) ↔
    ¬ (row.Resumable ∧ ∃ text, row.cursor = some text ∧ Misread i text) := by
  unfold resumePosition recorded
  obtain ⟨strategy, cursor⟩ := row
  split_ifs with hrow
  · cases cursor with
    | none => simp
    | some text => simp [hrow, position_eq_recorded_iff]
  · simp [hrow]

/-- The checkpoint with a decoded cursor is resumed where its row is. -/
theorem resumePosition_decoded {i : Interpreter} {row : CheckpointRow} {checkpoint : SyncCheckpoint}
    (hstrategy : checkpoint.strategy = row.strategy)
    (hcursor : checkpoint.cursor = row.cursor.bind (recorded? i))
    (h : ∀ text, row.cursor = some text → ¬ Misread i text) :
    resumePosition i (some row) = .ok (Euvieouvi.resumePosition (some checkpoint)) := by
  have hread : Euvieouvi.resumePosition (some checkpoint) = row.recorded i := by
    simp only [Euvieouvi.resumePosition, recorded, hstrategy, hcursor]
    rfl
  rw [hread, resumePosition_eq_recorded_iff]
  rintro ⟨-, text, htext, hmisread⟩
  exact h text htext hmisread

/-- What `_set_checkpoint` stores is read back, and after a complete scan it is the beginning. Any
other row is read as the position it records, unless its text is misread. -/
theorem resumePosition_spec (i : Interpreter) :
    (∀ stage start row, setCheckpoint (some stage) start = .ok row →
      resumePosition i (some row) = .ok ⟨stage, start⟩) ∧
    (∀ start row, setCheckpoint none start = .ok row →
      resumePosition i (some row) = .ok ⟨.media, 0⟩) ∧
    ∀ row : CheckpointRow, resumePosition i (some row) = .ok (row.recorded i) ↔
      ¬ (row.Resumable ∧ ∃ text, row.cursor = some text ∧ Misread i text) := by
  refine ⟨fun stage start row h => ?_, fun start row h => ?_, resumePosition_eq_recorded_iff i⟩
  · cases htext : cursorText stage start with
    | error e => simp [setCheckpoint, htext, Except.map] at h
    | ok text =>
      obtain rfl : _ = row := by simpa [setCheckpoint, htext, Except.map] using h
      have hresumable : Resumable ⟨"incremental_v2", some text⟩ := .inr rfl
      simp [resumePosition, hresumable, position_cursorText i htext]
  · cases h
    rfl

theorem resumePosition_spec_someRow :
    resumePosition .plain (some
      ⟨"incremental_v2", some "\x7b\"stage\": \"media\", \"start\": 50\x7d"⟩) = .ok ⟨.media, 50⟩ :=
  (resumePosition_spec .plain).1 .media 50 _ rfl

/-- The infinity is no position, and it is raised. -/
theorem resumePosition_infinite :
    recorded .plain ⟨"incremental_v2", some "\x7b\"stage\": \"media\", \"start\": 1e999\x7d"⟩ =
      ⟨.media, 0⟩ ∧
      resumePosition .plain
        (some ⟨"incremental_v2", some "\x7b\"stage\": \"media\", \"start\": 1e999\x7d"⟩) =
        .error .overflow := by
  decide +kernel

end CheckpointRow

end Euvieouvi
