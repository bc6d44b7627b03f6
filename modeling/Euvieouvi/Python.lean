import Euvieouvi.Database

/-!
# Library functions of the runtime

The functions of the language's standard library whose results the program only compares or stores:
digests, Unicode tables and the text of a moment. Every statement about the model holds for all of
them; `PyLib.plain` is one that evaluates.
-/

namespace Euvieouvi

structure PyLib where
  /-- `hashlib.sha256(text.encode()).hexdigest()`. -/
  sha256 : String → String
  /-- `moment.astimezone(UTC).isoformat()`. -/
  isoformat : Time → String
  /-- `unicodedata.normalize("NFKD", text)`. -/
  nfkd : String → String
  /-- `unicodedata.combining(char) != 0`. -/
  combining : Char → Bool
  casefold : String → String
  isSpace : Char → Bool
  /-- A literal of an expression matches this character under `re.IGNORECASE`. -/
  ignoreCase : Char → Char → Bool

namespace PyLib

/-- Texts of plain ASCII, which stand for their own digests; moments are written as numbers. -/
def plain : PyLib where
  sha256 := id
  isoformat t := toString t
  nfkd := id
  combining _ := false
  casefold text := String.ofList (text.toList.map Char.toLower)
  isSpace := Char.isWhitespace
  ignoreCase literal char := literal == char.toLower

/-- `text.split()`. -/
def split (py : PyLib) (text : String) : List String :=
  ((text.toList.splitOnP py.isSpace).filter (· ≠ [])).map String.ofList

/-- `text.strip()`. -/
def strip (py : PyLib) (text : String) : String :=
  String.ofList ((text.toList.dropWhile py.isSpace).reverse.dropWhile py.isSpace).reverse

/-- `_normalized_title`. -/
def normalizedTitle (py : PyLib) (value : String) : String :=
  py.casefold (" ".intercalate
    (py.split (String.ofList ((py.nfkd value).toList.filter fun char => !py.combining char))))

end PyLib

end Euvieouvi
