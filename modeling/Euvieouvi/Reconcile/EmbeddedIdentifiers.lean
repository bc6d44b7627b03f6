import Euvieouvi.Connectors.Dtos
import Euvieouvi.Python

/-!
# Identifiers inside titles

`connectors/embedded_identifiers.py`: a title such as `Name [tmdbid-12]` names its item at a
provider. No choice of the expression can be taken back with success, since each part begins with a
character the part before it cannot hold; so a match is read from left to right, and `finditer` goes
on behind it.
-/

namespace Euvieouvi

structure EmbeddedMetadata where
  title : String
  identifiers : List ExternalIdentifier
deriving DecidableEq, Repr

namespace EmbeddedMetadata

/-- The groups of one match, and what is left of the title behind it. -/
structure Token where
  opening : Char
  provider : List Char
  externalId : List Char
  closing : Char
  rest : List Char

section Parse
variable (py : PyLib)

/-- One literal of the expression, ignoring case. -/
def literal : List Char → List Char → Option (List Char × List Char)
  | [], text => some ([], text)
  | _ :: _, [] => none
  | l :: ls, c :: text =>
    if py.ignoreCase l c then (literal ls text).map fun (read, rest) => (c :: read, rest) else none

def skipSpaces (text : List Char) : List Char := text.dropWhile py.isSpace

/-- `tmdb(?:id)?|tvdb(?:id)?|imdb(?:id)?`. -/
def providerPart (text : List Char) : Option (List Char × List Char) :=
  let name := (literal py ['t', 'm', 'd', 'b'] text).or
    ((literal py ['t', 'v', 'd', 'b'] text).or (literal py ['i', 'm', 'd', 'b'] text))
  name.map fun (read, rest) =>
    match literal py ['i', 'd'] rest with
    | some (suffix, rest) => (read ++ suffix, rest)
    | none => (read, rest)

def isDigit (c : Char) : Bool := '0' ≤ c && c ≤ '9'

def digits (text : List Char) : Option (List Char × List Char) :=
  if text.takeWhile isDigit =
    [] then none else some (text.takeWhile isDigit, text.dropWhile isDigit)

/-- `tt[0-9]+|[0-9]+`. -/
def externalIdPart (text : List Char) : Option (List Char × List Char) :=
  ((literal py ['t', 't'] text).bind fun (read, rest) =>
    (digits rest).map fun (number, rest) => (read ++ number, rest)).or (digits text)

def oneOf (chars : List Char) : List Char → Option (Char × List Char)
  | [] => none
  | c :: text => if chars.contains c then some (c, text) else none

/-- `_IDENTIFIER.match`. -/
def token (text : List Char) : Option Token := do
  let (opening, text) ← oneOf ['[', '{', '('] text
  let (provider, text) ← providerPart py (skipSpaces py text)
  let (_, text) ← oneOf ['-', '='] (skipSpaces py text)
  let (externalId, text) ← externalIdPart py (skipSpaces py text)
  let (closing, text) ← oneOf [']', '}', ')'] (skipSpaces py text)
  return ⟨opening, provider, externalId, closing, text⟩

/-- `_IDENTIFIER.finditer`: each match with the text before it, and the text behind the last one. -/
def tokens : Nat → List Char → List Char → List (List Char × Token) × List Char
  | 0, before, text => ([], before ++ text)
  | _ + 1, before, [] => ([], before)
  | fuel + 1, before, c :: text =>
    match token py (c :: text) with
    | some t =>
      let (found, last) := tokens fuel [] t.rest
      ((before, t) :: found, last)
    | none => tokens fuel (before ++ [c]) text

end Parse

def closingOf : Char → Char
  | '[' => ']'
  | '{' => '}'
  | _ => ')'

/-- `_PROVIDERS`; a spelling that is not in it raises. -/
def providerOf (name : String) : Option String :=
  [("tmdb", "tmdb"), ("tmdbid", "tmdb"), ("tvdb", "tvdb"), ("tvdbid", "tvdb"), ("imdb", "imdb"),
    ("imdbid", "imdb")].lookup name

inductive Reading
  | rejected
  | accepted (identifier : ExternalIdentifier)

/-- The checks on one match. -/
def Token.read (py : PyLib) (t : Token) : Option Reading :=
  if closingOf t.opening ≠ t.closing then some .rejected
  else (providerOf (py.casefold (String.ofList t.provider))).map fun provider =>
    let externalId := (py.casefold (String.ofList t.externalId)).toList
    if provider = "imdb" then
      if ['t', 't'].isPrefixOf externalId then .accepted ⟨provider, String.ofList externalId⟩
        else .rejected
    else if ['t', 't'].isPrefixOf externalId || externalId.all (· == '0') then .rejected
    else .accepted ⟨provider, String.ofList externalId⟩

/-- What the loop over the matches collects: the identifiers, and the parts of the title between the
accepted tokens. -/
structure Collected where
  identifiers : List ExternalIdentifier := []
  accepted : Bool := false
  kept : List Char := []

/-- The text of a match that is not cut out stays in the title. -/
def collect (py : PyLib) (acc : Collected) (before : List Char) (t : Token) (matched : List Char) :
    Option Collected :=
  (t.read py).map fun reading =>
    match reading with
    | .rejected => { acc with kept := acc.kept ++ before ++ matched }
    | .accepted identifier =>
      { identifiers :=
          if acc.identifiers.contains identifier then acc.identifiers else acc.identifiers ++
            [identifier]
        accepted := true
        kept := acc.kept ++ before }

/-- `text.strip(" -")`. -/
def stripDashes (text : List Char) : List Char :=
  let dash (c : Char) : Bool := c == ' ' || c == '-'
  ((text.dropWhile dash).reverse.dropWhile dash).reverse

end EmbeddedMetadata

open EmbeddedMetadata

/-- `parse_embedded_identifiers`; `none` stands for the `KeyError` of a provider spelled with a
letter that only folds to one of its own. -/
def parseEmbeddedIdentifiers (py : PyLib) (title : String) : Option EmbeddedMetadata := do
  let text := title.toList
  let (found, last) := tokens py (text.length + 1) [] text
  let collected ← found.foldlM (fun (acc : Collected × List Char) (before, t) => do
    let behind := acc.2.drop before.length
    let matched := behind.take (behind.length - t.rest.length)
    return (← collect py acc.1 before t matched, t.rest)) ({}, text)
  let identifiers := collected.1.identifiers
  if !collected.1.accepted then return ⟨title, []⟩
  if !decide (identifiers.map (·.provider)).Nodup then return ⟨title, []⟩
  let words := py.split (String.ofList (collected.1.kept ++ last))
  let cleaned := String.ofList (stripDashes (" ".intercalate words).toList)
  return ⟨if cleaned = "" then title else cleaned, identifiers⟩

end Euvieouvi
