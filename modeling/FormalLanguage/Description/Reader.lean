import FormalLanguage.Description.Basic
import FormalLanguage.Description.TopLevel
import FormalLanguage.Text.Line

/-! Reading a description. Blanks around names, symbols, markers, colons, commas and
arrows mean nothing, and a marker may stand right before its name. -/
namespace FormalLanguage.Description
open Text

/-! ### Names -/

/-- A name is not empty and has neither a quote nor a blank outside of braces. -/
def readName (s : List Char) : Except LineFault State :=
  let name := trim s
  if name.isEmpty then .error .missingName
  else if '"' ∈ name ∨ (cutTopLevel? isBlank name).isSome then .error (.invalidName name)
  else .ok (.ofChars name)

/-- The marker that a name begins with, and the name without it. -/
def gluedMarker? (s : List Char) : Option (Role × List Char) :=
  markers.findSome? fun (marker, role) => (marker.isPrefixOf? s).map fun name => (role, name)

/-- A marker, if there is one, and a name. -/
def readDefinition (s : List Char) : Except LineFault (Role × State) :=
  let definition := trim s
  match cutTopLevel? isBlank definition with
  | some (first, rest) =>
    match markers.lookup first with
    | some role => (readName rest).map fun q => (role, q)
    | none => .error (.unknownMarker first)
  | none =>
    match gluedMarker? definition with
    | some (role, name) => (readName name).map fun q => (role, q)
    | none => (readName definition).map fun q => (⟨false, false⟩, q)

/-! ### Transitions -/

/-- The text between the quote that `s` begins with and the next one, and what follows. -/
def readQuoted? : List Char → Option (List Char × List Char)
  | '"' :: s =>
    match s.dropWhile (· ≠ '"') with
    | [] => none
    | _ :: rest => some (s.takeWhile (· ≠ '"'), rest)
  | _ => none

def readMove (s : List Char) : Except LineFault (Symbol × State) :=
  let segment := trim s
  match readQuoted? segment with
  | none => .error (.unquotedSymbol segment)
  | some (symbol, rest) =>
    match ['-', '>'].isPrefixOf? (trimStart rest) with
    | none => .error (.missingArrow segment)
    | some target =>
      if isBlankText target then .error (.missingTarget segment)
      else (readName target).map fun q => (.ofChars symbol, q)

def readMoves (body : List Char) : Except LineFault (List (Symbol × State)) :=
  if isBlankText body then .ok [] else (splitTopLevel (· = ',') body).mapM readMove

/-! ### Lines -/

/-- The parts before and after the colon. A line without one has no transitions. -/
def cutAtColon (line : List Char) : List Char × List Char :=
  (cutTopLevel? (· = ':') line).getD (line, [])

def readLine (d : Draft) (line : List Char) : Except LineFault Draft :=
  if isBlankText line then .ok d
  else do
    let (definition, body) := cutAtColon line
    let (role, q) ← readDefinition definition
    let d ← d.declare role q
    let moves ← readMoves body
    return moves.foldl (Draft.connect q) d

/-- Reads lines of which the first has the given number, up to the first fault. -/
def readLines (d : Draft) (number : Nat) : List (List Char) → Except FormatError Draft
  | [] => .ok d
  | line :: rest =>
    match readLine d line with
    | .error fault => .error (.atLine number fault)
    | .ok d => readLines d (number + 1) rest

end Description

/-- The automaton that a text describes. -/
def Automaton.parse (s : List Char) : Except Description.FormatError Automaton := do
  let d ← Description.readLines .empty 1 (Text.lines s)
  d.build

end FormalLanguage
