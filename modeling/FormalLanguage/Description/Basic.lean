import FormalLanguage.Automaton.Basic

/-! Descriptions of automata in text.

A line describes one state: a marker that says whether it is the start state and
whether it is final, its name, and after a colon its transitions, each a quoted
symbol, an arrow and a target, separated by commas. Several lines may describe
one state; blank lines say nothing.

```
->  q0 : "a" -> q1, "" -> q2
  * q1
```
-/
namespace FormalLanguage.Description

structure Role where
  start : Bool
  final : Bool
deriving DecidableEq

/-- The markers in front of a name. A longer one comes before those it begins with. -/
def markers : List (List Char × Role) :=
  [(['-', '>', '*'], ⟨true, true⟩), (['*', '-', '>'], ⟨true, true⟩), (['-', '>'], ⟨true, false⟩),
    (['*'], ⟨false, true⟩)]

/-- What can be wrong with a line, with the part of it that is. -/
inductive LineFault where
  | unknownMarker (marker : List Char)
  | missingName
  | invalidName (name : List Char)
  | unquotedSymbol (segment : List Char)
  | missingArrow (segment : List Char)
  | missingTarget (segment : List Char)
  | secondStart (first second : State)
deriving DecidableEq

inductive FormatError where
  /-- Lines count from one, blank lines included. -/
  | atLine (number : Nat) (fault : LineFault)
  | missingStart
  | invalid (e : AutomatonError)
deriving DecidableEq

def LineFault.message : LineFault → String
  | .unknownMarker marker => s!"unknown state modifier `{String.ofList marker}`"
  | .missingName => "missing state name"
  | .invalidName name => s!"`{String.ofList name}` is not a valid state name"
  | .unquotedSymbol segment =>
    s!"transition `{String.ofList segment}` does not start with a quoted symbol"
  | .missingArrow segment =>
    s!"transition `{String.ofList segment}` is missing the `->` separator"
  | .missingTarget segment => s!"transition `{String.ofList segment}` has no target state"
  | .secondStart first second =>
    s!"`{second.text}` is marked as start state, but `{first.text}` already is"

def FormatError.message : FormatError → String
  | .atLine number fault => s!"line {number}: {fault.message}"
  | .missingStart => "no state is marked as start state"
  | .invalid e => s!"description does not form a valid automaton: {e.message}"

/-- What the lines read so far say. -/
structure Draft where
  start? : Option State
  states : List State
  finals : List State
  transitions : List Transition
deriving DecidableEq

namespace Draft

def empty : Draft := ⟨none, [], [], []⟩

/-- Adds a state with its role. There is one start state. -/
def declare (d : Draft) (role : Role) (q : State) : Except LineFault Draft :=
  let finals := if role.final then q :: d.finals else d.finals
  match role.start, d.start? with
  | true, some first => .error (.secondStart first q)
  | true, none => .ok { d with start? := some q, states := q :: d.states, finals }
  | false, _ => .ok { d with states := q :: d.states, finals }

/-- Adds a transition out of `q` together with its target. -/
def connect (q : State) (d : Draft) (move : Symbol × State) : Draft :=
  { d with
    states := move.2 :: d.states
    transitions := ⟨q, move.1, move.2⟩ :: d.transitions }

/-- The automaton described, whose alphabet holds the symbols of its transitions. -/
def build (d : Draft) : Except FormatError Automaton :=
  match d.start? with
  | none => .error .missingStart
  | some q =>
    (Automaton.ofLists (d.transitions.map (·.symbol)) d.states d.finals q d.transitions).mapError
      .invalid

end Draft
end FormalLanguage.Description
