import FormalLanguage.Automaton.Successors
import FormalLanguage.Text.Grid

/-! The transitions of an automaton as a table with a row for each state and a
column for each symbol. -/
namespace FormalLanguage.Automaton

/-- The state after an arrow if it is the start state and a star if it is final. -/
def markedName (a : Automaton) (q : State) : List Char :=
  (if q = a.start then ['-', '>'] else []) ++ (if a.isFinal q then ['*'] else []) ++
    (if q = a.start ∨ a.isFinal q then [' '] else []) ++ q.chars

/-- Where `x` leads from `q`, merged into one state, or a dash. -/
def tableCell (a : Automaton) (q : State) (x : Symbol) : List Char :=
  match State.merge? (a.nextStates q x) with
  | some p => p.chars
  | none => ['-']

def tableHeader (a : Automaton) : List (List Char) :=
  "State".toList :: a.alphabet.toList.map (·.shown)

def tableRow (a : Automaton) (q : State) : List (List Char) :=
  a.markedName q :: a.alphabet.toList.map (a.tableCell q)

def transitionTable (a : Automaton) : List Char :=
  Text.Grid.render a.tableHeader (a.states.toList.map a.tableRow)

end FormalLanguage.Automaton
