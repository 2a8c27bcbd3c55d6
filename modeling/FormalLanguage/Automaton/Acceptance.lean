import FormalLanguage.Automaton.Successors

/-! Runs on words.

A run keeps the set of all states that the automaton can be in, closed under `ε`
moves. `ε` in a word reads nothing. The automaton accepts a word if a final state
is among those it can be in at the end. -/
namespace FormalLanguage.Automaton

def initial (a : Automaton) : StateSet := a.epsilonClosure a.start

/-- The states after one more letter. -/
def step (a : Automaton) (s : StateSet) (x : Symbol) : StateSet :=
  a.epsilonClosureOfSet (a.nextStatesOfSet s x)

/-- The states after a word, from the states in `s`. -/
def runFrom (a : Automaton) (s : StateSet) (w : Word) : StateSet :=
  w.letters.foldl a.step s

def run (a : Automaton) (w : Word) : StateSet := a.runFrom a.initial w

/-- The number of sets of states, which bounds how many different ones the runs can meet. -/
def setCount (a : Automaton) : Nat := Nat.pow 2 a.states.size

def hasFinal (a : Automaton) (s : StateSet) : Bool := s.intersects a.finals

def accepts (a : Automaton) (w : Word) : Bool := a.hasFinal (a.run w)

end FormalLanguage.Automaton
