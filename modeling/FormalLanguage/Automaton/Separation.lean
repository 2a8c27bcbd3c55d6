import FormalLanguage.Automaton.Acceptance

/-! Words that tell two automata apart.

Both automata are run side by side on the letters of either. The first pair of
state sets of which only one is accepting is reached by the first of the shortest
words that only one of the two automata accepts. -/
namespace FormalLanguage.Automaton

def pairEdges (a b : Automaton) (p : StateSet × StateSet) :
    List (Symbol × (StateSet × StateSet)) :=
  (a.letters ∪ b.letters).toList.map fun x => (x, (a.step p.1 x, b.step p.2 x))

def separates (a b : Automaton) (p : StateSet × StateSet) : Bool := a.hasFinal p.1 != b.hasFinal p.2

def separatingWord? (a b : Automaton) : Option Word :=
  Exploration.pathTo? (a.pairEdges b) (a.separates b) (a.setCount * b.setCount)
    (a.initial, b.initial)

def equivalent (a b : Automaton) : Bool := (a.separatingWord? b).isNone

end FormalLanguage.Automaton
