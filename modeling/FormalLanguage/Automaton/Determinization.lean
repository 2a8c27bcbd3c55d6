import FormalLanguage.Automaton.Acceptance

/-! Deterministic automata, and determinization by subsets.

The states of the result are the sets of states that the automaton can be in
after some word, the empty set apart, each merged into one state. The result
would be wrong if two of these sets had one merged name, so that is an error, and
so is a result without a final state. -/
namespace FormalLanguage.Automaton

/-- In every state and on every symbol there is at most one way to go, and no way on `ε`. -/
def isDeterministic (a : Automaton) : Bool :=
  a.states.toList.all fun q => a.alphabet.toList.all fun x =>
    let next := a.epsilonClosureOfSet (a.nextStates q x)
    !(x.isEpsilon && !next.isEmpty) && next.size ≤ 1

/-! ### Sets of states as states -/

/-- The letters that lead on from a set of states, and where. -/
def setEdges (a : Automaton) (s : StateSet) : List (Symbol × StateSet) :=
  (a.letters.toList.map fun x => (x, a.step s x)).filter fun (_, next) => !next.isEmpty

/-- The sets of states after some word, the empty set apart, in the order of discovery. -/
def accessibleSets (a : Automaton) : List StateSet :=
  Exploration.reached a.setEdges a.setCount [a.initial]

/-- The first merged name that is given already, to an earlier set or before. -/
def sharedAfter (given : List State) : List StateSet → Option State
  | [] => none
  | s :: rest =>
    if State.merge s ∈ given then some (State.merge s)
    else sharedAfter (State.merge s :: given) rest

def sharedName? (sets : List StateSet) : Option State := sharedAfter [] sets

def mergedTransitions (a : Automaton) (s : StateSet) : List Transition :=
  (a.setEdges s).map fun (x, next) => ⟨State.merge s, x, State.merge next⟩

def determinize (a : Automaton) : Except AutomatonError Automaton :=
  let sets := a.accessibleSets
  match sharedName? sets with
  | some q => .error (.ambiguousMerge q)
  | none =>
    ofTransitions (State.merge a.initial) (sets.flatMap a.mergedTransitions)
      ((sets.filter a.hasFinal).map State.merge)

end FormalLanguage.Automaton
