import FormalLanguage.Automaton.Basic
import FormalLanguage.Exploration

/-! Where an automaton can go: by one transition, and by any number of moves that
read nothing.

The states asked about need not belong to the automaton. One that does not has no
successors and is its own closure. -/
namespace FormalLanguage.Automaton

def transitionsFrom (a : Automaton) (q : State) : SortedSet Transition :=
  a.successors.transitionsFrom q

/-! ### One transition -/

/-- The targets of the transitions out of `q` on `x`, in increasing order. -/
def targets (a : Automaton) (q : State) (x : Symbol) : List State :=
  (a.successors.targetSet q x).toList

def nextStates (a : Automaton) (q : State) (x : Symbol) : StateSet := .ofList (a.targets q x)

/-- The targets from any of the states listed, whatever their order and however often each is. -/
def nextStatesOfList (a : Automaton) (qs : List State) (x : Symbol) : StateSet :=
  .ofList (qs.flatMap (a.targets · x))

def nextStatesOfSet (a : Automaton) (s : StateSet) (x : Symbol) : StateSet :=
  a.nextStatesOfList s.toList x

theorem mem_targets {a : Automaton} {q p : State} {x : Symbol} :
    p ∈ a.targets q x ↔ ⟨q, x, p⟩ ∈ a.transitions := by
  rw [targets, a.successors_eq]
  exact SuccessorIndex.mem_targetSet_ofList

theorem mem_nextStates {a : Automaton} {q p : State} {x : Symbol} :
    p ∈ a.nextStates q x ↔ ⟨q, x, p⟩ ∈ a.transitions := by
  rw [nextStates, SortedSet.mem_ofList, mem_targets]

theorem mem_nextStatesOfList {a : Automaton} {qs : List State} {p : State} {x : Symbol} :
    p ∈ a.nextStatesOfList qs x ↔ ∃ q ∈ qs, ⟨q, x, p⟩ ∈ a.transitions := by
  simp only [nextStatesOfList, SortedSet.mem_ofList, List.mem_flatMap, mem_targets]

theorem mem_nextStatesOfSet {a : Automaton} {s : StateSet} {p : State} {x : Symbol} :
    p ∈ a.nextStatesOfSet s x ↔ ∃ q ∈ s, ⟨q, x, p⟩ ∈ a.transitions := mem_nextStatesOfList

theorem mem_transitionsFrom {a : Automaton} {q : State} {t : Transition} :
    t ∈ a.transitionsFrom q ↔ t ∈ a.transitions ∧ t.source = q := by
  rw [transitionsFrom, a.successors_eq, SuccessorIndex.mem_transitionsFrom,
    SuccessorIndex.mem_targetSet_ofList, and_comm]
  refine and_congr_left ?_
  rintro rfl
  exact Iff.rfl

/-! ### Moves that read nothing -/

/-- The states of `s` and what a single `ε` leads to from them. -/
def epsilonStepOfSet (a : Automaton) (s : StateSet) : StateSet := s ∪ a.nextStatesOfSet s .epsilon

def epsilonStep (a : Automaton) (q : State) : StateSet := a.epsilonStepOfSet {q}

/-- The states of `s` and all that chains of `ε` moves lead to from them. A chain of new states
is no longer than there are states. -/
def epsilonClosureOfSet (a : Automaton) (s : StateSet) : StateSet :=
  .ofList (Exploration.closure (a.targets · .epsilon) a.states.size s.toList)

def epsilonClosure (a : Automaton) (q : State) : StateSet := a.epsilonClosureOfSet {q}

end FormalLanguage.Automaton
