import FormalLanguage.Automaton.Acceptance
import FormalLanguage.Proofs.Exploration
import FormalLanguage.Proofs.SortedSet
import FormalLanguage.Saturation
import Mathlib.Logic.Function.Iterate

/-! Closing a set of states under moves that read nothing.

`mem_epsilonClosureOfSet` says that the closure holds what chains of `ε` moves lead
to, however long; the rest of the automaton theory needs no more than that and
that closing again changes nothing. Taking one `ε` move after another from all
states at once comes to the same set (`epsilonClosureOfSet_exact`): no step changes
the closure, and a step that changes the set uses up a state. -/
namespace FormalLanguage

theorem saturate_eq_iterate [DecidableEq α] (grow : α → α) (rounds : Nat) (known : α) :
    saturate grow rounds known = grow^[rounds] known := by
  induction rounds generalizing known with
  | zero => rfl
  | succ rounds ih =>
    rw [saturate_succ]
    exact ih (grow known)

namespace Automaton
variable {a : Automaton} {s t : StateSet} {q p : State} {x : Symbol}

def EpsilonMove (a : Automaton) (q p : State) : Prop := ⟨q, .epsilon, p⟩ ∈ a.transitions

def EpsilonChain (a : Automaton) : State → State → Prop := Relation.ReflTransGen a.EpsilonMove

/-- No move that reads nothing leaves `s`. -/
def EpsilonClosed (a : Automaton) (s : StateSet) : Prop := ∀ q ∈ s, ∀ p, a.EpsilonMove q p → p ∈ s

theorem mem_epsilonClosureOfSet :
    p ∈ a.epsilonClosureOfSet s ↔ ∃ q ∈ s, a.EpsilonChain q p := by
  have hspace : ∀ q, ∀ p ∈ a.targets q .epsilon, p ∈ a.states.toList := fun q p hp =>
    a.valid.target_mem _ (mem_targets.mp hp)
  have hbound : a.states.toList.length ≤ a.states.size := Nat.le_refl _
  rw [epsilonClosureOfSet, SortedSet.mem_ofList, Exploration.mem_closure hspace hbound]
  simp only [mem_targets]
  rfl

theorem mem_epsilonClosure : p ∈ a.epsilonClosure q ↔ a.EpsilonChain q p := by
  simp [epsilonClosure, mem_epsilonClosureOfSet]

theorem subset_epsilonClosureOfSet (hq : q ∈ s) : q ∈ a.epsilonClosureOfSet s :=
  mem_epsilonClosureOfSet.mpr ⟨q, hq, .refl⟩

theorem epsilonClosed_epsilonClosureOfSet (a : Automaton) (s : StateSet) :
    a.EpsilonClosed (a.epsilonClosureOfSet s) := by
  intro q hq p hmove
  obtain ⟨r, hr, hchain⟩ := mem_epsilonClosureOfSet.mp hq
  exact mem_epsilonClosureOfSet.mpr ⟨r, hr, hchain.tail hmove⟩

theorem epsilonClosureOfSet_eq_self (h : a.EpsilonClosed s) : a.epsilonClosureOfSet s = s := by
  refine SortedSet.ext fun p => ⟨fun hp => ?_, subset_epsilonClosureOfSet⟩
  obtain ⟨q, hq, hchain⟩ := mem_epsilonClosureOfSet.mp hp
  induction hchain with
  | refl => exact hq
  | tail hchain hmove ih => exact h _ (ih (mem_epsilonClosureOfSet.mpr ⟨q, hq, hchain⟩)) _ hmove

/-- Closing adds states of the automaton only. -/
theorem states_of_mem_epsilonClosureOfSet (hs : ∀ q ∈ s, q ∈ a.states)
    (hp : p ∈ a.epsilonClosureOfSet s) : p ∈ a.states := by
  obtain ⟨q, hq, hchain⟩ := mem_epsilonClosureOfSet.mp hp
  induction hchain with
  | refl => exact hs q hq
  | tail hchain hmove _ => exact a.valid.target_mem _ hmove

/-! ### One move after another -/

theorem mem_epsilonStepOfSet :
    p ∈ a.epsilonStepOfSet s ↔ p ∈ s ∨ ∃ q ∈ s, a.EpsilonMove q p := by
  rw [epsilonStepOfSet, SortedSet.mem_union, mem_nextStatesOfSet]
  rfl

theorem subset_epsilonStepOfSet (hq : q ∈ s) : q ∈ a.epsilonStepOfSet s :=
  mem_epsilonStepOfSet.mpr (.inl hq)

theorem epsilonClosed_of_epsilonStepOfSet (h : a.epsilonStepOfSet s = s) : a.EpsilonClosed s := by
  intro q hq p hmove
  rw [← h]
  exact mem_epsilonStepOfSet.mpr (.inr ⟨q, hq, hmove⟩)

/-- A step is on the way to the closure and does not change where the way leads. -/
theorem epsilonClosureOfSet_epsilonStepOfSet (a : Automaton) (s : StateSet) :
    a.epsilonClosureOfSet (a.epsilonStepOfSet s) = a.epsilonClosureOfSet s := by
  refine SortedSet.ext fun p => ?_
  rw [mem_epsilonClosureOfSet, mem_epsilonClosureOfSet]
  constructor
  · rintro ⟨q, hq, hchain⟩
    rcases mem_epsilonStepOfSet.mp hq with hq | ⟨r, hr, hmove⟩
    · exact ⟨q, hq, hchain⟩
    · exact ⟨r, hr, .head hmove hchain⟩
  · rintro ⟨q, hq, hchain⟩
    exact ⟨q, subset_epsilonStepOfSet hq, hchain⟩

/-- A step that changes the set adds one of the states that were not in it. -/
theorem length_unknown_epsilonStepOfSet_lt (h : a.epsilonStepOfSet s ≠ s) :
    (Exploration.unknown a.states.toList (a.epsilonStepOfSet s).toList).length <
      (Exploration.unknown a.states.toList s.toList).length := by
  have hkept : ∀ q ∈ s, q ∈ a.epsilonStepOfSet s := fun q => subset_epsilonStepOfSet
  obtain ⟨p, hp, hnew⟩ := SortedSet.exists_mem_notMem hkept h
  obtain ⟨q, _, hmove⟩ := (mem_epsilonStepOfSet.mp hp).resolve_left hnew
  exact Exploration.length_unknown_lt hkept (a.valid.target_mem _ hmove) hnew hp

/-- The closure of a set of states, whether or not they are states of the automaton, holds exactly
what chains of `ε` moves lead to from them. Taking single moves over and over comes to the same set
after as many rounds as there are states, and stays there. -/
theorem epsilonClosureOfSet_exact (a : Automaton) (s : StateSet) :
    (∀ p, p ∈ a.epsilonClosureOfSet s ↔ ∃ q ∈ s, a.EpsilonChain q p) ∧
      ∀ n, a.epsilonStepOfSet^[a.states.size + n] s = a.epsilonClosureOfSet s := by
  refine ⟨fun p => mem_epsilonClosureOfSet, fun n => ?_⟩
  rw [← saturate_eq_iterate]
  have hchances : (Exploration.unknown a.states.toList s.toList).length ≤ a.states.size + n :=
    (List.length_filter_le _ _).trans (Nat.le_add_right _ n)
  have hfixed : a.EpsilonClosed (saturate a.epsilonStepOfSet (a.states.size + n) s) :=
    epsilonClosed_of_epsilonStepOfSet
      (saturate_fixed (fun t => (Exploration.unknown a.states.toList t.toList).length)
        (fun _ => length_unknown_epsilonStepOfSet_lt) hchances)
  have hclosure := saturate_induction
    (P := fun t => a.epsilonClosureOfSet t = a.epsilonClosureOfSet s)
    (fun t ht => (epsilonClosureOfSet_epsilonStepOfSet a t).trans ht) (a.states.size + n) rfl
  rw [← hclosure, epsilonClosureOfSet_eq_self hfixed]

/-! ### The states of a run -/

theorem mem_initial : p ∈ a.initial ↔ a.EpsilonChain a.start p := mem_epsilonClosure

theorem start_mem_initial (a : Automaton) : a.start ∈ a.initial := mem_initial.mpr .refl

theorem epsilonClosed_initial (a : Automaton) : a.EpsilonClosed a.initial :=
  epsilonClosed_epsilonClosureOfSet a _

theorem mem_step : p ∈ a.step s x ↔
    ∃ q ∈ s, ∃ r, ⟨q, x, r⟩ ∈ a.transitions ∧ a.EpsilonChain r p := by
  rw [step, mem_epsilonClosureOfSet]
  refine ⟨fun h => ?_, fun h => ?_⟩
  · obtain ⟨r, hr, hchain⟩ := h
    obtain ⟨q, hq, ht⟩ := mem_nextStatesOfSet.mp hr
    exact ⟨q, hq, r, ht, hchain⟩
  · obtain ⟨q, hq, r, ht, hchain⟩ := h
    exact ⟨r, mem_nextStatesOfSet.mpr ⟨q, hq, ht⟩, hchain⟩

theorem epsilonClosed_step (a : Automaton) (s : StateSet) (x : Symbol) :
    a.EpsilonClosed (a.step s x) := epsilonClosed_epsilonClosureOfSet a _

theorem states_of_mem_step (hp : p ∈ a.step s x) : p ∈ a.states :=
  states_of_mem_epsilonClosureOfSet (fun q hq => by
    obtain ⟨r, _, ht⟩ := mem_nextStatesOfSet.mp hq
    exact a.valid.target_mem _ ht) hp

/-- A symbol that is not declared leads nowhere. -/
theorem mem_alphabet_of_mem_step (hp : p ∈ a.step s x) : x ∈ a.alphabet := by
  obtain ⟨q, _, r, ht, _⟩ := mem_step.mp hp
  exact a.valid.symbol_mem _ ht

end Automaton
end FormalLanguage
