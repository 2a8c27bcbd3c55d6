import FormalLanguage.Automaton.SuccessorIndex

/-! Finite automata over named states and symbols.

An automaton is its components together with the fact that they fit: the start
state and the final states are states, there is a final state, and transitions
join states by symbols of the alphabet. `defect?` names the first thing wrong
with components that do not fit, `defect?_eq_none_iff` says that it finds
something exactly when they do not, and `validate` is the only way to build an
automaton from unchecked components.

The transitions are kept twice, as a set and in an index by source and symbol. The
index is the one of the set, so automata are equal if their components are. -/
namespace FormalLanguage

inductive AutomatonError where
  | unknownStart (q : State)
  | unknownFinal (q : State)
  | noFinals
  | unknownSource (t : Transition)
  | unknownTarget (t : Transition)
  | undeclaredSymbol (t : Transition)
  /-- Two different sets of states are merged into one name. -/
  | ambiguousMerge (q : State)
deriving DecidableEq

def AutomatonError.message : AutomatonError → String
  | .unknownStart q => s!"start state `{q.text}` is not an element of the set of states"
  | .unknownFinal q => s!"final state `{q.text}` is not an element of the set of states"
  | .noFinals => "there must be at least one final state"
  | .unknownSource t =>
    s!"source state of transition `{t.text}` is not an element of the set of states"
  | .unknownTarget t =>
    s!"target state of transition `{t.text}` is not an element of the set of states"
  | .undeclaredSymbol t => s!"symbol of transition `{t.text}` is not in the alphabet"
  | .ambiguousMerge q =>
    s!"merged state `{q.text}` would stand for two different sets of states"

structure Automaton.Components where
  alphabet : SymbolSet
  states : StateSet
  finals : StateSet
  start : State
  transitions : SortedSet Transition
deriving DecidableEq

namespace Automaton.Components

/-- What makes components those of an automaton. -/
structure Valid (c : Components) : Prop where
  start_mem : c.start ∈ c.states
  finals_mem : ∀ q ∈ c.finals, q ∈ c.states
  finals_nonempty : ∃ q, q ∈ c.finals
  source_mem : ∀ t ∈ c.transitions, t.source ∈ c.states
  target_mem : ∀ t ∈ c.transitions, t.target ∈ c.states
  symbol_mem : ∀ t ∈ c.transitions, t.symbol ∈ c.alphabet

/-! ### The first defect -/

def startDefect? (c : Components) : Option AutomatonError :=
  if c.start ∈ c.states then none else some (.unknownStart c.start)

def unknownFinal? (c : Components) : Option AutomatonError :=
  (c.finals.toList.find? (· ∉ c.states)).map .unknownFinal

def missingFinals? (c : Components) : Option AutomatonError :=
  if c.finals.isEmpty then some .noFinals else none

def endpointDefect? (c : Components) : Option AutomatonError :=
  c.transitions.toList.findSome? fun t =>
    if t.source ∉ c.states then some (.unknownSource t)
    else if t.target ∉ c.states then some (.unknownTarget t)
    else none

def undeclaredSymbol? (c : Components) : Option AutomatonError :=
  (c.transitions.toList.find? (·.symbol ∉ c.alphabet)).map .undeclaredSymbol

/-- The least offender of the first rule that is broken. The endpoints of all transitions are
looked at before the symbol of any. -/
def defect? (c : Components) : Option AutomatonError :=
  c.startDefect? <|> c.unknownFinal? <|> c.missingFinals? <|> c.endpointDefect? <|>
    c.undeclaredSymbol?

theorem startDefect?_eq_none_iff {c : Components} :
    c.startDefect? = none ↔ c.start ∈ c.states := by
  simp [startDefect?]

theorem unknownFinal?_eq_none_iff {c : Components} :
    c.unknownFinal? = none ↔ ∀ q ∈ c.finals, q ∈ c.states := by
  simp [unknownFinal?, SortedSet.mem_toList]

theorem missingFinals?_eq_none_iff {c : Components} :
    c.missingFinals? = none ↔ ∃ q, q ∈ c.finals := by
  rw [missingFinals?]
  split
  · next h => simpa using SortedSet.isEmpty_iff.mp h
  · next h => simpa [SortedSet.isEmpty_iff] using h

theorem endpointDefect?_eq_none_iff {c : Components} :
    c.endpointDefect? = none ↔
      ∀ t ∈ c.transitions, t.source ∈ c.states ∧ t.target ∈ c.states := by
  rw [endpointDefect?, List.findSome?_eq_none_iff]
  refine forall_congr' fun t => imp_congr_right fun _ => ?_
  by_cases hs : t.source ∈ c.states <;> by_cases ht : t.target ∈ c.states <;> simp [hs, ht]

theorem undeclaredSymbol?_eq_none_iff {c : Components} :
    c.undeclaredSymbol? = none ↔ ∀ t ∈ c.transitions, t.symbol ∈ c.alphabet := by
  simp [undeclaredSymbol?, SortedSet.mem_toList]

theorem defect?_eq_none_iff {c : Components} : c.defect? = none ↔ c.Valid := by
  simp only [defect?, Option.orElse_eq_orElse, Option.orElse_eq_or, Option.or_eq_none_iff,
    startDefect?_eq_none_iff, unknownFinal?_eq_none_iff, missingFinals?_eq_none_iff,
    endpointDefect?_eq_none_iff, undeclaredSymbol?_eq_none_iff]
  constructor
  · rintro ⟨hstart, hfinals, hsome, hends, hsymbols⟩
    exact ⟨hstart, hfinals, hsome, fun t ht => (hends t ht).1, fun t ht => (hends t ht).2, hsymbols⟩
  · rintro ⟨hstart, hfinals, hsome, hsources, htargets, hsymbols⟩
    exact ⟨hstart, hfinals, hsome, fun t ht => ⟨hsources t ht, htargets t ht⟩, hsymbols⟩

end Automaton.Components

structure Automaton extends Automaton.Components where
  valid : toComponents.Valid
  successors : SuccessorIndex := .ofList transitions.toList
  successors_eq : successors = .ofList transitions.toList := by rfl

namespace Automaton

theorem toComponents_injective {a b : Automaton} (h : a.toComponents = b.toComponents) : a = b := by
  obtain ⟨c, _, _, rfl⟩ := a
  obtain ⟨c', _, _, rfl⟩ := b
  obtain rfl : c = c' := h
  rfl

instance : DecidableEq Automaton := fun a b =>
  decidable_of_iff (a.toComponents = b.toComponents) ⟨toComponents_injective, fun h => h ▸ rfl⟩

def validate (c : Components) : Except AutomatonError Automaton :=
  match h : c.defect? with
  | some e => .error e
  | none => .ok { toComponents := c, valid := Components.defect?_eq_none_iff.mp h }

theorem validate_eq_ok {c : Components} (hc : c.Valid) :
    validate c = .ok { toComponents := c, valid := hc } := by
  unfold validate
  split
  · next e he =>
    rw [Components.defect?_eq_none_iff.mpr hc] at he
    cases he
  · rfl

theorem validate_toComponents (a : Automaton) : validate a.toComponents = .ok a := by
  rw [validate_eq_ok a.valid]
  exact congrArg Except.ok (toComponents_injective rfl)

theorem validate_eq_error {c : Components} {e : AutomatonError} (hc : c.defect? = some e) :
    validate c = .error e := by
  unfold validate
  split
  · next e' he =>
    rw [hc] at he
    rw [Option.some.inj he]
  · next he =>
    rw [hc] at he
    cases he

theorem toComponents_of_validate {c : Components} {a : Automaton} (h : validate c = .ok a) :
    a.toComponents = c := by
  unfold validate at h
  split at h
  · exact absurd h (by simp)
  · rw [← Except.ok.inj h]

/-- Automata with the same start state, symbols, states and transitions are equal. -/
theorem ext_of_mem {a b : Automaton} (hstart : a.start = b.start)
    (halphabet : ∀ x, x ∈ a.alphabet ↔ x ∈ b.alphabet) (hstates : ∀ q, q ∈ a.states ↔ q ∈ b.states)
    (hfinals : ∀ q, q ∈ a.finals ↔ q ∈ b.finals)
    (htransitions : ∀ t, t ∈ a.transitions ↔ t ∈ b.transitions) : a = b := by
  refine toComponents_injective ?_
  obtain ⟨⟨alphabet, states, finals, start, transitions⟩, _⟩ := a
  obtain ⟨⟨alphabet', states', finals', start', transitions'⟩, _⟩ := b
  obtain rfl : start = start' := hstart
  obtain rfl : alphabet = alphabet' := SortedSet.ext halphabet
  obtain rfl : states = states' := SortedSet.ext hstates
  obtain rfl : finals = finals' := SortedSet.ext hfinals
  obtain rfl : transitions = transitions' := SortedSet.ext htransitions
  rfl

/-- The automaton with the given components, listed in any order and any number of times. -/
def ofLists (alphabet : List Symbol) (states finals : List State) (start : State)
    (transitions : List Transition) : Except AutomatonError Automaton :=
  validate ⟨.ofList alphabet, .ofList states, .ofList finals, start, .ofList transitions⟩

/-- The automaton whose states and symbols are those that are mentioned. -/
def ofTransitions (start : State) (transitions : List Transition) (finals : List State) :
    Except AutomatonError Automaton :=
  ofLists (transitions.map (·.symbol))
    (start :: finals ++ transitions.map (·.source) ++ transitions.map (·.target))
    finals start transitions

def isFinal (a : Automaton) (q : State) : Bool := q ∈ a.finals

def letters (a : Automaton) : SymbolSet := a.alphabet.letters

end Automaton
end FormalLanguage
