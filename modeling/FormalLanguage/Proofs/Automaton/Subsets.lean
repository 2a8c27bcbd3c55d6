import FormalLanguage.Automaton.Determinization
import FormalLanguage.Proofs.Automaton.Separation
import FormalLanguage.Proofs.Failure

/-! Determinization by subsets.

The search visits exactly the sets that runs end in, the empty set apart
(`mem_accessibleSets`). If no two of them share a merged name, the result is a
`SubsetAutomaton`, which says what its components are, and on every word it is in
the one state that stands for the set the source is in (`SubsetAutomaton.run_eq`). -/
namespace FormalLanguage
open Exploration

namespace Automaton
variable {a d : Automaton} {s t : StateSet} {q p : State} {w : Word} {x : Symbol}

/-! ### Accessible sets -/

/-- The sets of states that the automaton can be in after some word. -/
def Accessible (a : Automaton) (s : StateSet) : Prop := (∃ q, q ∈ s) ∧ ∃ w, a.run w = s

theorem accessible_initial (a : Automaton) : a.Accessible a.initial :=
  ⟨⟨a.start, start_mem_initial a⟩, [], rfl⟩

theorem Accessible.step (hs : a.Accessible s) (hx : x ≠ .epsilon) (hq : q ∈ a.step s x) :
    a.Accessible (a.step s x) := by
  obtain ⟨_, w, rfl⟩ := hs
  exact ⟨⟨q, hq⟩, w ++ [x], run_append_letter w hx⟩

theorem mem_setEdges : (x, t) ∈ a.setEdges s ↔
    x ∈ a.letters ∧ t = a.step s x ∧ ∃ q, q ∈ a.step s x := by
  simp only [setEdges, List.mem_filter, List.mem_map, Prod.mk.injEq, Bool.not_eq_true',
    SortedSet.isEmpty_eq_false_iff, SortedSet.mem_toList]
  refine ⟨fun h => ?_, fun h => ?_⟩
  · obtain ⟨⟨y, hy, rfl, rfl⟩, hmem⟩ := h
    exact ⟨hy, rfl, hmem⟩
  · obtain ⟨hx, rfl, hmem⟩ := h
    exact ⟨⟨x, hx, rfl, rfl⟩, hmem⟩

theorem mem_subsets_of_mem_setEdges (s : StateSet) :
    ∀ e ∈ a.setEdges s, e.2 ∈ a.states.subsets := by
  intro e he
  obtain ⟨_, hstep, _⟩ := mem_setEdges.mp he
  rw [hstep, SortedSet.mem_subsets]
  exact fun q hq => states_of_mem_step hq

theorem accessible_of_route (h : Route a.setEdges [a.initial] w s) : a.Accessible s := by
  induction h with
  | start hs =>
    rw [List.mem_singleton.mp hs]
    exact accessible_initial a
  | step _ hx ih =>
    obtain ⟨hletter, rfl, q, hq⟩ := mem_setEdges.mp hx
    exact ih.step (mem_letters.mp hletter).2 hq

theorem exists_route (hq : q ∈ a.run w) : ∃ v, Route a.setEdges [a.initial] v (a.run w) := by
  induction w using List.reverseRecOn generalizing q with
  | nil => exact ⟨[], .start (List.mem_singleton.mpr rfl)⟩
  | append_singleton w x ih =>
    by_cases hx : x = .epsilon
    · rw [hx, run_append_epsilon] at hq ⊢
      exact ih hq
    · rw [run_append_letter w hx] at hq ⊢
      obtain ⟨p, hp, _⟩ := mem_step.mp hq
      obtain ⟨v, hroute⟩ := ih hp
      have hletter : x ∈ a.letters := mem_letters.mpr ⟨mem_alphabet_of_mem_step hq, hx⟩
      exact ⟨v ++ [x], hroute.step (mem_setEdges.mpr ⟨hletter, rfl, q, hq⟩)⟩

theorem mem_accessibleSets : s ∈ a.accessibleSets ↔ a.Accessible s := by
  rw [accessibleSets, mem_reached mem_subsets_of_mem_setEdges (length_subsets_states a).le]
  refine ⟨fun h => ?_, fun h => ?_⟩
  · obtain ⟨w, hroute⟩ := h
    exact accessible_of_route hroute
  · obtain ⟨⟨q, hq⟩, w, rfl⟩ := h
    exact exists_route hq

/-! ### Shared names -/

theorem sharedAfter_eq_none_iff {given : List State} {sets : List StateSet} :
    sharedAfter given sets = none ↔
      (sets.map State.merge).Nodup ∧ ∀ s ∈ sets, State.merge s ∉ given := by
  induction sets generalizing given with
  | nil => simp [sharedAfter]
  | cons s rest ih =>
    unfold sharedAfter
    by_cases hs : State.merge s ∈ given
    · simp [hs]
    · rw [if_neg hs, ih, List.map_cons, List.nodup_cons, List.mem_map]
      refine ⟨fun h => ?_, fun h => ?_⟩
      · obtain ⟨hnodup, hgiven⟩ := h
        refine ⟨⟨fun hshared => ?_, hnodup⟩, fun t ht => ?_⟩
        · obtain ⟨t, ht, hname⟩ := hshared
          exact hgiven t ht (hname ▸ List.mem_cons_self ..)
        · rcases List.mem_cons.mp ht with rfl | ht
          · exact hs
          · exact fun h => hgiven t ht (List.mem_cons_of_mem _ h)
      · obtain ⟨⟨hfirst, hnodup⟩, hgiven⟩ := h
        refine ⟨hnodup, fun t ht hname => ?_⟩
        rcases List.mem_cons.mp hname with hname | hname
        · exact hfirst ⟨t, ht, hname⟩
        · exact hgiven t (List.mem_cons_of_mem _ ht) hname

theorem sharedName?_eq_none_iff {sets : List StateSet} :
    sharedName? sets = none ↔ (sets.map State.merge).Nodup := by
  rw [sharedName?, sharedAfter_eq_none_iff]
  exact and_iff_left fun _ _ => List.not_mem_nil

/-! ### The result -/

/-- `d` has the accessible sets of `a` for states, each under its merged name. -/
structure SubsetAutomaton (a d : Automaton) : Prop where
  start_eq : d.start = State.merge a.initial
  merge_injective : ∀ {s t}, a.Accessible s → a.Accessible t → State.merge s = State.merge t → s = t
  mem_transitions : ∀ {e}, e ∈ d.transitions ↔ ∃ s, a.Accessible s ∧
    ∃ x t, (x, t) ∈ a.setEdges s ∧ e = ⟨State.merge s, x, State.merge t⟩
  mem_finals : ∀ {q}, q ∈ d.finals ↔ ∃ s, a.Accessible s ∧ a.hasFinal s = true ∧ q = State.merge s
  mem_alphabet : ∀ {x}, x ∈ d.alphabet ↔ ∃ e ∈ d.transitions, e.symbol = x

theorem subsetAutomaton_of_determinize (h : a.determinize = .ok d) : SubsetAutomaton a d := by
  cases hshared : sharedName? a.accessibleSets with
  | some q =>
    simp only [determinize, hshared] at h
    cases h
  | none =>
    simp only [determinize, hshared] at h
    have hnodup := sharedName?_eq_none_iff.mp hshared
    have hd := toComponents_of_validate h
    refine ⟨by rw [hd], fun {s t} hs ht hname => ?_, fun {e} => ?_, fun {q} => ?_, fun {x} => ?_⟩
    · exact List.inj_on_of_nodup_map hnodup (mem_accessibleSets.mpr hs) (mem_accessibleSets.mpr ht)
        hname
    · rw [hd, SortedSet.mem_ofList]
      simp only [List.mem_flatMap, mergedTransitions, List.mem_map, Prod.exists,
        mem_accessibleSets, eq_comm]
    · rw [hd, SortedSet.mem_ofList]
      simp only [List.mem_map, List.mem_filter, mem_accessibleSets, and_assoc, eq_comm]
    · rw [hd, SortedSet.mem_ofList, List.mem_map]
      simp only [SortedSet.mem_ofList]

/-! ### Automata that read on every transition -/

def EpsilonFree (a : Automaton) : Prop := ∀ e ∈ a.transitions, e.symbol ≠ .epsilon

theorem EpsilonFree.epsilonClosed (h : a.EpsilonFree) (s : StateSet) : a.EpsilonClosed s :=
  fun _ _ _ hmove => absurd rfl (h _ hmove)

theorem EpsilonFree.initial_eq (h : a.EpsilonFree) : a.initial = {a.start} :=
  epsilonClosureOfSet_eq_self (h.epsilonClosed _)

theorem EpsilonFree.step_eq (h : a.EpsilonFree) : a.step s x = a.nextStatesOfSet s x :=
  epsilonClosureOfSet_eq_self (h.epsilonClosed _)

theorem isDeterministic_of_functional (hfree : a.EpsilonFree)
    (hfunctional : ∀ {q x p p'}, ⟨q, x, p⟩ ∈ a.transitions → ⟨q, x, p'⟩ ∈ a.transitions → p = p') :
    a.isDeterministic = true := by
  rw [isDeterministic, List.all_eq_true]
  intro q _
  rw [List.all_eq_true]
  intro x _
  rw [epsilonClosureOfSet_eq_self (hfree.epsilonClosed _)]
  cases hnext : (a.nextStates q x).isEmpty with
  | true =>
    have hsize : (a.nextStates q x).size = 0 := by
      rw [SortedSet.size, List.length_eq_zero_iff]
      exact List.isEmpty_iff.mp hnext
    simp [hnext, hsize]
  | false =>
    obtain ⟨p, hp⟩ := SortedSet.isEmpty_eq_false_iff.mp hnext
    have ht := mem_nextStates.mp hp
    have hx : x.isEpsilon = false := by
      rw [← Bool.not_eq_true, Symbol.isEpsilon_iff]
      exact hfree _ ht
    have hsize : (a.nextStates q x).size ≤ 1 :=
      SortedSet.size_le_one fun p' hp' => hfunctional (mem_nextStates.mp hp') ht
    simp [hx, hsize]

/-! ### Running the result -/

/-- The state for a set of states, as a set; none for the empty one. -/
def merged (s : StateSet) : StateSet := if s.isEmpty then ∅ else {State.merge s}

theorem mem_merged : q ∈ merged s ↔ (∃ p, p ∈ s) ∧ q = State.merge s := by
  cases hs : s.isEmpty with
  | true =>
    have hnone := SortedSet.isEmpty_iff.mp hs
    simp [merged, hs, hnone]
  | false =>
    have hsome := SortedSet.isEmpty_eq_false_iff.mp hs
    simp [merged, hs, hsome]

namespace SubsetAutomaton

theorem epsilonFree (h : SubsetAutomaton a d) : d.EpsilonFree := by
  intro e he
  obtain ⟨s, _, x, t, hedge, rfl⟩ := h.mem_transitions.mp he
  exact (mem_letters.mp (mem_setEdges.mp hedge).1).2

theorem epsilon_notMem_alphabet (h : SubsetAutomaton a d) : Symbol.epsilon ∉ d.alphabet := by
  intro hepsilon
  obtain ⟨e, he, hsymbol⟩ := h.mem_alphabet.mp hepsilon
  exact h.epsilonFree e he hsymbol

/-- The one transition on `x` out of the state for `s` leads to the state for what `x` leads to. -/
theorem mem_transitions_merge (h : SubsetAutomaton a d) (hs : a.Accessible s) :
    ⟨State.merge s, x, p⟩ ∈ d.transitions ↔
      x ≠ .epsilon ∧ (∃ q, q ∈ a.step s x) ∧ p = State.merge (a.step s x) := by
  rw [h.mem_transitions]
  refine ⟨fun he => ?_, fun he => ?_⟩
  · obtain ⟨s', hs', x', t, hedge, heq⟩ := he
    obtain ⟨hname, rfl, rfl⟩ := Transition.mk.inj heq
    obtain rfl := h.merge_injective hs hs' hname
    obtain ⟨hx, rfl, hsome⟩ := mem_setEdges.mp hedge
    exact ⟨(mem_letters.mp hx).2, hsome, rfl⟩
  · obtain ⟨hx, ⟨q, hq⟩, rfl⟩ := he
    have hletter : x ∈ a.letters := mem_letters.mpr ⟨mem_alphabet_of_mem_step hq, hx⟩
    exact ⟨s, hs, x, _, mem_setEdges.mpr ⟨hletter, rfl, q, hq⟩, rfl⟩

theorem isDeterministic (h : SubsetAutomaton a d) : d.isDeterministic = true := by
  refine isDeterministic_of_functional h.epsilonFree fun {q x p p'} he he' => ?_
  obtain ⟨s, hs, _, _, _, heq⟩ := h.mem_transitions.mp he
  rw [(Transition.mk.inj heq).1] at he he'
  have hp := ((h.mem_transitions_merge hs).mp he).2.2
  have hp' := ((h.mem_transitions_merge hs).mp he').2.2
  rw [hp, hp']

theorem step_merged (h : SubsetAutomaton a d) (hs : (∃ q, q ∈ s) → a.Accessible s)
    (hx : x ≠ .epsilon) : d.step (merged s) x = merged (a.step s x) := by
  rw [h.epsilonFree.step_eq]
  refine SortedSet.ext fun p => ?_
  rw [mem_nextStatesOfSet, mem_merged]
  refine ⟨fun hp => ?_, fun hp => ?_⟩
  · obtain ⟨q, hq, he⟩ := hp
    obtain ⟨hsome, rfl⟩ := mem_merged.mp hq
    exact ((h.mem_transitions_merge (hs hsome)).mp he).2
  · obtain ⟨⟨q, hq⟩, rfl⟩ := hp
    obtain ⟨r, hr, _⟩ := mem_step.mp hq
    have he := (h.mem_transitions_merge (hs ⟨r, hr⟩)).mpr ⟨hx, ⟨q, hq⟩, rfl⟩
    exact ⟨State.merge s, mem_merged.mpr ⟨⟨r, hr⟩, rfl⟩, he⟩

/-- After any word the result is in the state for the set that the source is in. -/
theorem run_eq (h : SubsetAutomaton a d) (w : Word) : d.run w = merged (a.run w) := by
  induction w using List.reverseRecOn with
  | nil =>
    have hsome : ∃ q, q ∈ a.initial := ⟨a.start, start_mem_initial a⟩
    show d.initial = merged a.initial
    rw [h.epsilonFree.initial_eq, h.start_eq]
    refine SortedSet.ext fun q => ?_
    rw [SortedSet.mem_singleton, mem_merged]
    exact (and_iff_right hsome).symm
  | append_singleton w x ih =>
    by_cases hx : x = .epsilon
    · rw [hx, run_append_epsilon, run_append_epsilon, ih]
    · rw [run_append_letter w hx, run_append_letter w hx, ih]
      exact h.step_merged (fun hsome => ⟨hsome, w, rfl⟩) hx

theorem accepts_eq (h : SubsetAutomaton a d) (w : Word) : d.accepts w = a.accepts w := by
  rw [accepts, accepts, h.run_eq, Bool.eq_iff_iff, hasFinal_iff]
  refine ⟨fun hq => ?_, fun hfinal => ?_⟩
  · obtain ⟨q, hq, hfinal⟩ := hq
    obtain ⟨hsome, rfl⟩ := mem_merged.mp hq
    obtain ⟨s, hs, hfinal, hname⟩ := h.mem_finals.mp hfinal
    rwa [h.merge_injective ⟨hsome, w, rfl⟩ hs hname]
  · obtain ⟨q, hq, _⟩ := hasFinal_iff.mp hfinal
    have hs : a.Accessible (a.run w) := ⟨⟨q, hq⟩, w, rfl⟩
    exact ⟨_, mem_merged.mpr ⟨⟨q, hq⟩, rfl⟩, h.mem_finals.mpr ⟨_, hs, hfinal, rfl⟩⟩

end SubsetAutomaton

/-- Determinization gives a deterministic automaton that accepts the same words. -/
theorem determinize_keeps_language (h : a.determinize = .ok d) :
    (∀ w, d.accepts w = a.accepts w) ∧ d.isDeterministic = true ∧
      Symbol.epsilon ∉ d.alphabet ∧ a.separatingWord? d = none := by
  have hd := subsetAutomaton_of_determinize h
  refine ⟨hd.accepts_eq, hd.isDeterministic, hd.epsilon_notMem_alphabet, ?_⟩
  exact separatingWord?_eq_none_iff.mpr fun w => (hd.accepts_eq w).symm

/-- Two states that reach each other for nothing, and a final state that reads `b` alone. -/
def circling : Automaton where
  alphabet := .ofList [.epsilon, .ofChars ['a'], .ofChars ['b']]
  states := .ofList [.ofChars ['p'], .ofChars ['q'], .ofChars ['r']]
  finals := .ofList [.ofChars ['r']]
  start := .ofChars ['p']
  transitions := .ofList [
    ⟨.ofChars ['p'], .epsilon, .ofChars ['q']⟩, ⟨.ofChars ['q'], .epsilon, .ofChars ['p']⟩,
    ⟨.ofChars ['q'], .ofChars ['a'], .ofChars ['q']⟩,
    ⟨.ofChars ['q'], .ofChars ['a'], .ofChars ['r']⟩,
    ⟨.ofChars ['r'], .ofChars ['b'], .ofChars ['p']⟩]
  valid := Components.defect?_eq_none_iff.mp (by decide)

theorem circling_determinizes : ∃ d, circling.determinize = .ok d := exists_of_isOk (by decide)

theorem circling_keeps_language : ∃ d, circling.determinize = .ok d ∧
    (∀ w, d.accepts w = circling.accepts w) ∧ d.isDeterministic = true ∧
      Symbol.epsilon ∉ d.alphabet ∧ circling.separatingWord? d = none := by
  obtain ⟨d, hd⟩ := circling_determinizes
  exact ⟨d, hd, determinize_keeps_language hd⟩

end Automaton
end FormalLanguage
