import FormalLanguage.Proofs.Automaton.Determinization

/-! What determinization builds.

The states of the result are the merged names of the sets that runs end in, and
its transitions join the set after a word to the set after one more letter
(`determinize_components`). No state is there without a word: a state that is
mentioned is a set's name, and a set that is not the first one is the target of a
transition. -/
namespace FormalLanguage.Automaton
variable {a d : Automaton} {s : StateSet} {q p : State} {w : Word} {x : Symbol} {t : Transition}

/-! ### Sets after words -/

/-- Every accessible set is the set after a word that is all letters. -/
theorem Accessible.exists_word (hs : a.Accessible s) :
    ∃ w, Symbol.epsilon ∉ w ∧ (∃ p, p ∈ a.run w) ∧ a.run w = s := by
  obtain ⟨hsome, w, rfl⟩ := hs
  refine ⟨w.letters, w.epsilon_notMem_letters, ?_⟩
  rw [run_letters]
  exact ⟨hsome, rfl⟩

/-- Where a word leads somewhere, it did so before its last letter. -/
theorem exists_mem_run_of_append (hx : x ≠ .epsilon) (hp : p ∈ a.run (w ++ [x])) :
    ∃ q, q ∈ a.run w := by
  rw [run_append_letter w hx] at hp
  obtain ⟨q, hq, _⟩ := mem_step.mp hp
  exact ⟨q, hq⟩

/-! ### States that are mentioned -/

/-- An automaton without states that nothing mentions. -/
def OnlyMentioned (d : Automaton) : Prop :=
  ∀ q ∈ d.states, q = d.start ∨ q ∈ d.finals ∨ ∃ t ∈ d.transitions, t.source = q ∨ t.target = q

theorem onlyMentioned_of_ofTransitions {ts : List Transition} {finals : List State}
    (h : ofTransitions q ts finals = .ok d) : d.OnlyMentioned := by
  intro p hp
  have hd : d.toComponents = mentioned q ts finals := toComponents_of_validate h
  rw [hd] at hp ⊢
  have hmem : ∀ t ∈ ts, t ∈ (mentioned q ts finals).transitions := fun t => SortedSet.mem_ofList.mpr
  rcases (mem_states_mentioned q ts finals p).mp hp with hp | hp | ⟨t, ht, hp⟩ | ⟨t, ht, hp⟩
  · exact .inl hp
  · exact .inr (.inl (SortedSet.mem_ofList.mpr hp))
  · exact .inr (.inr ⟨t, hmem t ht, .inl hp⟩)
  · exact .inr (.inr ⟨t, hmem t ht, .inr hp⟩)

theorem onlyMentioned_of_determinize (h : a.determinize = .ok d) : d.OnlyMentioned := by
  cases hshared : sharedName? a.accessibleSets with
  | some q =>
    rw [determinize_of_shared hshared] at h
    cases h
  | none =>
    rw [determinize, hshared] at h
    exact onlyMentioned_of_ofTransitions h

/-! ### Components of the result -/

namespace SubsetAutomaton

theorem start_eq_run (h : SubsetAutomaton a d) : d.start = State.merge (a.run []) := h.start_eq

theorem mem_transitions_iff (h : SubsetAutomaton a d) : t ∈ d.transitions ↔
    ∃ w x, Symbol.epsilon ∉ w ∧ x ≠ .epsilon ∧ (∃ p, p ∈ a.run (w ++ [x])) ∧
      t = ⟨State.merge (a.run w), x, State.merge (a.run (w ++ [x]))⟩ := by
  obtain ⟨source, x, target⟩ := t
  refine ⟨fun ht => ?_, fun ht => ?_⟩
  · obtain ⟨s, hs, x', s', hedge, heq⟩ := h.mem_transitions.mp ht
    obtain ⟨rfl, rfl, rfl⟩ := Transition.mk.inj heq
    obtain ⟨w, hw, _, rfl⟩ := hs.exists_word
    obtain ⟨hx, rfl, hsome⟩ := mem_setEdges.mp hedge
    have hx : x ≠ .epsilon := (mem_letters.mp hx).2
    rw [← run_append_letter w hx] at hsome ⊢
    exact ⟨w, x, hw, hx, hsome, rfl⟩
  · obtain ⟨w, y, hw, hy, ⟨p, hp⟩, heq⟩ := ht
    obtain ⟨rfl, rfl, rfl⟩ := Transition.mk.inj heq
    have hs : a.Accessible (a.run w) := ⟨exists_mem_run_of_append hy hp, w, rfl⟩
    rw [run_append_letter w hy] at hp ⊢
    exact (h.mem_transitions_merge hs).mpr ⟨hy, ⟨p, hp⟩, rfl⟩

/-- The set after any word is a state: the first one is the start state, and the others are targets
of transitions. -/
theorem merge_run_mem_states (h : SubsetAutomaton a d) (hw : Symbol.epsilon ∉ w)
    (hp : p ∈ a.run w) : State.merge (a.run w) ∈ d.states := by
  cases w using List.reverseRecOn with
  | nil =>
    rw [← h.start_eq_run]
    exact d.valid.start_mem
  | append_singleton w x =>
    obtain ⟨hw, hx⟩ := not_or.mp (mt List.mem_append.mpr hw)
    have hx : x ≠ .epsilon := fun heq => hx (List.mem_singleton.mpr heq.symm)
    exact d.valid.target_mem _ (h.mem_transitions_iff.mpr ⟨w, x, hw, hx, ⟨p, hp⟩, rfl⟩)

theorem mem_states_iff (h : SubsetAutomaton a d) (hd : d.OnlyMentioned) : q ∈ d.states ↔
    ∃ w, Symbol.epsilon ∉ w ∧ (∃ p, p ∈ a.run w) ∧ q = State.merge (a.run w) := by
  refine ⟨fun hq => ?_, fun hq => ?_⟩
  · suffices hs : ∃ s, a.Accessible s ∧ q = State.merge s by
      obtain ⟨s, hs, rfl⟩ := hs
      obtain ⟨w, hw, hsome, rfl⟩ := hs.exists_word
      exact ⟨w, hw, hsome, rfl⟩
    rcases hd q hq with rfl | hfinal | ⟨t, ht, hend⟩
    · exact ⟨a.initial, accessible_initial a, h.start_eq⟩
    · obtain ⟨s, hs, _, rfl⟩ := h.mem_finals.mp hfinal
      exact ⟨s, hs, rfl⟩
    · obtain ⟨s, hs, x, s', hedge, rfl⟩ := h.mem_transitions.mp ht
      obtain ⟨hx, rfl, p, hp⟩ := mem_setEdges.mp hedge
      rcases hend with rfl | rfl
      · exact ⟨s, hs, rfl⟩
      · exact ⟨a.step s x, hs.step (mem_letters.mp hx).2 hp, rfl⟩
  · obtain ⟨w, hw, ⟨p, hp⟩, rfl⟩ := hq
    exact h.merge_run_mem_states hw hp

theorem merge_mem_finals_iff (h : SubsetAutomaton a d) (hs : a.Accessible s) :
    State.merge s ∈ d.finals ↔ ∃ q ∈ s, q ∈ a.finals := by
  rw [h.mem_finals, ← hasFinal_iff]
  refine ⟨fun hfinal => ?_, fun hfinal => ⟨s, hs, hfinal, rfl⟩⟩
  obtain ⟨s', hs', hfinal, hname⟩ := hfinal
  rwa [h.merge_injective hs hs' hname]

/-- Reading the word whose set a state stands for leads to that state. -/
theorem exists_walk (h : SubsetAutomaton a d) (hp : p ∈ a.run w) :
    ∃ ts, d.Walk d.start ts (State.merge (a.run w)) := by
  have hmem : State.merge (a.run w) ∈ d.run w := by
    rw [h.run_eq]
    exact mem_merged.mpr ⟨⟨p, hp⟩, rfl⟩
  obtain ⟨ts, hwalk, _⟩ := mem_run.mp hmem
  exact ⟨ts, hwalk⟩

end SubsetAutomaton

/-- The result of determinization has the non-empty sets after words for states, under names that
tell them apart, and between them exactly the transitions that one more letter makes. -/
theorem determinize_components (h : a.determinize = .ok d) :
    d.start = State.merge (a.run []) ∧
      (∀ q, q ∈ d.states ↔ ∃ w, Symbol.epsilon ∉ w ∧ (∃ p, p ∈ a.run w) ∧
        q = State.merge (a.run w)) ∧
      (∀ v w, (∃ p, p ∈ a.run v) → (∃ p, p ∈ a.run w) → a.run v ≠ a.run w →
        State.merge (a.run v) ≠ State.merge (a.run w)) ∧
      (∀ t, t ∈ d.transitions ↔ ∃ w x, Symbol.epsilon ∉ w ∧ x ≠ .epsilon ∧
        (∃ p, p ∈ a.run (w ++ [x])) ∧
        t = ⟨State.merge (a.run w), x, State.merge (a.run (w ++ [x]))⟩) ∧
      (∀ w, (∃ p, p ∈ a.run w) →
        (State.merge (a.run w) ∈ d.finals ↔ ∃ q ∈ a.run w, q ∈ a.finals)) ∧
      (∀ x, x ∈ d.alphabet ↔ ∃ t ∈ d.transitions, t.symbol = x) ∧
      ∀ q ∈ d.states, ∃ ts, d.Walk d.start ts q := by
  have hd := subsetAutomaton_of_determinize h
  have hstates : ∀ q, q ∈ d.states ↔ ∃ w, Symbol.epsilon ∉ w ∧ (∃ p, p ∈ a.run w) ∧
      q = State.merge (a.run w) := fun q => hd.mem_states_iff (onlyMentioned_of_determinize h)
  refine ⟨hd.start_eq_run, hstates, fun v w hv hw hne hname => ?_, fun t => hd.mem_transitions_iff,
    fun w hw => hd.merge_mem_finals_iff ⟨hw, w, rfl⟩, fun x => hd.mem_alphabet, fun q hq => ?_⟩
  · exact hne (hd.merge_injective ⟨hv, v, rfl⟩ ⟨hw, w, rfl⟩ hname)
  · obtain ⟨w, _, ⟨p, hp⟩, rfl⟩ := (hstates q).mp hq
    exact hd.exists_walk hp

theorem circling_components : ∃ d, circling.determinize = .ok d ∧
    d.start = State.merge (circling.run []) ∧
      (∀ q, q ∈ d.states ↔ ∃ w, Symbol.epsilon ∉ w ∧ (∃ p, p ∈ circling.run w) ∧
        q = State.merge (circling.run w)) ∧
      (∀ v w, (∃ p, p ∈ circling.run v) → (∃ p, p ∈ circling.run w) →
        circling.run v ≠ circling.run w →
        State.merge (circling.run v) ≠ State.merge (circling.run w)) ∧
      (∀ t, t ∈ d.transitions ↔ ∃ w x, Symbol.epsilon ∉ w ∧ x ≠ .epsilon ∧
        (∃ p, p ∈ circling.run (w ++ [x])) ∧
        t = ⟨State.merge (circling.run w), x, State.merge (circling.run (w ++ [x]))⟩) ∧
      (∀ w, (∃ p, p ∈ circling.run w) →
        (State.merge (circling.run w) ∈ d.finals ↔ ∃ q ∈ circling.run w, q ∈ circling.finals)) ∧
      (∀ x, x ∈ d.alphabet ↔ ∃ t ∈ d.transitions, t.symbol = x) ∧
      ∀ q ∈ d.states, ∃ ts, d.Walk d.start ts q := by
  obtain ⟨d, hd⟩ := circling_determinizes
  exact ⟨d, hd, determinize_components hd⟩

end FormalLanguage.Automaton
