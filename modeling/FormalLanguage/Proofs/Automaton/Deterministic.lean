import FormalLanguage.Proofs.Automaton.SubsetStates

/-! Determinizing what is deterministic.

A deterministic automaton is in one state after a word, or stuck. So its accessible
sets are its reachable states, one by one, and each is merged into itself, whatever
names the states have: no two sets share a name, and the result is the part of the
automaton that its start state reaches (`Deterministic.exists_determinize`). Where that
is everything, nothing changes, and that is so for every result of determinization
(`determinize_determinized`). -/
namespace FormalLanguage.Automaton
variable {a d : Automaton} {s : StateSet} {q p p' : State} {w : Word} {x : Symbol} {t : Transition}

/-! ### Reachable states -/

/-- Some walk leads from the start state to `q`. -/
def Reachable (a : Automaton) (q : State) : Prop := ∃ ts, a.Walk a.start ts q

theorem reachable_iff : a.Reachable q ↔ ∃ w, q ∈ a.run w := by
  constructor
  · rintro ⟨ts, hwalk⟩
    exact ⟨wordOf ts, mem_run.mpr ⟨ts, hwalk, (Word.letters_letters _).symm⟩⟩
  · rintro ⟨w, hq⟩
    obtain ⟨ts, hwalk, _⟩ := mem_run.mp hq
    exact ⟨ts, hwalk⟩

theorem Reachable.mem_states (h : a.Reachable q) : q ∈ a.states := by
  obtain ⟨ts, hwalk⟩ := h
  exact hwalk.mem_states a.valid.start_mem

theorem hasFinal_singleton : a.hasFinal {q} = true ↔ q ∈ a.finals := by
  simp [hasFinal_iff]

theorem exists_accepts_iff : (∃ w, a.accepts w = true) ↔ ∃ q ∈ a.finals, a.Reachable q := by
  simp only [accepts, hasFinal_iff, reachable_iff]
  constructor
  · rintro ⟨w, q, hq, hfinal⟩
    exact ⟨q, hfinal, w, hq⟩
  · rintro ⟨q, hfinal, w, hq⟩
    exact ⟨w, q, hq, hfinal⟩

/-! ### Runs of deterministic automata -/

/-- Every transition reads, and no two lead from one state by one symbol to different states. -/
structure Deterministic (a : Automaton) : Prop where
  epsilonFree : a.EpsilonFree
  functional : ∀ {q x p p'}, ⟨q, x, p⟩ ∈ a.transitions → ⟨q, x, p'⟩ ∈ a.transitions → p = p'

/-- What the test looks at contains the targets of all transitions, since their symbols are
declared. -/
theorem deterministic_of_isDeterministic (h : a.isDeterministic = true) : a.Deterministic := by
  have htest : ∀ t ∈ a.transitions,
      let next := a.epsilonClosureOfSet (a.nextStates t.source t.symbol)
      (t.symbol ≠ .epsilon ∨ next.isEmpty = true) ∧ next.size ≤ 1 := by
    intro t ht
    have hstate := List.all_eq_true.mp h t.source (a.valid.source_mem t ht)
    have hsymbol := List.all_eq_true.mp hstate t.symbol (a.valid.symbol_mem t ht)
    simpa [← Symbol.isEpsilon_iff, Bool.and_eq_true, or_iff_not_imp_left] using hsymbol
  have hnext : ∀ {q x p}, ⟨q, x, p⟩ ∈ a.transitions →
      p ∈ a.epsilonClosureOfSet (a.nextStates q x) :=
    fun ht => subset_epsilonClosureOfSet (mem_nextStates.mpr ht)
  constructor
  · intro t ht
    refine (htest t ht).1.resolve_right fun hempty => ?_
    exact SortedSet.isEmpty_iff.mp hempty t.target (hnext ht)
  · intro q x p p' ht ht'
    exact SortedSet.eq_of_size_le_one (htest _ ht).2 (hnext ht) (hnext ht')

/-- The test finds out exactly whether there is no move that reads nothing, not even from a state
to itself, and no state with moves to different states on one symbol. -/
theorem isDeterministic_exact (a : Automaton) : a.isDeterministic = true ↔
    (∀ t ∈ a.transitions, t.symbol ≠ .epsilon) ∧
      ∀ t ∈ a.transitions, ∀ t' ∈ a.transitions, t.source = t'.source → t.symbol = t'.symbol →
        t.target = t'.target := by
  constructor
  · intro htest
    have h := deterministic_of_isDeterministic htest
    refine ⟨h.epsilonFree, fun t ht t' ht' hsource hsymbol => ?_⟩
    have hmove : ⟨t.source, t.symbol, t'.target⟩ ∈ a.transitions := by
      rw [hsource, hsymbol]
      exact ht'
    exact h.functional ht hmove
  · rintro ⟨hfree, hfunctional⟩
    exact isDeterministic_of_functional hfree fun ht ht' => hfunctional _ ht _ ht' rfl rfl

namespace Deterministic

theorem mem_step_singleton (h : a.Deterministic) :
    p ∈ a.step {q} x ↔ ⟨q, x, p⟩ ∈ a.transitions := by
  simp [h.epsilonFree.step_eq, mem_nextStatesOfSet]

/-- A run never splits. -/
theorem run_eq_singleton (h : a.Deterministic) (hp : p ∈ a.run w) : a.run w = {p} := by
  induction w using List.reverseRecOn generalizing p with
  | nil =>
    have hstart : a.run [] = {a.start} := h.epsilonFree.initial_eq
    rw [hstart, SortedSet.mem_singleton] at hp
    rw [hstart, hp]
  | append_singleton w x ih =>
    by_cases hx : x = .epsilon
    · rw [hx, run_append_epsilon] at hp ⊢
      exact ih hp
    · rw [run_append_letter w hx] at hp ⊢
      obtain ⟨q, hq, _⟩ := mem_step.mp hp
      rw [ih hq] at hp ⊢
      refine SortedSet.ext fun p' => ?_
      rw [SortedSet.mem_singleton]
      constructor
      · exact fun hp' => h.functional (h.mem_step_singleton.mp hp') (h.mem_step_singleton.mp hp)
      · rintro rfl
        exact hp

theorem accessible_iff (h : a.Deterministic) :
    a.Accessible s ↔ ∃ q, a.Reachable q ∧ s = {q} := by
  constructor
  · rintro ⟨⟨q, hq⟩, w, rfl⟩
    exact ⟨q, reachable_iff.mpr ⟨w, hq⟩, h.run_eq_singleton hq⟩
  · rintro ⟨q, hq, rfl⟩
    obtain ⟨w, hq⟩ := reachable_iff.mp hq
    exact ⟨⟨q, SortedSet.mem_singleton.mpr rfl⟩, w, h.run_eq_singleton hq⟩

theorem mem_setEdges_singleton (h : a.Deterministic) :
    (x, s) ∈ a.setEdges {q} ↔ ∃ p, ⟨q, x, p⟩ ∈ a.transitions ∧ s = {p} := by
  rw [mem_setEdges]
  have hstep : ∀ {p}, ⟨q, x, p⟩ ∈ a.transitions → a.step {q} x = {p} := fun ht => by
    refine SortedSet.ext fun p' => ?_
    rw [h.mem_step_singleton, SortedSet.mem_singleton]
    exact ⟨fun ht' => h.functional ht' ht, fun hp' => hp' ▸ ht⟩
  constructor
  · rintro ⟨_, rfl, p, hp⟩
    have ht := h.mem_step_singleton.mp hp
    exact ⟨p, ht, hstep ht⟩
  · rintro ⟨p, ht, rfl⟩
    have hletter : x ∈ a.letters := mem_letters.mpr ⟨a.valid.symbol_mem _ ht, h.epsilonFree _ ht⟩
    exact ⟨hletter, (hstep ht).symm, p, h.mem_step_singleton.mpr ht⟩

/-- Single states keep their names, so no two of them share one. -/
theorem not_sharedName (h : a.Deterministic) (m : State) : ¬ a.SharedName m := by
  rintro ⟨s, t, hs, ht, hne, rfl, hname⟩
  obtain ⟨q, _, rfl⟩ := h.accessible_iff.mp hs
  obtain ⟨p, _, rfl⟩ := h.accessible_iff.mp ht
  obtain rfl : p = q := hname
  exact hne rfl

end Deterministic

/-! ### The part that is reached -/

/-- `d` is what is left of `a` without the states that its start state does not reach. -/
structure ReachablePart (a d : Automaton) : Prop where
  start_eq : d.start = a.start
  mem_states : ∀ {q}, q ∈ d.states ↔ q ∈ a.states ∧ a.Reachable q
  mem_finals : ∀ {q}, q ∈ d.finals ↔ q ∈ a.finals ∧ a.Reachable q
  mem_transitions : ∀ {t}, t ∈ d.transitions ↔ t ∈ a.transitions ∧ a.Reachable t.source
  mem_alphabet : ∀ {x}, x ∈ d.alphabet ↔ ∃ t ∈ d.transitions, t.symbol = x

/-- Where everything is reached and every symbol is used, everything is left. -/
theorem ReachablePart.eq_self (h : ReachablePart a d) (hstates : ∀ q ∈ a.states, a.Reachable q)
    (halphabet : ∀ x ∈ a.alphabet, ∃ t ∈ a.transitions, t.symbol = x) : d = a := by
  have htransitions : ∀ t, t ∈ d.transitions ↔ t ∈ a.transitions := fun t => by
    rw [h.mem_transitions]
    exact and_iff_left_of_imp fun ht => hstates _ (a.valid.source_mem t ht)
  refine ext_of_mem h.start_eq (fun x => ?_) (fun q => ?_) (fun q => ?_) htransitions
  · simp only [h.mem_alphabet, htransitions]
    constructor
    · rintro ⟨t, ht, rfl⟩
      exact a.valid.symbol_mem t ht
    · exact halphabet x
  · rw [h.mem_states]
    exact and_iff_left_of_imp (hstates q)
  · rw [h.mem_finals]
    exact and_iff_left_of_imp fun hq => hstates q (a.valid.finals_mem q hq)

namespace SubsetAutomaton

theorem reachablePart (hd : SubsetAutomaton a d) (h : a.Deterministic) (hm : d.OnlyMentioned) :
    ReachablePart a d := by
  refine ⟨?_, fun {q} => ?_, fun {q} => ?_, fun {t} => ?_, hd.mem_alphabet⟩
  · rw [hd.start_eq, h.epsilonFree.initial_eq]
    rfl
  · rw [hd.mem_states_iff hm]
    constructor
    · rintro ⟨w, _, ⟨p, hp⟩, rfl⟩
      have hreach : a.Reachable p := reachable_iff.mpr ⟨w, hp⟩
      rw [h.run_eq_singleton hp]
      exact ⟨hreach.mem_states, hreach⟩
    · rintro ⟨_, hq⟩
      obtain ⟨w, hq⟩ := reachable_iff.mp hq
      rw [← run_letters] at hq
      refine ⟨w.letters, w.epsilon_notMem_letters, ⟨q, hq⟩, ?_⟩
      rw [h.run_eq_singleton hq]
      rfl
  · rw [hd.mem_finals]
    constructor
    · rintro ⟨s, hs, hfinal, rfl⟩
      obtain ⟨p, hp, rfl⟩ := h.accessible_iff.mp hs
      exact ⟨hasFinal_singleton.mp hfinal, hp⟩
    · rintro ⟨hfinal, hq⟩
      exact ⟨{q}, h.accessible_iff.mpr ⟨q, hq, rfl⟩, hasFinal_singleton.mpr hfinal, rfl⟩
  · rw [hd.mem_transitions]
    constructor
    · rintro ⟨s, hs, x, s', hedge, rfl⟩
      obtain ⟨q, hq, rfl⟩ := h.accessible_iff.mp hs
      obtain ⟨p, ht, rfl⟩ := h.mem_setEdges_singleton.mp hedge
      exact ⟨ht, hq⟩
    · rintro ⟨ht, hq⟩
      exact ⟨{t.source}, h.accessible_iff.mpr ⟨t.source, hq, rfl⟩, t.symbol, {t.target},
        h.mem_setEdges_singleton.mpr ⟨t.target, ht, rfl⟩, rfl⟩

theorem reachable (hd : SubsetAutomaton a d) (hm : d.OnlyMentioned) (hq : q ∈ d.states) :
    d.Reachable q := by
  obtain ⟨w, _, ⟨p, hp⟩, rfl⟩ := (hd.mem_states_iff hm).mp hq
  exact hd.exists_walk hp

end SubsetAutomaton

theorem Deterministic.exists_determinize (h : a.Deterministic)
    (hfinal : ∃ q ∈ a.finals, a.Reachable q) : ∃ d, a.determinize = .ok d ∧ ReachablePart a d := by
  rcases determinize_of_unshared h.not_sharedName with ⟨_, hreject⟩ | ⟨⟨d, hd⟩, _⟩
  · obtain ⟨w, hw⟩ := exists_accepts_iff.mpr hfinal
    exact absurd hw (by simp [hreject w])
  · exact ⟨d, hd, (subsetAutomaton_of_determinize hd).reachablePart h
      (onlyMentioned_of_determinize hd)⟩

theorem Deterministic.determinize_eq_error (h : a.Deterministic)
    (hfinal : ¬ ∃ q ∈ a.finals, a.Reachable q) : a.determinize = .error .noFinals := by
  rcases determinize_of_unshared h.not_sharedName with ⟨herror, _⟩ | ⟨_, hword⟩
  · exact herror
  · exact absurd (exists_accepts_iff.mp hword) hfinal

/-- Determinizing once is determinizing for good. -/
theorem determinize_determinized (h : a.determinize = .ok d) : d.determinize = .ok d := by
  have hd := subsetAutomaton_of_determinize h
  have hreach : ∀ q ∈ d.states, d.Reachable q :=
    fun q => hd.reachable (onlyMentioned_of_determinize h)
  have hdet : d.Deterministic := deterministic_of_isDeterministic hd.isDeterministic
  obtain ⟨q, hq⟩ := d.valid.finals_nonempty
  obtain ⟨d', hd', hpart⟩ :=
    hdet.exists_determinize ⟨q, hq, hreach q (d.valid.finals_mem q hq)⟩
  rwa [hpart.eq_self hreach fun x => hd.mem_alphabet.mp] at hd'

/-- Determinizing a deterministic automaton leaves the part that its start state reaches, and fails
exactly if there is no final state in it; so determinizing a second time changes nothing. -/
theorem determinize_deterministic (a : Automaton) :
    (a.isDeterministic = true →
      ((∃ q ∈ a.finals, a.Reachable q) → ∃ d, a.determinize = .ok d ∧ ReachablePart a d) ∧
        ((¬ ∃ q ∈ a.finals, a.Reachable q) → a.determinize = .error .noFinals)) ∧
      ∀ d, a.determinize = .ok d → d.determinize = .ok d := by
  refine ⟨fun htest => ?_, fun d => determinize_determinized⟩
  have h := deterministic_of_isDeterministic htest
  exact ⟨h.exists_determinize, h.determinize_eq_error⟩

/-- A start state named like the two others merged, and a final state that nothing leads to. -/
def detached : Automaton where
  alphabet := .ofList [.ofChars ['a'], .ofChars ['b'], .ofChars ['c'], .ofChars ['d']]
  states := .ofList [.ofChars ['p'], .ofChars ['q'], .ofChars ['r'],
    .ofChars ['{', 'p', ',', ' ', 'q', '}']]
  finals := .ofList [.ofChars ['q'], .ofChars ['r']]
  start := .ofChars ['{', 'p', ',', ' ', 'q', '}']
  transitions := .ofList [
    ⟨.ofChars ['{', 'p', ',', ' ', 'q', '}'], .ofChars ['a'], .ofChars ['p']⟩,
    ⟨.ofChars ['{', 'p', ',', ' ', 'q', '}'], .ofChars ['b'], .ofChars ['q']⟩,
    ⟨.ofChars ['p'], .ofChars ['a'], .ofChars ['{', 'p', ',', ' ', 'q', '}']⟩,
    ⟨.ofChars ['r'], .ofChars ['c'], .ofChars ['q']⟩]
  valid := Components.defect?_eq_none_iff.mp (by decide)

theorem detached_reachablePart : detached.isDeterministic = true ∧
    (∃ q ∈ detached.finals, detached.Reachable q) ∧ ∃ d, detached.determinize = .ok d ∧
      ReachablePart detached d ∧ d.determinize = .ok d := by
  have htest : detached.isDeterministic = true := by decide
  have hedge : ⟨detached.start, .ofChars ['b'], .ofChars ['q']⟩ ∈ detached.transitions := by decide
  have hreach : ∃ q ∈ detached.finals, detached.Reachable q :=
    ⟨.ofChars ['q'], by decide, [_], .cons hedge (.nil _)⟩
  obtain ⟨hpart, hagain⟩ := determinize_deterministic detached
  obtain ⟨d, hd, hpart⟩ := (hpart htest).1 hreach
  exact ⟨htest, hreach, d, hd, hpart, hagain d hd⟩

end FormalLanguage.Automaton
