import FormalLanguage.Proofs.Automaton.Subsets

/-! When determinization fails.

There are two ways to fail. Two accessible sets can share a merged name, and the
search for shared names finds one exactly then, since it looks at every accessible
set and at none twice. Otherwise the result is made of the transitions between the
sets, where everything mentioned is declared, so all it can lack is a final state
(`determinize_outcome`). No set that is merged on the way is empty, which
`determinizeGuarded` makes explicit by asking for every merging as callers do. -/
namespace FormalLanguage
namespace Automaton
variable {a : Automaton} {s t : StateSet} {q m : State}

/-! ### Automata made of transitions -/

/-- Components in which everything that is mentioned is declared. -/
structure Components.Declared (c : Components) : Prop where
  start_mem : c.start ∈ c.states
  finals_mem : ∀ q ∈ c.finals, q ∈ c.states
  ends_mem : ∀ t ∈ c.transitions, t.source ∈ c.states ∧ t.target ∈ c.states
  symbol_mem : ∀ t ∈ c.transitions, t.symbol ∈ c.alphabet

theorem Components.Declared.defect?_eq {c : Components} (hc : c.Declared) :
    c.defect? = c.missingFinals? := by
  rw [defect?, startDefect?_eq_none_iff.mpr hc.start_mem,
    unknownFinal?_eq_none_iff.mpr hc.finals_mem, endpointDefect?_eq_none_iff.mpr hc.ends_mem,
    undeclaredSymbol?_eq_none_iff.mpr hc.symbol_mem]
  cases c.missingFinals? <;> rfl

theorem Components.Declared.valid {c : Components} (hc : c.Declared) (hfinals : ∃ q, q ∈ c.finals) :
    c.Valid := by
  refine defect?_eq_none_iff.mp ?_
  rw [hc.defect?_eq, missingFinals?_eq_none_iff]
  exact hfinals

section Mentioned
variable (q : State) (ts : List Transition) (finals : List State)

/-- The components that `ofTransitions` makes of what is mentioned. -/
def mentioned : Components :=
  ⟨.ofList (ts.map (·.symbol)),
    .ofList (q :: finals ++ ts.map (·.source) ++ ts.map (·.target)), .ofList finals, q, .ofList ts⟩

theorem mem_states_mentioned (p : State) : p ∈ (mentioned q ts finals).states ↔
    p = q ∨ p ∈ finals ∨ (∃ t ∈ ts, t.source = p) ∨ ∃ t ∈ ts, t.target = p := by
  simp [mentioned]

theorem declared_mentioned : (mentioned q ts finals).Declared := by
  have hstates := mem_states_mentioned q ts finals
  refine ⟨(hstates q).mpr (.inl rfl), fun p hp => (hstates p).mpr (.inr (.inl ?_)), fun t ht => ?_,
    fun t ht => ?_⟩
  · exact SortedSet.mem_ofList.mp hp
  · have ht : t ∈ ts := SortedSet.mem_ofList.mp ht
    exact ⟨(hstates _).mpr (.inr (.inr (.inl ⟨t, ht, rfl⟩))),
      (hstates _).mpr (.inr (.inr (.inr ⟨t, ht, rfl⟩)))⟩
  · exact SortedSet.mem_ofList.mpr (List.mem_map_of_mem (SortedSet.mem_ofList.mp ht))

end Mentioned

theorem ofTransitions_nil (q : State) (ts : List Transition) :
    ofTransitions q ts [] = .error .noFinals :=
  validate_eq_error ((declared_mentioned q ts []).defect?_eq.trans rfl)

theorem exists_ofTransitions {finals : List State} (hfinals : finals ≠ []) (q : State)
    (ts : List Transition) : ∃ d, ofTransitions q ts finals = .ok d := by
  obtain ⟨p, hp⟩ := List.exists_mem_of_ne_nil finals hfinals
  have hvalid := (declared_mentioned q ts finals).valid ⟨p, SortedSet.mem_ofList.mpr hp⟩
  exact ⟨_, validate_eq_ok hvalid⟩

/-! ### Shared names -/

/-- Two different accessible sets are merged into `m`. -/
def SharedName (a : Automaton) (m : State) : Prop :=
  ∃ s t, a.Accessible s ∧ a.Accessible t ∧ s ≠ t ∧ State.merge s = m ∧ State.merge t = m

/-- A name is found because it was given before, or to an earlier set. -/
theorem sharedAfter_eq_some {given : List State} {sets : List StateSet}
    (h : sharedAfter given sets = some m) : ∃ before s after, sets = before ++ s :: after ∧
      State.merge s = m ∧ (m ∈ given ∨ ∃ t ∈ before, State.merge t = m) := by
  induction sets generalizing given with
  | nil => cases h
  | cons s rest ih =>
    unfold sharedAfter at h
    split at h
    · next hs =>
      obtain rfl := Option.some.inj h
      exact ⟨[], s, rest, rfl, rfl, .inl hs⟩
    · obtain ⟨before, t, after, rfl, ht, hgiven⟩ := ih h
      refine ⟨s :: before, t, after, rfl, ht, ?_⟩
      rcases hgiven with hgiven | ⟨u, hu, hname⟩
      · rcases List.mem_cons.mp hgiven with hs | hgiven
        · exact .inr ⟨s, List.mem_cons_self .., hs.symm⟩
        · exact .inl hgiven
      · exact .inr ⟨u, List.mem_cons_of_mem _ hu, hname⟩

theorem nodup_accessibleSets (a : Automaton) : a.accessibleSets.Nodup :=
  Exploration.nodup_reached _ _ _

theorem sharedName_of_sharedName? (h : sharedName? a.accessibleSets = some m) :
    a.SharedName m := by
  obtain ⟨before, s, after, hsets, hs, hgiven⟩ := sharedAfter_eq_some h
  obtain ⟨t, ht, hname⟩ := hgiven.resolve_left List.not_mem_nil
  -- No set is met twice, so the one with that name before it is another set.
  have hnodup := a.nodup_accessibleSets
  have hmem : s ∈ a.accessibleSets ∧ t ∈ a.accessibleSets := by
    rw [hsets]
    exact ⟨by simp, List.mem_append_left _ ht⟩
  rw [hsets] at hnodup
  have hne : t ≠ s := (List.nodup_append.mp hnodup).2.2 t ht s (List.mem_cons_self ..)
  exact ⟨s, t, mem_accessibleSets.mp hmem.1, mem_accessibleSets.mp hmem.2, hne.symm, hs, hname⟩

theorem sharedName?_eq_none_iff_forall :
    sharedName? a.accessibleSets = none ↔ ∀ m, ¬ a.SharedName m := by
  rw [sharedName?_eq_none_iff, List.nodup_map_iff_inj_on a.nodup_accessibleSets]
  simp only [mem_accessibleSets]
  refine ⟨fun h m hm => ?_, fun h s hs t ht hname => ?_⟩
  · obtain ⟨s, t, hs, ht, hne, rfl, hname⟩ := hm
    exact hne (h s hs t ht hname.symm)
  · by_contra hne
    exact h (State.merge s) ⟨s, t, hs, ht, hne, rfl, hname.symm⟩

/-! ### Merging what callers may merge -/

theorem mergeNonempty_eq (hq : q ∈ s) : State.mergeNonempty s = .ok (State.merge s) := by
  have hs : s.isEmpty = false := SortedSet.isEmpty_eq_false_iff.mpr ⟨q, hq⟩
  simp [State.mergeNonempty, State.merge?, hs]

theorem mergeNonempty_of_accessible (hs : a.Accessible s) :
    State.mergeNonempty s = .ok (State.merge s) := by
  obtain ⟨⟨q, hq⟩, _⟩ := hs
  exact mergeNonempty_eq hq

/-- The first name that is given already, before or earlier in the list. -/
def repeatedAfter (given : List State) : List State → Option State
  | [] => none
  | q :: rest => if q ∈ given then some q else repeatedAfter (q :: given) rest

theorem repeatedAfter_map (given : List State) (sets : List StateSet) :
    repeatedAfter given (sets.map State.merge) = sharedAfter given sets := by
  induction sets generalizing given with
  | nil => rfl
  | cons s rest ih =>
    rw [List.map_cons, repeatedAfter, sharedAfter, ih]

def guardedTransitions (a : Automaton) (s : StateSet) : Except Misuse (List Transition) := do
  let source ← State.mergeNonempty s
  (a.setEdges s).mapM fun (x, next) =>
    (State.mergeNonempty next).map fun target => ⟨source, x, target⟩

/-- Determinization that asks for every merging as callers do, who may not merge nothing. -/
def determinizeGuarded (a : Automaton) : Except Misuse (Except AutomatonError Automaton) := do
  let start ← State.mergeNonempty a.initial
  let names ← a.accessibleSets.mapM State.mergeNonempty
  match repeatedAfter [] names with
  | some q => return .error (.ambiguousMerge q)
  | none =>
    let transitions ← a.accessibleSets.mapM a.guardedTransitions
    let finals ← (a.accessibleSets.filter a.hasFinal).mapM State.mergeNonempty
    return ofTransitions start transitions.flatten finals

theorem guardedTransitions_eq (hs : a.Accessible s) :
    a.guardedTransitions s = .ok (a.mergedTransitions s) := by
  rw [guardedTransitions, mergeNonempty_of_accessible hs]
  refine mapM_eq_ok fun (x, next) he => ?_
  obtain ⟨_, rfl, q, hq⟩ := mem_setEdges.mp he
  show (State.mergeNonempty (a.step s x)).map _ = _
  rw [mergeNonempty_eq hq]
  rfl

theorem determinizeGuarded_eq (a : Automaton) : a.determinizeGuarded = .ok a.determinize := by
  have hname : ∀ s ∈ a.accessibleSets, State.mergeNonempty s = .ok (State.merge s) :=
    fun s hs => mergeNonempty_of_accessible (mem_accessibleSets.mp hs)
  have hedges : ∀ s ∈ a.accessibleSets, a.guardedTransitions s = .ok (a.mergedTransitions s) :=
    fun s hs => guardedTransitions_eq (mem_accessibleSets.mp hs)
  have hfinal : ∀ s ∈ a.accessibleSets.filter a.hasFinal,
      State.mergeNonempty s = .ok (State.merge s) := fun s hs => hname s (List.mem_filter.mp hs).1
  have hrepeated : repeatedAfter [] (a.accessibleSets.map State.merge) =
      sharedName? a.accessibleSets := repeatedAfter_map [] a.accessibleSets
  rw [determinizeGuarded, mergeNonempty_of_accessible (accessible_initial a), mapM_eq_ok hname,
    mapM_eq_ok hedges, mapM_eq_ok hfinal, determinize]
  simp only [bind, Except.bind, hrepeated]
  cases sharedName? a.accessibleSets with
  | some q => rfl
  | none =>
    rw [List.flatMap_def]
    rfl

/-! ### Outcomes -/

theorem determinize_of_shared (h : sharedName? a.accessibleSets = some m) :
    a.determinize = .error (.ambiguousMerge m) := by
  rw [determinize, h]

theorem exists_hasFinal_iff :
    (∃ s ∈ a.accessibleSets, a.hasFinal s = true) ↔ ∃ w, a.accepts w = true := by
  simp only [mem_accessibleSets]
  refine ⟨fun h => ?_, fun h => ?_⟩
  · obtain ⟨s, ⟨_, w, rfl⟩, hfinal⟩ := h
    exact ⟨w, hfinal⟩
  · obtain ⟨w, hfinal⟩ := h
    obtain ⟨q, hq, _⟩ := hasFinal_iff.mp hfinal
    exact ⟨a.run w, ⟨⟨q, hq⟩, w, rfl⟩, hfinal⟩

/-- Without a shared name, all that can be missing is an accepted word. -/
theorem determinize_of_unshared (h : ∀ m, ¬ a.SharedName m) :
    (a.determinize = .error .noFinals ∧ ∀ w, a.accepts w = false) ∨
      ((∃ d, a.determinize = .ok d) ∧ ∃ w, a.accepts w = true) := by
  rw [determinize, sharedName?_eq_none_iff_forall.mpr h]
  by_cases hword : ∃ w, a.accepts w = true
  · refine .inr ⟨exists_ofTransitions ?_ _ _, hword⟩
    obtain ⟨s, hs, hfinal⟩ := exists_hasFinal_iff.mpr hword
    exact List.ne_nil_of_mem (List.mem_map_of_mem (List.mem_filter.mpr ⟨hs, hfinal⟩))
  · have hnone : a.accessibleSets.filter a.hasFinal = [] :=
      List.filter_eq_nil_iff.mpr fun s hs hfinal => hword (exists_hasFinal_iff.mp ⟨s, hs, hfinal⟩)
    refine .inl ⟨?_, fun w => Bool.eq_false_iff.mpr fun hw => hword ⟨w, hw⟩⟩
    rw [hnone]
    exact ofTransitions_nil _ _

/-- Determinization fails with a shared name exactly if there is one, else for want of a final
state exactly if no word is accepted, and in no other way; it never merges nothing. -/
theorem determinize_outcome (a : Automaton) :
    ((∃ m, a.determinize = .error (.ambiguousMerge m)) ↔ ∃ m, a.SharedName m) ∧
      (∀ m, a.determinize = .error (.ambiguousMerge m) → a.SharedName m) ∧
      (a.determinize = .error .noFinals ↔
        (∀ m, ¬ a.SharedName m) ∧ ∀ w, a.accepts w = false) ∧
      ((∃ m, a.determinize = .error (.ambiguousMerge m)) ∨ a.determinize = .error .noFinals ∨
        ∃ d, a.determinize = .ok d) ∧
      a.determinizeGuarded = .ok a.determinize := by
  cases hshared : sharedName? a.accessibleSets with
  | some m =>
    have hm : a.SharedName m := sharedName_of_sharedName? hshared
    have herror := determinize_of_shared hshared
    refine ⟨⟨fun _ => ⟨m, hm⟩, fun _ => ⟨m, herror⟩⟩, fun m' hm' => ?_, ?_, .inl ⟨m, herror⟩,
      determinizeGuarded_eq a⟩
    · rw [herror] at hm'
      cases hm'
      exact hm
    · rw [herror]
      exact ⟨nofun, fun h => absurd hm (h.1 m)⟩
  | none =>
    have hnone := sharedName?_eq_none_iff_forall.mp hshared
    have hnever : ¬ ∃ m, a.SharedName m := fun ⟨m, hm⟩ => hnone m hm
    rcases determinize_of_unshared hnone with ⟨herror, hreject⟩ | ⟨⟨d, hok⟩, w, hw⟩
    · rw [herror]
      refine ⟨⟨nofun, fun h => absurd h hnever⟩, nofun, ⟨fun _ => ⟨hnone, hreject⟩, fun _ => rfl⟩,
        .inr (.inl rfl), ?_⟩
      rw [determinizeGuarded_eq, herror]
    · rw [hok]
      refine ⟨⟨nofun, fun h => absurd h hnever⟩, nofun, ⟨nofun, fun h => ?_⟩,
        .inr (.inr ⟨d, rfl⟩), ?_⟩
      · rw [h.2 w] at hw
        exact absurd hw Bool.false_ne_true
      · rw [determinizeGuarded_eq, hok]

end Automaton
end FormalLanguage
