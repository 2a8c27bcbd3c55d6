import FormalLanguage.Automaton.Successors

/-! The index of successors and the set of transitions.

Every automaton answers questions about what comes next from its index, and is
compared and printed by its transitions. The two agree (`successors_exact`): what is
found by source and symbol is what the transitions say, nothing is found twice or
lost, and the index does not depend on the order in which it was filled, since
transitions that are added leave nothing empty behind (`Occupied`). -/
namespace FormalLanguage

/-! ### Order of adding -/

namespace SuccessorIndex
variable {m n : SuccessorIndex} {ts us : List Transition}

/-- A row has a set, and a set has a target. -/
structure Occupied (m : SuccessorIndex) : Prop where
  row : ∀ q, m.get? q ≠ some ∅
  targets : ∀ q x, (m.row q).get? x ≠ some ∅

theorem Occupied.empty : Occupied ∅ where
  row _ := nofun
  targets _ _ := nofun

theorem Occupied.add (h : m.Occupied) (t : Transition) : (m.add t).Occupied where
  row q := by
    rw [SuccessorIndex.add, SortedMap.get?_put]
    split
    · exact fun hrow => SortedMap.put_ne_empty _ _ _ (Option.some.inj hrow)
    · exact h.row q
  targets q x := by
    rw [row_add]
    split
    · rw [SortedMap.get?_put]
      split
      · exact fun hset => SortedSet.insert_ne_empty _ _ (Option.some.inj hset)
      · exact h.targets q x
    · exact h.targets q x

theorem Occupied.foldl_add (h : m.Occupied) (ts : List Transition) :
    (ts.foldl SuccessorIndex.add m).Occupied := by
  induction ts generalizing m with
  | nil => exact h
  | cons t ts ih => exact ih (h.add t)

theorem occupied_ofList (ts : List Transition) : (ofList ts).Occupied :=
  Occupied.empty.foldl_add ts

/-- Indexes in which nothing is empty are told apart by a target. -/
theorem Occupied.ext (hm : m.Occupied) (hn : n.Occupied)
    (h : ∀ q x p, p ∈ m.targetSet q x ↔ p ∈ n.targetSet q x) : m = n := by
  refine SortedMap.ext_getD hm.row hn.row fun q => ?_
  exact SortedMap.ext_getD (hm.targets q) (hn.targets q) fun x => SortedSet.ext (h q x)

/-- An index forgets the order of what was added and how often it was, and nothing else. -/
theorem ofList_eq_iff : ofList ts = ofList us ↔ ∀ t, t ∈ ts ↔ t ∈ us := by
  constructor
  · rintro h ⟨q, x, p⟩
    rw [← mem_targetSet_ofList, h, mem_targetSet_ofList]
  · intro h
    refine (occupied_ofList ts).ext (occupied_ofList us) fun q x p => ?_
    rw [mem_targetSet_ofList, mem_targetSet_ofList, h]

end SuccessorIndex

/-! ### Looking up -/

namespace Automaton

/-- The index of an automaton is the one of its transitions in any order. The transitions out of a
state, and the targets from one state or from several, are those of the set; the states share no
transitions and together have all of them. -/
theorem successors_exact (a : Automaton) :
    (∀ ts : List Transition, (∀ t, t ∈ ts ↔ t ∈ a.transitions) → a.successors = .ofList ts) ∧
      (∀ q t, t ∈ a.transitionsFrom q ↔ t ∈ a.transitions ∧ t.source = q) ∧
      (∀ q x p, p ∈ a.nextStates q x ↔ ⟨q, x, p⟩ ∈ a.transitions) ∧
      (∀ qs x p, p ∈ a.nextStatesOfList qs x ↔ ∃ q ∈ qs, p ∈ a.nextStates q x) ∧
      (∀ s x p, p ∈ a.nextStatesOfSet s x ↔ ∃ q ∈ s, p ∈ a.nextStates q x) ∧
      (∀ q q' t, q ≠ q' → t ∈ a.transitionsFrom q → t ∉ a.transitionsFrom q') ∧
      ∀ t, t ∈ a.transitions ↔ ∃ q ∈ a.states, t ∈ a.transitionsFrom q := by
  refine ⟨fun ts hts => ?_, fun q t => mem_transitionsFrom, fun q x p => mem_nextStates,
    fun qs x p => ?_, fun s x p => ?_, fun q q' t hne ht ht' => ?_, fun t => ⟨fun ht => ?_, ?_⟩⟩
  · exact a.successors_eq.trans (SuccessorIndex.ofList_eq_iff.mpr fun t => (hts t).symm)
  · simp only [mem_nextStatesOfList, mem_nextStates]
  · simp only [mem_nextStatesOfSet, mem_nextStates]
  · exact hne ((mem_transitionsFrom.mp ht).2.symm.trans (mem_transitionsFrom.mp ht').2)
  · exact ⟨t.source, a.valid.source_mem t ht, mem_transitionsFrom.mpr ⟨ht, rfl⟩⟩
  · rintro ⟨q, _, ht⟩
    exact (mem_transitionsFrom.mp ht).1

end Automaton
end FormalLanguage
