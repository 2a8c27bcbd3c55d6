import FormalLanguage.SortedMap
import FormalLanguage.SortedSet.Lemmas
import FormalLanguage.Transition

/-! Transitions by source and symbol.

An index has a row for a state and in it a set of targets for a symbol; what it does
not have is empty. It is built by adding one transition after another, each of which
goes into the set of its source and symbol and leaves all others as they are
(`mem_targetSet_add`), so what is found in it is what went in (`mem_targetSet_ofList`). -/
namespace FormalLanguage

abbrev SuccessorIndex := SortedMap State (SortedMap Symbol StateSet)

namespace SuccessorIndex

/-- The targets for each symbol that leads on from `q`. -/
def row (m : SuccessorIndex) (q : State) : SortedMap Symbol StateSet := (m.get? q).getD ∅

def targetSet (m : SuccessorIndex) (q : State) (x : Symbol) : StateSet :=
  ((m.row q).get? x).getD ∅

def add (m : SuccessorIndex) (t : Transition) : SuccessorIndex :=
  m.put t.source ((m.row t.source).put t.symbol ((m.targetSet t.source t.symbol).insert t.target))

/-- The index of transitions that are added in the order of the list. -/
def ofList (ts : List Transition) : SuccessorIndex := ts.foldl add ∅

/-- The transitions out of `q`, put together from the row for `q`. -/
def transitionsFrom (m : SuccessorIndex) (q : State) : SortedSet Transition :=
  .ofList ((m.row q).entries.flatMap fun (x, targets) =>
    targets.toList.map fun p => ⟨q, x, p⟩)

variable {m : SuccessorIndex} {q p : State} {x : Symbol} {t : Transition} {ts : List Transition}

theorem row_add (m : SuccessorIndex) (t : Transition) (q : State) :
    (m.add t).row q = if q = t.source then
        (m.row q).put t.symbol ((m.targetSet q t.symbol).insert t.target)
      else m.row q := by
  rw [row, add, SortedMap.get?_put]
  split
  · next h => rw [h, Option.getD_some]
  · rfl

theorem targetSet_add (m : SuccessorIndex) (t : Transition) (q : State) (x : Symbol) :
    (m.add t).targetSet q x = if q = t.source ∧ x = t.symbol then
        (m.targetSet q x).insert t.target
      else m.targetSet q x := by
  rw [targetSet, row_add]
  by_cases hq : q = t.source
  · rw [if_pos hq, SortedMap.get?_put]
    by_cases hx : x = t.symbol
    · rw [if_pos hx, if_pos ⟨hq, hx⟩, Option.getD_some, hx]
    · rw [if_neg hx, if_neg fun h => hx h.2]
      rfl
  · rw [if_neg hq, if_neg fun h => hq h.1]
    rfl

theorem mem_targetSet_add :
    p ∈ (m.add t).targetSet q x ↔ ⟨q, x, p⟩ = t ∨ p ∈ m.targetSet q x := by
  rw [targetSet_add]
  split
  · next h =>
    obtain ⟨rfl, rfl⟩ := h
    rw [SortedSet.mem_insert]
    exact or_congr_left ⟨fun h => h ▸ rfl, fun h => congrArg Transition.target h⟩
  · next h =>
    refine (or_iff_right fun heq => h ?_).symm
    exact ⟨congrArg Transition.source heq, congrArg Transition.symbol heq⟩

theorem mem_targetSet_foldl_add :
    p ∈ (ts.foldl add m).targetSet q x ↔ ⟨q, x, p⟩ ∈ ts ∨ p ∈ m.targetSet q x := by
  induction ts generalizing m with
  | nil => simp
  | cons t ts ih =>
    rw [List.foldl_cons, ih, mem_targetSet_add, List.mem_cons, or_assoc, or_left_comm]

theorem mem_targetSet_ofList : p ∈ (ofList ts).targetSet q x ↔ ⟨q, x, p⟩ ∈ ts := by
  rw [ofList, mem_targetSet_foldl_add]
  exact or_iff_left (SortedSet.not_mem_empty p)

theorem mem_transitionsFrom :
    t ∈ m.transitionsFrom q ↔ t.source = q ∧ t.target ∈ m.targetSet q t.symbol := by
  rw [transitionsFrom, SortedSet.mem_ofList, List.mem_flatMap]
  constructor
  · rintro ⟨⟨x, targets⟩, hentry, ht⟩
    obtain ⟨p, hp, rfl⟩ := List.mem_map.mp ht
    refine ⟨rfl, ?_⟩
    rw [targetSet, SortedMap.mem_entries.mp hentry]
    exact hp
  · obtain ⟨source, x, p⟩ := t
    rintro ⟨rfl, hp⟩
    cases hget : (m.row source).get? x with
    | none =>
      rw [targetSet, hget] at hp
      exact absurd hp (SortedSet.not_mem_empty p)
    | some targets =>
      rw [targetSet, hget] at hp
      exact ⟨(x, targets), SortedMap.mem_entries.mpr hget, List.mem_map.mpr ⟨p, hp, rfl⟩⟩

end SuccessorIndex
end FormalLanguage
