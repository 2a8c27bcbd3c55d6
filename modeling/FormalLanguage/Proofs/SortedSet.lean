import FormalLanguage.Sorting
import FormalLanguage.SortedSet.Lemmas
import Mathlib.Data.List.Sublists

/-! Empty sets, small sets, first and last elements, sets that grow and the subsets of a set.

What a search of a set finds first is the least element that it looks for, whatever
list the set was made from (`find?_ofList_eq_some_iff`). A search that meets only
subsets of a set of `n` elements meets at most `2 ^ n` of them, which is how long the
list `subsets` is. -/
namespace FormalLanguage

/-- Of the elements of a list with a property, the one before all others. -/
structure Least (before : α → α → Prop) (P : α → Prop) (l : List α) (a : α) : Prop where
  mem : a ∈ l
  holds : P a
  before : ∀ b ∈ l, P b → b ≠ a → before a b

namespace SortedSet
variable {α : Type u} [Ord α]

theorem isEmpty_eq_false_iff {s : SortedSet α} : s.isEmpty = false ↔ ∃ a, a ∈ s := by
  rw [← Bool.not_eq_true, isEmpty_iff, not_forall_not]

theorem size_le_one {s : SortedSet α} {a : α} [Std.ReflOrd α] (h : ∀ b ∈ s, b = a) :
    s.size ≤ 1 := by
  obtain ⟨l, hl⟩ := s
  match l, hl, h with
  | [], _, _ => exact Nat.zero_le 1
  | [_], _, _ => exact Nat.le_refl 1
  | b :: c :: rest, hl, h =>
    have hbc := (List.pairwise_cons.mp hl).1 c (List.mem_cons_self ..)
    have hb : b = a := h b (List.mem_cons_self ..)
    have hc : c = a := h c (List.mem_cons_of_mem _ (List.mem_cons_self ..))
    rw [hb, hc, Std.ReflOrd.compare_self] at hbc
    exact absurd hbc (by decide)

theorem eq_of_size_le_one {s : SortedSet α} {a b : α} (h : s.size ≤ 1) (ha : a ∈ s) (hb : b ∈ s) :
    a = b := by
  obtain ⟨l, hl⟩ := s
  match l, hl, h, ha, hb with
  | [], _, _, ha, _ => exact absurd ha List.not_mem_nil
  | [c], _, _, ha, hb => exact (List.mem_singleton.mp ha).trans (List.mem_singleton.mp hb).symm
  | _ :: _ :: _, _, h, _, _ => exact absurd h (by simp [size])

/-- Whatever is not the last element is below another one. -/
theorem exists_lt_of_mem_dropLast {s : SortedSet α} {a : α} (ha : a ∈ s.toList.dropLast) :
    ∃ b ∈ s, compare a b = .lt := by
  have hne : s.toList ≠ [] := fun h => by simp [h] at ha
  have hordered := s.increasing
  rw [← List.dropLast_append_getLast hne, Increasing, List.pairwise_append] at hordered
  exact ⟨s.toList.getLast hne, List.getLast_mem hne,
    hordered.2.2 a ha _ (List.mem_singleton.mpr rfl)⟩

/-! ### What a search finds first -/

section Least
variable [Std.TransOrd α] {P : α → Prop} {s : SortedSet α} {a : α}

theorem least_toList_iff : Least (compare · · = .lt) P s.toList a ↔
    ∃ before after, s.toList = before ++ a :: after ∧ P a ∧ ∀ b ∈ before, ¬ P b := by
  have hordered := s.increasing
  constructor
  · rintro ⟨hmem, ha, hleast⟩
    obtain ⟨before, after, hs⟩ := List.append_of_mem hmem
    rw [hs, Increasing, List.pairwise_append] at hordered
    refine ⟨before, after, hs, ha, fun b hb hP => ?_⟩
    have hba : compare b a = .lt := hordered.2.2 b hb a (List.mem_cons_self ..)
    have hne : b ≠ a := by
      rintro rfl
      simp [Std.ReflCmp.compare_self] at hba
    have hab := hleast b (hs ▸ List.mem_append_left _ hb) hP hne
    rw [Std.OrientedCmp.gt_of_lt hba] at hab
    cases hab
  · rintro ⟨before, after, hs, ha, hbefore⟩
    rw [hs, Increasing, List.pairwise_append] at hordered
    refine ⟨hs ▸ List.mem_append_right _ (List.mem_cons_self ..), ha, fun b hb hP hne => ?_⟩
    rw [hs, List.mem_append, List.mem_cons] at hb
    rcases hb with hb | rfl | hb
    · exact absurd hP (hbefore b hb)
    · exact absurd rfl hne
    · exact (List.pairwise_cons.mp hordered.2.1).1 b hb

variable [Std.LawfulEqOrd α] {l : List α}

theorem least_ofList_iff {before : α → α → Prop} :
    Least before P (ofList l).toList a ↔ Least before P l a := by
  have hmem : ∀ b, b ∈ (ofList l).toList ↔ b ∈ l := fun _ => mem_ofList
  refine ⟨fun ⟨ha, hP, hleast⟩ => ?_, fun ⟨ha, hP, hleast⟩ => ?_⟩
  · exact ⟨(hmem a).mp ha, hP, fun b hb => hleast b ((hmem b).mpr hb)⟩
  · exact ⟨(hmem a).mpr ha, hP, fun b hb => hleast b ((hmem b).mp hb)⟩

/-- What a search for the elements with a property gives, it gives for the least of them. -/
theorem findSome?_ofList_eq_some_iff {f : α → Option β} {b : β} (hf : ∀ a, f a = none ↔ ¬ P a) :
    (ofList l).toList.findSome? f = some b ↔
      ∃ a, Least (compare · · = .lt) P l a ∧ f a = some b := by
  rw [List.findSome?_eq_some_iff]
  constructor
  · rintro ⟨before, a, after, hl, ha, hbefore⟩
    have hP : P a := not_not.mp fun hP => by simp [(hf a).mpr hP] at ha
    have hfirst := least_toList_iff.mpr
      ⟨before, after, hl, hP, fun c hc => (hf c).mp (hbefore c hc)⟩
    exact ⟨a, least_ofList_iff.mp hfirst, ha⟩
  · rintro ⟨a, hleast, ha⟩
    obtain ⟨before, after, hl, _, hbefore⟩ := least_toList_iff.mp (least_ofList_iff.mpr hleast)
    exact ⟨before, a, after, hl, ha, fun c hc => (hf c).mpr (hbefore c hc)⟩

theorem find?_ofList_eq_some_iff {p : α → Bool} :
    (ofList l).toList.find? p = some a ↔ Least (compare · · = .lt) (p · = true) l a := by
  rw [← least_ofList_iff, least_toList_iff, List.find?_eq_some_iff_append]
  simp [and_left_comm]

end Least

variable [Std.TransOrd α]

/-- A set that has grown has a new element. -/
theorem exists_mem_notMem {s t : SortedSet α} (hsub : ∀ a ∈ s, a ∈ t) (hne : t ≠ s) :
    ∃ a ∈ t, a ∉ s := by
  by_contra hnone
  refine hne (ext fun a => ⟨fun ha => ?_, hsub a⟩)
  exact by_contra fun hnew => hnone ⟨a, ha, hnew⟩

variable [Std.LawfulEqOrd α]

/-- A set lists its elements as sorting them does, whatever order they are in. -/
theorem toList_eq_ascending {s : SortedSet α} {l : List α} (hl : l.Nodup)
    (hmem : ∀ a, a ∈ l ↔ a ∈ s) : s.toList = ascending l := by
  refine eq_ascending ((List.perm_ext_iff_of_nodup s.nodup hl).mpr fun a => (hmem a).symm) ?_
  exact s.increasing.imp fun hlt => by rw [hlt]; rfl

theorem size_ofList_of_nodup {l : List α} (h : l.Nodup) : (ofList l).size = l.length :=
  ((List.perm_ext_iff_of_nodup (nodup _) h).mpr fun _ => mem_ofList).length_eq

def subsets (s : SortedSet α) : List (SortedSet α) := s.toList.sublists.map ofList

theorem length_subsets (s : SortedSet α) : s.subsets.length = Nat.pow 2 s.size := by
  rw [subsets, List.length_map, List.length_sublists]
  rfl

theorem mem_subsets [DecidableEq α] {s t : SortedSet α} : t ∈ s.subsets ↔ ∀ a ∈ t, a ∈ s := by
  rw [subsets, List.mem_map]
  refine ⟨fun ht => ?_, fun hsub => ?_⟩
  · intro a ha
    obtain ⟨l, hl, rfl⟩ := ht
    exact (List.mem_sublists.mp hl).subset (mem_ofList.mp ha)
  · refine ⟨s.toList.filter (· ∈ t), List.mem_sublists.mpr List.filter_sublist, ?_⟩
    refine ext fun a => ?_
    rw [mem_ofList, List.mem_filter, mem_toList, decide_eq_true_eq]
    exact and_iff_right_of_imp (hsub a)

end SortedSet
end FormalLanguage
