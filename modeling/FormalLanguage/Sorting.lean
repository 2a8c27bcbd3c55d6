/-! Lists in the order of their element type.

Where only equal elements compare as equal, a list has one arrangement that is in
order (`eq_ascending`), so sorting forgets the arrangement and nothing else
(`ascending_eq_iff`). -/
namespace FormalLanguage

/-- The elements of a list in increasing order, each as often as it occurs. -/
def ascending [Ord α] (l : List α) : List α := l.mergeSort fun a b => (compare a b).isLE

theorem ascending_perm [Ord α] (l : List α) : (ascending l).Perm l := List.mergeSort_perm l _

variable [Ord α] [Std.TransOrd α]

theorem pairwise_ascending (l : List α) : (ascending l).Pairwise fun a b => (compare a b).isLE := by
  refine List.pairwise_mergeSort (fun a b c => Std.TransCmp.isLE_trans) (fun a b => ?_) l
  have hswap : compare b a = (compare a b).swap := Std.OrientedCmp.eq_swap
  rw [hswap]
  cases compare a b <;> rfl

variable [Std.LawfulEqOrd α] {l m : List α}

theorem eq_ascending (hperm : m.Perm l) (hm : m.Pairwise fun a b => (compare a b).isLE) :
    m = ascending l := by
  refine (hperm.trans (ascending_perm l).symm).eq_of_pairwise (fun a b _ _ hab hba => ?_) hm
    (pairwise_ascending l)
  exact Std.LawfulEqOrd.eq_of_compare (Std.OrientedCmp.isLE_antisymm hab hba)

theorem ascending_eq_iff : ascending l = ascending m ↔ l.Perm m := by
  constructor
  · intro h
    exact (ascending_perm l).symm.trans (h ▸ ascending_perm m)
  · exact fun h => eq_ascending ((ascending_perm l).trans h) (pairwise_ascending l)

end FormalLanguage
