import FormalLanguage.Grammar.Basic
import FormalLanguage.Proofs.SortedSet

/-! The order of production rules.

Rules are compared in three stages, of which the second one puts the longer body
first (`Precedes`). The stages together are a total order (`Rule.order_lawful`), so
rules that come out of a set or a list in any order are sorted into one list: head
after head, and of each head the longest bodies first. The rules for a symbol are
listed in this way (`Grammar.rulesFor_eq_ascending`). -/
namespace FormalLanguage

/-- Rules in the order of their heads; of one head the longer ones first, and those of one length
in the order of their bodies. -/
inductive Rule.Precedes : Rule → Rule → Prop where
  | head {r s : Rule} (h : compare r.head s.head = .lt) : Precedes r s
  | longer {r s : Rule} (hhead : r.head = s.head) (h : s.body.length < r.body.length) :
      Precedes r s
  | body {r s : Rule} (hhead : r.head = s.head) (hlength : r.body.length = s.body.length)
      (h : compare r.body s.body = .lt) : Precedes r s

theorem Rule.compare_eq_lt_iff {r s : Rule} : compare r s = .lt ↔ r.Precedes s := by
  have hcompare : compare r s = (compare r.head s.head).then
      ((compare s.body.length r.body.length).then (compare r.body s.body)) := rfl
  rw [hcompare, Ordering.then_eq_lt, Ordering.then_eq_lt, Std.LawfulEqOrd.compare_eq_iff_eq,
    Nat.compare_eq_lt, Nat.compare_eq_eq]
  constructor
  · rintro (h | ⟨hhead, h | ⟨hlength, h⟩⟩)
    · exact .head h
    · exact .longer hhead h
    · exact .body hhead hlength.symm h
  · rintro (h | ⟨hhead, h⟩ | ⟨hhead, hlength, h⟩)
    · exact .inl h
    · exact .inr ⟨hhead, .inl h⟩
    · exact .inr ⟨hhead, .inr ⟨hlength.symm, h⟩⟩

/-- Rules that are not in the wrong order have their heads in order, and of one head the longer
body comes first. -/
theorem Rule.of_isLE_compare {r s : Rule} (h : (compare r s).isLE) :
    (compare r.head s.head).isLE ∧ (r.head = s.head → s.body.length ≤ r.body.length) := by
  have hsame (hhead : r.head = s.head) : (compare r.head s.head).isLE := by
    rw [hhead]
    exact Std.ReflCmp.isLE_rfl
  cases hcompare : compare r s with
  | gt =>
    rw [hcompare] at h
    cases h
  | eq =>
    obtain rfl := Std.LawfulEqOrd.eq_of_compare hcompare
    exact ⟨hsame rfl, fun _ => le_rfl⟩
  | lt =>
    cases compare_eq_lt_iff.mp hcompare with
    | head hhead =>
      refine ⟨by rw [hhead]; rfl, fun heq => ?_⟩
      rw [heq, Std.ReflOrd.compare_self] at hhead
      cases hhead
    | longer hhead hlength => exact ⟨hsame hhead, fun _ => hlength.le⟩
    | body hhead hlength _ => exact ⟨hsame hhead, fun _ => hlength.ge⟩

/-- Rules are totally ordered. Sorting gives the same list for every arrangement of the same rules;
in it heads never decrease, and within one head bodies never become longer. -/
theorem Rule.order_lawful :
    (∀ r s : Rule, compare r s = .eq ↔ r = s) ∧
      (∀ r s : Rule, compare s r = (compare r s).swap) ∧
      (∀ r s t : Rule, (compare r s).isLE → (compare s t).isLE → (compare r t).isLE) ∧
      (∀ l m : List Rule, l.Perm m → ascending l = ascending m) ∧
      ∀ l : List Rule, (ascending l).Perm l ∧ (ascending l).Pairwise fun r s =>
        (compare r.head s.head).isLE ∧ (r.head = s.head → s.body.length ≤ r.body.length) := by
  refine ⟨fun r s => Std.LawfulEqOrd.compare_eq_iff_eq, fun r s => Std.OrientedCmp.eq_swap,
    fun r s t => Std.TransCmp.isLE_trans, fun l m => ascending_eq_iff.mpr, fun l => ?_⟩
  exact ⟨ascending_perm l, (pairwise_ascending l).imp Rule.of_isLE_compare⟩

/-- The rules for a symbol are those with it as their head, sorted from any order. -/
theorem Grammar.rulesFor_eq_ascending {g : Grammar} {x : Symbol} {l : List Rule} (hl : l.Nodup)
    (hmem : ∀ r, r ∈ l ↔ r ∈ g.rules ∧ r.head = x) : (g.rulesFor x).toList = ascending l := by
  refine SortedSet.toList_eq_ascending hl fun r => ?_
  rw [hmem, Grammar.rulesFor, SortedSet.mem_filter, decide_eq_true_eq]

end FormalLanguage
