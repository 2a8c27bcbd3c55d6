/-! Finite sets as strictly increasing lists.

A `SortedSet` is the one list of its elements that is strictly increasing in the
order of the element type, so equal sets are equal values and the elements come
out in one order whatever the order they went in. Insertion walks the list;
everything else is built from it. `mem_insert` and the lemmas in `Lemmas` say
what each operation does to membership, which is the only view later modules use. -/
namespace FormalLanguage

/-- Lists in which every element is strictly below all later ones. -/
abbrev Increasing {α : Type u} [Ord α] (l : List α) : Prop := l.Pairwise (compare · · = .lt)

structure SortedSet (α : Type u) [Ord α] where
  toList : List α
  increasing : Increasing toList

namespace SortedSet
variable {α : Type u} [Ord α]

theorem toList_injective {s t : SortedSet α} (h : s.toList = t.toList) : s = t := by
  cases s
  cases t
  cases h
  rfl

instance [DecidableEq α] : DecidableEq (SortedSet α) := fun s t =>
  decidable_of_iff (s.toList = t.toList) ⟨toList_injective, fun h => h ▸ rfl⟩

instance : Membership α (SortedSet α) := ⟨fun s a => a ∈ s.toList⟩

theorem mem_toList {a : α} {s : SortedSet α} : a ∈ s.toList ↔ a ∈ s := Iff.rfl

instance [DecidableEq α] (a : α) (s : SortedSet α) : Decidable (a ∈ s) :=
  inferInstanceAs (Decidable (a ∈ s.toList))

instance : EmptyCollection (SortedSet α) := ⟨⟨[], .nil⟩⟩

instance : Inhabited (SortedSet α) := ⟨∅⟩

instance : Singleton α (SortedSet α) := ⟨fun a => ⟨[a], List.pairwise_singleton _ a⟩⟩

def size (s : SortedSet α) : Nat := s.toList.length

def isEmpty (s : SortedSet α) : Bool := s.toList.isEmpty

def filter (p : α → Bool) (s : SortedSet α) : SortedSet α :=
  ⟨s.toList.filter p, s.increasing.filter p⟩

/-- Whether the sets have an element in common. -/
def intersects [DecidableEq α] (s t : SortedSet α) : Bool := s.toList.any (· ∈ t)

/-! ### Insertion -/

/-- Puts `a` before the first element above it, and nowhere if it is there already. -/
def insertInto (a : α) : List α → List α
  | [] => [a]
  | b :: rest =>
    match compare a b with
    | .lt => a :: b :: rest
    | .eq => b :: rest
    | .gt => b :: insertInto a rest

theorem mem_insertInto [Std.LawfulEqOrd α] {a b : α} {l : List α} :
    b ∈ insertInto a l ↔ b = a ∨ b ∈ l := by
  induction l with
  | nil => simp [insertInto]
  | cons c rest ih =>
    unfold insertInto
    split
    · exact List.mem_cons
    · next h =>
      obtain rfl := Std.LawfulEqOrd.eq_of_compare h
      simp
    · rw [List.mem_cons, ih, List.mem_cons]
      exact or_left_comm

variable [Std.TransOrd α] [Std.LawfulEqOrd α]

theorem increasing_insertInto {a : α} {l : List α} (h : Increasing l) :
    Increasing (insertInto a l) := by
  induction l with
  | nil => exact List.pairwise_singleton _ a
  | cons c rest ih =>
    obtain ⟨hc, hrest⟩ := List.pairwise_cons.mp h
    unfold insertInto
    split
    · next hac =>
      refine List.pairwise_cons.mpr ⟨fun b hb => ?_, h⟩
      rcases List.mem_cons.mp hb with rfl | hb
      · exact hac
      · exact Std.TransCmp.lt_trans hac (hc b hb)
    · exact h
    · next hac =>
      refine List.pairwise_cons.mpr ⟨fun b hb => ?_, ih hrest⟩
      rcases mem_insertInto.mp hb with rfl | hb
      · exact Std.OrientedCmp.gt_iff_lt.mp hac
      · exact hc b hb

def insert (a : α) (s : SortedSet α) : SortedSet α :=
  ⟨insertInto a s.toList, increasing_insertInto s.increasing⟩

/-- The set of a list's elements, whatever their order and however often each occurs. -/
def ofList (l : List α) : SortedSet α := l.foldr insert ∅

def union (s t : SortedSet α) : SortedSet α := s.toList.foldr insert t

instance : Union (SortedSet α) := ⟨union⟩

/-- The values that `f` takes on the elements. -/
def image {β : Type v} [Ord β] (f : β → α) (s : SortedSet β) : SortedSet α :=
  ofList (s.toList.map f)

end SortedSet
end FormalLanguage
