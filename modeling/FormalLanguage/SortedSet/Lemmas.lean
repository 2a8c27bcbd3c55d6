import FormalLanguage.SortedSet.Basic

/-! What the operations on sorted sets do to membership.

`ext` is the point of the representation: two sorted sets with the same elements
are the same value. With it, `ofList_eq_iff` says that building a set forgets
order and repetition and nothing else. -/
namespace FormalLanguage.SortedSet
variable {α : Type u} [Ord α]

@[simp] theorem not_mem_empty (a : α) : a ∉ (∅ : SortedSet α) := List.not_mem_nil

theorem isEmpty_iff {s : SortedSet α} : s.isEmpty = true ↔ ∀ a, a ∉ s := by
  show s.toList.isEmpty = true ↔ ∀ a, a ∉ s.toList
  rw [List.isEmpty_iff, List.eq_nil_iff_forall_not_mem]

@[simp] theorem mem_filter {p : α → Bool} {s : SortedSet α} {a : α} :
    a ∈ s.filter p ↔ a ∈ s ∧ p a = true := List.mem_filter

theorem intersects_iff [DecidableEq α] {s t : SortedSet α} :
    s.intersects t = true ↔ ∃ a, a ∈ s ∧ a ∈ t := by
  simp [intersects, mem_toList]

@[simp] theorem mem_singleton {a b : α} : b ∈ ({a} : SortedSet α) ↔ b = a := List.mem_singleton

variable [Std.TransOrd α]

/-- Two increasing lists with the same elements are the same list. -/
theorem eq_of_increasing : {l m : List α} → Increasing l → Increasing m →
    (∀ a, a ∈ l ↔ a ∈ m) → l = m
  | [], [], _, _, _ => rfl
  | [], b :: _, _, _, h => absurd ((h b).mpr (List.mem_cons_self ..)) List.not_mem_nil
  | a :: _, [], _, _, h => absurd ((h a).mp (List.mem_cons_self ..)) List.not_mem_nil
  | a :: l, b :: m, hl, hm, h => by
    obtain ⟨hal, hl'⟩ := List.pairwise_cons.mp hl
    obtain ⟨hbm, hm'⟩ := List.pairwise_cons.mp hm
    have asymm {x y : α} (hxy : compare x y = .lt) (hyx : compare y x = .lt) : False := by
      have := Std.TransCmp.lt_trans hxy hyx
      simp [Std.ReflCmp.compare_self] at this
    have hab : a = b := by
      rcases List.mem_cons.mp ((h a).mp (List.mem_cons_self ..)) with hab | ham
      · exact hab
      · rcases List.mem_cons.mp ((h b).mpr (List.mem_cons_self ..)) with hba | hbl
        · exact hba.symm
        · exact (asymm (hal b hbl) (hbm a ham)).elim
    subst hab
    have htail : ∀ c, c ∈ l ↔ c ∈ m := fun c => by
      constructor
      · intro hc
        rcases List.mem_cons.mp ((h c).mp (List.mem_cons_of_mem _ hc)) with rfl | hc'
        · exact (asymm (hal c hc) (hal c hc)).elim
        · exact hc'
      · intro hc
        rcases List.mem_cons.mp ((h c).mpr (List.mem_cons_of_mem _ hc)) with rfl | hc'
        · exact (asymm (hbm c hc) (hbm c hc)).elim
        · exact hc'
    rw [eq_of_increasing hl' hm' htail]

theorem ext {s t : SortedSet α} (h : ∀ a, a ∈ s ↔ a ∈ t) : s = t :=
  toList_injective (eq_of_increasing s.increasing t.increasing h)

theorem ext_iff {s t : SortedSet α} : s = t ↔ ∀ a, a ∈ s ↔ a ∈ t :=
  ⟨fun h _ => h ▸ Iff.rfl, ext⟩

theorem nodup (s : SortedSet α) : s.toList.Nodup :=
  s.increasing.imp fun {a b} h hab => by
    subst hab
    simp [Std.ReflCmp.compare_self] at h

variable [Std.LawfulEqOrd α]

@[simp] theorem mem_insert {a b : α} {s : SortedSet α} : b ∈ s.insert a ↔ b = a ∨ b ∈ s :=
  mem_insertInto

theorem insert_ne_empty (a : α) (s : SortedSet α) : s.insert a ≠ ∅ := by
  intro h
  have ha : a ∈ s.insert a := mem_insert.mpr (.inl rfl)
  rw [h] at ha
  exact not_mem_empty a ha

@[simp] theorem mem_ofList {b : α} {l : List α} : b ∈ ofList l ↔ b ∈ l := by
  induction l with
  | nil => exact Iff.rfl
  | cons a rest ih =>
    show b ∈ (ofList rest).insert a ↔ _
    rw [mem_insert, ih, List.mem_cons]

@[simp] theorem mem_union {b : α} {s t : SortedSet α} : b ∈ s ∪ t ↔ b ∈ s ∨ b ∈ t := by
  show b ∈ s.toList.foldr insert t ↔ b ∈ s.toList ∨ b ∈ t
  induction s.toList with
  | nil => simp
  | cons a rest ih => rw [List.foldr_cons, mem_insert, ih, List.mem_cons, or_assoc]

@[simp] theorem mem_image {β : Type v} [Ord β] {f : β → α} {s : SortedSet β} {a : α} :
    a ∈ s.image f ↔ ∃ b, b ∈ s ∧ f b = a := by
  show a ∈ ofList (s.toList.map f) ↔ _
  rw [mem_ofList, List.mem_map]
  exact Iff.rfl

theorem ofList_eq_iff {l m : List α} : ofList l = ofList m ↔ ∀ a, a ∈ l ↔ a ∈ m := by
  simp [ext_iff]

end FormalLanguage.SortedSet
