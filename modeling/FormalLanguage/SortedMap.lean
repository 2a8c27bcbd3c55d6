import FormalLanguage.SortedSet.Basic

/-! Finite maps as lists of entries in increasing order of their keys.

A `SortedMap` has at most one value under a key, and maps with the same value under
every key are equal (`ext`). Putting a value walks the list. `get?_put` says what it
does to every key, and `mem_entries` that the entries are what is found by looking
keys up; later modules use no other view. -/
namespace FormalLanguage

structure SortedMap (κ : Type u) [Ord κ] (ν : Type v) where
  entries : List (κ × ν)
  increasing : Increasing (entries.map Prod.fst)

namespace SortedMap
variable {κ : Type u} [Ord κ] {ν : Type v}

theorem entries_injective {m n : SortedMap κ ν} (h : m.entries = n.entries) : m = n := by
  cases m
  cases n
  cases h
  rfl

theorem increasing_nil : Increasing (([] : List (κ × ν)).map Prod.fst) := .nil

instance : EmptyCollection (SortedMap κ ν) := ⟨⟨[], increasing_nil⟩⟩

/-- Puts `v` under `k`, in place of what is there. -/
def putInto (k : κ) (v : ν) : List (κ × ν) → List (κ × ν)
  | [] => [(k, v)]
  | e :: rest =>
    match compare k e.1 with
    | .lt => (k, v) :: e :: rest
    | .eq => (k, v) :: rest
    | .gt => e :: putInto k v rest

theorem keys_putInto [Std.LawfulEqOrd κ] (k : κ) (v : ν) (es : List (κ × ν)) :
    (putInto k v es).map Prod.fst = SortedSet.insertInto k (es.map Prod.fst) := by
  induction es with
  | nil => rfl
  | cons e rest ih =>
    rw [List.map_cons, putInto, SortedSet.insertInto]
    cases h : compare k e.1 with
    | lt => rfl
    | eq => rw [List.map_cons, Std.LawfulEqOrd.eq_of_compare h]
    | gt => rw [List.map_cons, ih]

section Lookup
variable [DecidableEq κ]

def get? (m : SortedMap κ ν) (k : κ) : Option ν := m.entries.lookup k

omit [Ord κ] in
theorem lookup_cons_eq_ite (k : κ) (e : κ × ν) (es : List (κ × ν)) :
    (e :: es).lookup k = if k = e.1 then some e.2 else es.lookup k := by
  rw [List.lookup_cons]
  split <;> simp_all

theorem lookup_putInto [Std.LawfulEqOrd κ] (k l : κ) (v : ν) (es : List (κ × ν)) :
    (putInto k v es).lookup l = if l = k then some v else es.lookup l := by
  induction es with
  | nil => exact lookup_cons_eq_ite l (k, v) []
  | cons e rest ih =>
    rw [putInto]
    cases h : compare k e.1 with
    | lt => exact lookup_cons_eq_ite l (k, v) (e :: rest)
    | eq =>
      have hk := Std.LawfulEqOrd.eq_of_compare h
      by_cases hl : l = k
      · simp [lookup_cons_eq_ite, hl]
      · simp [lookup_cons_eq_ite, hl, ← hk]
    | gt =>
      have hk : e.1 ≠ k := by
        rintro rfl
        simp [Std.ReflCmp.compare_self] at h
      by_cases hl : l = e.1
      · simp [lookup_cons_eq_ite, hl, hk]
      · simp [lookup_cons_eq_ite, hl, ih]

end Lookup

variable [Std.TransOrd κ]

theorem lookup_eq_some_iff [DecidableEq κ] {es : List (κ × ν)}
    (hes : Increasing (es.map Prod.fst)) {k : κ} {v : ν} :
    es.lookup k = some v ↔ (k, v) ∈ es := by
  induction es with
  | nil => simp
  | cons e rest ih =>
    obtain ⟨he, hrest⟩ := List.pairwise_cons.mp hes
    by_cases hk : k = e.1
    · have hnew : (k, v) ∉ rest := fun hmem => by
        have := he k (List.mem_map_of_mem hmem)
        simp [hk, Std.ReflCmp.compare_self] at this
      simp [lookup_cons_eq_ite, hk, Prod.ext_iff, eq_comm, hk ▸ hnew]
    · simp [lookup_cons_eq_ite, ih hrest, hk, Prod.ext_iff]

theorem mem_entries [DecidableEq κ] {m : SortedMap κ ν} {k : κ} {v : ν} :
    (k, v) ∈ m.entries ↔ m.get? k = some v :=
  (lookup_eq_some_iff m.increasing).symm

theorem ext [DecidableEq κ] {m n : SortedMap κ ν} (h : ∀ k, m.get? k = n.get? k) : m = n := by
  have hm := List.pairwise_map.mp m.increasing
  have hn := List.pairwise_map.mp n.increasing
  have hnodup {es : List (κ × ν)} (hes : es.Pairwise fun e f => compare e.1 f.1 = .lt) :
      es.Nodup := hes.imp fun hlt heq => by
    simp [heq, Std.ReflCmp.compare_self] at hlt
  have hperm : m.entries.Perm n.entries :=
    (List.perm_ext_iff_of_nodup (hnodup hm) (hnodup hn)).mpr fun (k, v) => by
      rw [mem_entries, mem_entries, h]
  refine entries_injective (hperm.eq_of_pairwise (fun e f _ _ hlt hgt => ?_) hm hn)
  rw [Std.OrientedCmp.gt_of_lt hlt] at hgt
  cases hgt

theorem eq_of_getD_eq {d : ν} : {o p : Option ν} → o ≠ some d → p ≠ some d →
    o.getD d = p.getD d → o = p
  | none, none, _, _, _ => rfl
  | none, some _, _, hp, h => absurd (congrArg some h.symm) hp
  | some _, none, ho, _, h => absurd (congrArg some h) ho
  | some _, some _, _, _, h => congrArg some h

/-- Maps in which no value is `d` are equal if they are with `d` under the keys that are missing. -/
theorem ext_getD [DecidableEq κ] {m n : SortedMap κ ν} {d : ν} (hm : ∀ k, m.get? k ≠ some d)
    (hn : ∀ k, n.get? k ≠ some d) (h : ∀ k, (m.get? k).getD d = (n.get? k).getD d) : m = n :=
  ext fun k => eq_of_getD_eq (hm k) (hn k) (h k)

variable [Std.LawfulEqOrd κ]

def put (k : κ) (v : ν) (m : SortedMap κ ν) : SortedMap κ ν :=
  ⟨putInto k v m.entries, by
    rw [keys_putInto]
    exact SortedSet.increasing_insertInto m.increasing⟩

theorem get?_put [DecidableEq κ] (k l : κ) (v : ν) (m : SortedMap κ ν) :
    (m.put k v).get? l = if l = k then some v else m.get? l := lookup_putInto k l v m.entries

theorem put_ne_empty [DecidableEq κ] (k : κ) (v : ν) (m : SortedMap κ ν) : m.put k v ≠ ∅ := by
  intro h
  have hk := get?_put k k v m
  rw [h, if_pos rfl] at hk
  cases hk

end SortedMap
end FormalLanguage
