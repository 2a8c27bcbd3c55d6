import FormalLanguage.Proofs.Description.Reader
import Mathlib.Data.List.Infix

/-! Names between braces.

The name of a merged state has the names of its members between braces, with blanks
and commas that must not count. They do not if no member closes a brace that it has
not opened: then the brace around all of them stays open up to the end
(`eq_open_of_braced`). Names that close what they open and no more are `Balanced`, and
merging makes of `Sturdy` names, which are readable wherever they stand, sturdy ones
again (`Sturdy.merge`). -/
namespace FormalLanguage
open Text

namespace Description

variable {s t u v name : List Char} {names : List (List Char)} {c : Char}

/-! ### Braces that close -/

/-- No beginning of the text closes more braces than it opens. -/
def ClosesOwn (s : List Char) : Prop := ∀ u, u <+: s → u.count '}' ≤ u.count '{'

instance (s : List Char) : Decidable (ClosesOwn s) :=
  decidable_of_iff (∀ u ∈ s.inits, u.count '}' ≤ u.count '{') (by simp [ClosesOwn])

theorem ClosesOwn.of_isPrefix (hs : ClosesOwn s) (h : t <+: s) : ClosesOwn t :=
  fun u hu => hs u (hu.trans h)

theorem ClosesOwn.append (hs : ClosesOwn s) (ht : ClosesOwn t) : ClosesOwn (s ++ t) := by
  intro u hu
  rcases List.prefix_or_prefix_of_prefix hu (List.prefix_append s t) with h | ⟨w, rfl⟩
  · exact hs u h
  · have hw := ht w ((List.prefix_append_right_inj s).mp hu)
    have hwhole := hs s List.prefix_rfl
    rw [List.count_append, List.count_append]
    omega

theorem closesOwn_intercalate (h : ∀ name ∈ names, ClosesOwn name) :
    ClosesOwn (List.intercalate [',', ' '] names) :=
  intercalate_induction (by decide) (fun _ _ => .append) (by decide) h

theorem braceDepth_add {depth : Nat} (h : c = '}' → 0 < depth) :
    braceDepth depth c + [c].count '}' = depth + [c].count '{' := by
  rw [braceDepth]
  split
  · next hopen =>
    subst hopen
    rfl
  · next hopen =>
    split
    · next hclose =>
      subst hclose
      exact Nat.sub_add_cancel (h rfl)
    · next hclose => simp [hopen, hclose]

/-- Where nothing is closed that was not opened, depths add up. -/
theorem ClosesOwn.foldl_braceDepth (hs : ClosesOwn s) (k : Nat) :
    s.foldl braceDepth k + s.count '}' = k + s.count '{' := by
  -- From the end of the text, since the beginnings of a beginning are known of, and those of a rest
  -- are not.
  induction s using List.reverseRecOn with
  | nil => rfl
  | append_singleton s c ih =>
    have hrest := ih (hs.of_isPrefix (List.prefix_append s [c]))
    have hlast : c = '}' → 0 < s.foldl braceDepth k := by
      rintro rfl
      have hwhole : (s ++ ['}']).count '}' ≤ (s ++ ['}']).count '{' := hs _ List.prefix_rfl
      simp only [List.count_append, List.count_singleton_self] at hwhole
      have hother : ['}'].count '{' = 0 := rfl
      omega
    have hstep := braceDepth_add hlast
    rw [List.count_append, List.count_append, List.foldl_append, List.foldl_cons, List.foldl_nil]
    omega

/-- The outer brace stays open until it is closed at the end. -/
theorem eq_open_of_braced (h : ∀ name ∈ names, ClosesOwn name)
    (hsplit : State.braced names = u ++ c :: v) (hdepth : depthAfter u = 0) : c = '{' := by
  cases u with
  | nil => exact (List.cons.inj hsplit).1.symm
  | cons d u =>
    obtain ⟨rfl, hrest⟩ : '{' = d ∧ List.intercalate [',', ' '] names ++ ['}'] = u ++ c :: v :=
      List.cons.inj hsplit
    have hbody := closesOwn_intercalate h
    -- The last brace is `c` or behind it, so before `c` there is nothing but names.
    have hu : u <+: List.intercalate [',', ' '] names := by
      rcases List.prefix_concat_iff.mp ⟨c :: v, hrest.symm⟩ with rfl | hu
      · rw [List.self_eq_append_right] at hrest
        cases hrest
      · exact hu
    have hopen : 1 ≤ u.foldl braceDepth 1 := by
      have hsum := (hbody.of_isPrefix hu).foldl_braceDepth 1
      have hcount := hbody u hu
      omega
    have hdepth : u.foldl braceDepth 1 = 0 := hdepth
    omega

/-! ### Balanced names -/

/-- Every brace is closed, and none before it was opened. -/
structure Balanced (s : List Char) : Prop where
  closesOwn : ClosesOwn s
  settled : s.count '}' = s.count '{'

instance (s : List Char) : Decidable (Balanced s) :=
  decidable_of_iff (ClosesOwn s ∧ s.count '}' = s.count '{')
    ⟨fun ⟨hs, hsettled⟩ => ⟨hs, hsettled⟩, fun h => ⟨h.closesOwn, h.settled⟩⟩

theorem Balanced.depthAfter_eq (h : Balanced s) : depthAfter s = 0 := by
  have hsum := h.closesOwn.foldl_braceDepth 0
  rw [h.settled, Nat.zero_add, Nat.add_eq_right] at hsum
  exact hsum

theorem Balanced.append (hs : Balanced s) (ht : Balanced t) : Balanced (s ++ t) := by
  refine ⟨hs.closesOwn.append ht.closesOwn, ?_⟩
  rw [List.count_append, List.count_append, hs.settled, ht.settled]

theorem Balanced.intercalate (h : ∀ name ∈ names, Balanced name) :
    Balanced (List.intercalate [',', ' '] names) :=
  intercalate_induction (by decide) (fun _ _ => .append) (by decide) h

theorem Balanced.enclose (h : Balanced s) : Balanced ('{' :: s ++ ['}']) := by
  refine ⟨fun u hu => ?_, ?_⟩
  · rcases List.prefix_cons_iff.mp hu with rfl | ⟨w, rfl, hw⟩
    · exact Nat.le_refl 0
    · rcases List.prefix_concat_iff.mp hw with rfl | hw
      · simp [h.settled]
      · simpa using Nat.le_succ_of_le (h.closesOwn w hw)
  · simp [h.settled]

/-! ### Sturdy names -/

/-- A name that is readable wherever it stands, in a merged name too. -/
structure Sturdy (name : List Char) : Prop where
  nonempty : name ≠ []
  unquoted : '"' ∉ name
  oneLine : '\n' ∉ name
  noArrow : ¬ ['-', '>'] <+: name
  noStar : ¬ ['*'] <+: name
  balanced : Balanced name
  shielded : ∀ u c v, name = u ++ c :: v → depthAfter u = 0 → isBlank c = false ∧ c ≠ ':' ∧ c ≠ ','

theorem Sturdy.unbroken (h : Sturdy name) : Unbroken name :=
  ⟨h.nonempty, h.unquoted, h.oneLine, h.shielded, h.balanced.depthAfter_eq⟩

theorem sturdy_iff : Sturdy name ↔
    Unbroken name ∧ Balanced name ∧ ¬ ['-', '>'] <+: name ∧ ¬ ['*'] <+: name :=
  ⟨fun h => ⟨h.unbroken, h.balanced, h.noArrow, h.noStar⟩,
    fun ⟨h, hbalanced, harrow, hstar⟩ =>
      ⟨h.nonempty, h.unquoted, h.oneLine, harrow, hstar, hbalanced, h.shielded⟩⟩

instance (name : List Char) : Decidable (Sturdy name) := decidable_of_iff' _ sturdy_iff

theorem notMem_braced (hc : c ∉ ['{', ',', ' ', '}']) (h : ∀ name ∈ names, c ∉ name) :
    c ∉ State.braced names := by
  simp only [List.mem_cons, List.not_mem_nil, or_false, not_or] at hc
  obtain ⟨hopen, hcomma, hspace, hclose⟩ := hc
  simp only [State.braced, List.mem_append, List.mem_cons, List.not_mem_nil, or_false, not_or]
  refine ⟨⟨hopen, fun hmem => ?_⟩, hclose⟩
  rcases mem_intercalate hmem with hmem | ⟨name, hname, hmem⟩
  · simp [hcomma, hspace] at hmem
  · exact h name hname hmem

theorem Sturdy.braced (h : ∀ name ∈ names, Sturdy name) : Sturdy (State.braced names) := by
  refine ⟨List.cons_ne_nil _ _, notMem_braced (by decide) fun name hname => (h name hname).unquoted,
    notMem_braced (by decide) fun name hname => (h name hname).oneLine, ?_, ?_,
    (Balanced.intercalate fun name hname => (h name hname).balanced).enclose,
    fun u c v hsplit hdepth => ?_⟩
  · simp [State.braced]
  · simp [State.braced]
  · obtain rfl := eq_open_of_braced (fun name hname => (h name hname).balanced.closesOwn) hsplit
      hdepth
    decide

/-! ### Merged names -/

variable {q : State}

/-- A set is merged into its only state, or into the names of several states between braces. -/
theorem merge_cases {s : StateSet} (hq : q ∈ s) : s = {q} ∨
    (∃ p p', p ∈ s ∧ p' ∈ s ∧ p ≠ p') ∧
      (State.merge s).chars = State.braced (s.toList.map (·.chars)) := by
  obtain ⟨l, hl⟩ := s
  match l, hl, hq with
  | [p], _, hq =>
    obtain rfl := List.mem_singleton.mp hq
    exact .inl rfl
  | p :: p' :: rest, hl, _ =>
    have hlt := (List.pairwise_cons.mp hl).1 p' (List.mem_cons_self ..)
    refine .inr ⟨⟨p, p', List.mem_cons_self .., List.mem_cons_of_mem _ (List.mem_cons_self ..), ?_⟩,
      rfl⟩
    rintro rfl
    rw [Std.ReflOrd.compare_self] at hlt
    cases hlt

/-- What holds of the members, and of names between braces if of these names, holds of the
result. -/
theorem merge_induction {P : List Char → Prop} {s : StateSet} (hq : q ∈ s)
    (h : ∀ p ∈ s, P p.chars)
    (hbraced : ∀ names, (∀ name ∈ names, P name) → P (State.braced names)) :
    P (State.merge s).chars := by
  rcases merge_cases hq with rfl | ⟨_, hchars⟩
  · exact h q (SortedSet.mem_singleton.mpr rfl)
  · rw [hchars]
    refine hbraced _ fun name hname => ?_
    obtain ⟨p, hp, rfl⟩ := List.mem_map.mp hname
    exact h p hp

theorem Sturdy.merge {s : StateSet} (hq : q ∈ s) (h : ∀ p ∈ s, Sturdy p.chars) :
    Sturdy (State.merge s).chars := merge_induction hq h fun _ => Sturdy.braced

end Description
end FormalLanguage
