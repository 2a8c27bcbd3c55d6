import FormalLanguage.Description.TopLevel
import FormalLanguage.Proofs.Text

/-! Scanning for separators.

A stretch of text is `Clear` of a separator, from where its reader stands, if no
separator in it counts. Cutting and splitting go over a clear stretch as if it were
one character (`cutFrom_append`, `partsFrom_append`), so a text that is put
together from stretches that a reader `Passes` over is taken apart at the
separators between them, and nowhere else (`splitTopLevel_intercalate`). In turn
what is cut off and what is split off is clear (`cutFrom_eq_some`,
`clear_of_mem_splitTopLevel`).

Names are judged by their braces alone: `depthAfter` is how deep they leave a
reader, and agrees with the nesting as long as no quote is met. -/
namespace FormalLanguage.Description

/-! ### Clear stretches -/

/-- No separator counts while reading the text from `n`. -/
def Clear (separator : Char → Bool) : Nesting → List Char → Prop
  | _, [] => True
  | n, c :: rest => (n.isTop && separator c) = false ∧ Clear separator (n.next c) rest

instance Clear.decidable (separator : Char → Bool) :
    (n : Nesting) → (s : List Char) → Decidable (Clear separator n s)
  | _, [] => inferInstanceAs (Decidable True)
  | n, c :: rest =>
    have := Clear.decidable separator (n.next c) rest
    inferInstanceAs (Decidable ((n.isTop && separator c) = false ∧ Clear separator (n.next c) rest))

variable {separator : Char → Bool} {n : Nesting} {c : Char} {s t : List Char}

theorem Nesting.after_append (n : Nesting) (s t : List Char) :
    n.after (s ++ t) = (n.after s).after t := List.foldl_append

theorem clear_append : Clear separator n (s ++ t) ↔
    Clear separator n s ∧ Clear separator (n.after s) t := by
  induction s generalizing n with
  | nil => exact (and_iff_right trivial).symm
  | cons c s ih =>
    rw [List.cons_append, Clear, Clear, ih, and_assoc]
    rfl

theorem clear_iff : Clear separator n s ↔
    ∀ u c v, s = u ++ c :: v → (n.after u).isTop = true → separator c = false := by
  induction s generalizing n with
  | nil => exact ⟨fun _ u c v h => absurd h (by simp), fun _ => trivial⟩
  | cons d s ih =>
    rw [Clear, ih]
    refine ⟨fun h u c v hs htop => ?_, fun h => ⟨?_, fun u c v hs htop => ?_⟩⟩
    · cases u with
      | nil =>
        obtain ⟨rfl, _⟩ := List.cons.inj hs
        have htop : n.isTop = true := htop
        simpa [htop] using h.1
      | cons e u =>
        obtain ⟨rfl, hrest⟩ := List.cons.inj hs
        exact h.2 u c v hrest htop
    · cases htop : n.isTop with
      | false => rfl
      | true => exact h [] d s rfl htop
    · exact h (d :: u) c v (by rw [hs]; rfl) htop

theorem cutFrom_append (h : Clear separator n s) (t : List Char) :
    cutFrom separator n (s ++ t) =
      (cutFrom separator (n.after s) t).map fun (before, after) => (s ++ before, after) := by
  induction s generalizing n with
  | nil => simp [Nesting.after]
  | cons c s ih =>
    rw [List.cons_append, cutFrom, h.1, if_neg Bool.false_ne_true, ih h.2, Option.map_map]
    rfl

theorem cutFrom_eq_none_iff : cutFrom separator n s = none ↔ Clear separator n s := by
  refine ⟨fun h => ?_, fun h => ?_⟩
  · induction s generalizing n with
    | nil => trivial
    | cons c s ih =>
      unfold cutFrom at h
      split at h
      · cases h
      · next hc => exact ⟨Bool.eq_false_iff.mpr hc, ih (Option.map_eq_none_iff.mp h)⟩
  · rw [← List.append_nil s, cutFrom_append h]
    rfl

/-- A text is cut at a separator that counts, with a clear stretch before it. -/
theorem cutFrom_eq_some {u v : List Char} (h : cutFrom separator n s = some (u, v)) :
    ∃ c, s = u ++ c :: v ∧ separator c = true ∧ Clear separator n u ∧
      (n.after u).isTop = true := by
  induction s generalizing n u with
  | nil => cases h
  | cons c s ih =>
    unfold cutFrom at h
    split at h
    · next hc =>
      obtain ⟨rfl, rfl⟩ := Prod.mk.inj (Option.some.inj h)
      obtain ⟨htop, hc⟩ := Bool.and_eq_true_iff.mp hc
      exact ⟨c, rfl, hc, trivial, htop⟩
    · next hc =>
      obtain ⟨⟨u', v'⟩, hcut, heq⟩ := Option.map_eq_some_iff.mp h
      obtain ⟨rfl, rfl⟩ := Prod.mk.inj heq
      obtain ⟨d, rfl, hd, hclear, htop⟩ := ih hcut
      exact ⟨d, rfl, hd, ⟨Bool.eq_false_iff.mpr hc, hclear⟩, htop⟩

theorem cutFrom_separator (h : Clear separator n s) (htop : (n.after s).isTop = true)
    (hc : separator c = true) : cutFrom separator n (s ++ c :: t) = some (s, t) := by
  rw [cutFrom_append h, cutFrom, htop, hc]
  simp

theorem clear_of_forall (h : ∀ c ∈ s, separator c = false) (n : Nesting) : Clear separator n s :=
  clear_iff.mpr fun _ c _ hs _ => h c (hs ▸ List.mem_append_right _ (List.mem_cons_self ..))

theorem partsFrom_append (h : Clear separator n s) (t : List Char) :
    partsFrom separator n (s ++ t) =
      (s ++ (partsFrom separator (n.after s) t).1, (partsFrom separator (n.after s) t).2) := by
  induction s generalizing n with
  | nil => rfl
  | cons c s ih =>
    rw [List.cons_append, partsFrom, h.1, if_neg Bool.false_ne_true, ih h.2]
    rfl

theorem Nesting.eq_top (h : n.isTop = true) : n = .top := by
  obtain ⟨quoted, depth⟩ := n
  cases quoted with
  | true => cases h
  | false =>
    obtain rfl : depth = 0 := eq_of_beq h
    rfl

theorem clear_partsFrom (separator : Char → Bool) (n : Nesting) (s : List Char) :
    Clear separator n (partsFrom separator n s).1 ∧
      ∀ part ∈ (partsFrom separator n s).2, Clear separator .top part := by
  induction s generalizing n with
  | nil => exact ⟨trivial, nofun⟩
  | cons c s ih =>
    unfold partsFrom
    split
    · next hc =>
      obtain rfl := Nesting.eq_top (Bool.and_eq_true_iff.mp hc).1
      obtain ⟨hpart, hparts⟩ := ih .top
      exact ⟨trivial, List.forall_mem_cons.mpr ⟨hpart, hparts⟩⟩
    · next hc =>
      obtain ⟨hpart, hparts⟩ := ih (n.next c)
      exact ⟨⟨Bool.eq_false_iff.mpr hc, hpart⟩, hparts⟩

/-- A part is clear when it is read on its own. -/
theorem clear_of_mem_splitTopLevel {part : List Char} (h : part ∈ splitTopLevel separator s) :
    Clear separator .top part := by
  obtain ⟨hpart, hparts⟩ := clear_partsFrom separator .top s
  exact List.forall_mem_cons.mpr ⟨hpart, hparts⟩ part h

theorem partsFrom_isInfix (separator : Char → Bool) (n : Nesting) (s : List Char) :
    (partsFrom separator n s).1 <+: s ∧ ∀ part ∈ (partsFrom separator n s).2, part <:+: s := by
  induction s generalizing n with
  | nil => exact ⟨List.prefix_rfl, nofun⟩
  | cons c s ih =>
    have hcons : s <:+: c :: s := (List.suffix_cons c s).isInfix
    unfold partsFrom
    split
    · obtain ⟨hpart, hparts⟩ := ih n
      refine ⟨List.nil_prefix, List.forall_mem_cons.mpr ⟨hpart.isInfix.trans hcons, ?_⟩⟩
      exact fun part hmem => (hparts part hmem).trans hcons
    · obtain ⟨hpart, hparts⟩ := ih (n.next c)
      exact ⟨(List.prefix_cons_inj c).mpr hpart, fun part hmem => (hparts part hmem).trans hcons⟩

/-- A part is a stretch of the text. -/
theorem isInfix_of_mem_splitTopLevel (h : t ∈ splitTopLevel separator s) : t <:+: s := by
  obtain ⟨hpart, hparts⟩ := partsFrom_isInfix separator .top s
  rcases List.mem_cons.mp h with rfl | h
  · exact hpart.isInfix
  · exact hparts t h

/-! ### More at the end of a text -/

/-- Where a text is cut does not depend on what follows it without a separator. -/
theorem cutFrom_append_right (ht : ∀ c ∈ t, separator c = false) (n : Nesting) (s : List Char) :
    cutFrom separator n (s ++ t) =
      (cutFrom separator n s).map fun (before, after) => (before, after ++ t) := by
  induction s generalizing n with
  | nil => exact cutFrom_eq_none_iff.mpr (clear_of_forall ht n)
  | cons c s ih =>
    rw [List.cons_append, cutFrom, cutFrom]
    split
    · rfl
    · rw [ih, Option.map_map, Option.map_map]
      rfl

/-- What follows a text without a separator goes to the last part. -/
theorem exists_last_splitTopLevel (ht : ∀ c ∈ t, separator c = false) (s : List Char) :
    ∃ parts last, splitTopLevel separator s = parts ++ [last] ∧
      splitTopLevel separator (s ++ t) = parts ++ [last ++ t] := by
  suffices hfrom : ∀ n, ∃ parts last,
      (partsFrom separator n s).1 :: (partsFrom separator n s).2 = parts ++ [last] ∧
        (partsFrom separator n (s ++ t)).1 :: (partsFrom separator n (s ++ t)).2 =
          parts ++ [last ++ t] from hfrom .top
  intro n
  induction s generalizing n with
  | nil =>
    have hclear := partsFrom_append (clear_of_forall ht n) []
    rw [List.append_nil] at hclear
    exact ⟨[], [], rfl, by rw [List.nil_append, hclear]; simp [partsFrom]⟩
  | cons c s ih =>
    rw [List.cons_append, partsFrom, partsFrom]
    split
    · obtain ⟨parts, last, hs, hst⟩ := ih n
      exact ⟨[] :: parts, last, by simp [hs], by simp [hst]⟩
    · obtain ⟨parts, last, hs, hst⟩ := ih (n.next c)
      cases parts with
      | nil =>
        obtain ⟨hpart, hparts⟩ := List.cons.inj hs
        obtain ⟨hpart', hparts'⟩ := List.cons.inj hst
        exact ⟨[], c :: last, by simp [hpart, hparts], by simp [hpart', hparts']⟩
      | cons part parts =>
        obtain ⟨hpart, hparts⟩ := List.cons.inj hs
        obtain ⟨hpart', hparts'⟩ := List.cons.inj hst
        exact ⟨(c :: part) :: parts, last, by simp [hpart, hparts], by simp [hpart', hparts']⟩

/-! ### Passing over a text -/

/-- A reader at the top passes over the text and is at the top again, with no separator met. -/
structure Passes (separator : Char → Bool) (s : List Char) : Prop where
  clear : Clear separator .top s
  after_eq : Nesting.top.after s = .top

theorem Passes.append (hs : Passes separator s) (ht : Passes separator t) :
    Passes separator (s ++ t) := by
  refine ⟨clear_append.mpr ⟨hs.clear, ?_⟩, ?_⟩
  · rw [hs.after_eq]
    exact ht.clear
  · rw [Nesting.after_append, hs.after_eq, ht.after_eq]

theorem Passes.append_clear (hs : Passes separator s) (ht : Clear separator .top t) :
    Clear separator .top (s ++ t) := by
  refine clear_append.mpr ⟨hs.clear, ?_⟩
  rw [hs.after_eq]
  exact ht

/-- Characters that neither nest nor separate. -/
def Plain (separator : Char → Bool) (s : List Char) : Prop :=
  ∀ c ∈ s, separator c = false ∧ c ≠ '"' ∧ c ≠ '{' ∧ c ≠ '}'

instance (separator : Char → Bool) (s : List Char) : Decidable (Plain separator s) :=
  List.decidableBAll _ s

theorem Plain.passes (h : Plain separator s) : Passes separator s := by
  induction s with
  | nil => exact ⟨trivial, rfl⟩
  | cons c s ih =>
    obtain ⟨hseparator, hquote, hopen, hclose⟩ := h c (List.mem_cons_self ..)
    have hnext : Nesting.top.next c = .top := by
      simp [Nesting.next, Nesting.top, hquote, hopen, hclose]
    obtain ⟨hclear, hafter⟩ := ih fun d hd => h d (List.mem_cons_of_mem _ hd)
    refine ⟨⟨by rw [hseparator, Bool.and_false], ?_⟩, ?_⟩
    · rw [hnext]
      exact hclear
    · rw [Nesting.after, List.foldl_cons, hnext]
      exact hafter

theorem plain_of_blank (hs : Text.Blank s)
    (hseparator : ∀ c, Text.isBlank c = true → separator c = false) : Plain separator s := by
  intro c hc
  exact ⟨hseparator c (hs c hc), hs.ne_of_mem hc (by decide), hs.ne_of_mem hc (by decide),
    hs.ne_of_mem hc (by decide)⟩

theorem cutTopLevel?_eq_none_iff : cutTopLevel? separator s = none ↔ Clear separator .top s :=
  cutFrom_eq_none_iff

theorem cutTopLevel?_separator (hs : Passes separator s) (hc : separator c = true)
    (t : List Char) : cutTopLevel? separator (s ++ c :: t) = some (s, t) := by
  have htop : (Nesting.top.after s).isTop = true := by
    rw [hs.after_eq]
    rfl
  exact cutFrom_separator hs.clear htop hc

theorem splitTopLevel_of_clear (hs : Clear separator .top s) : splitTopLevel separator s = [s] := by
  have hparts := partsFrom_append hs []
  rw [List.append_nil] at hparts
  rw [splitTopLevel, hparts]
  simp [partsFrom]

theorem splitTopLevel_separator (hs : Passes separator s) (hc : separator c = true) :
    splitTopLevel separator (s ++ c :: t) = s :: splitTopLevel separator t := by
  have htop : Nesting.top.isTop = true := rfl
  rw [splitTopLevel, partsFrom_append hs.clear, hs.after_eq, partsFrom, htop, hc]
  simp [splitTopLevel]

/-- Clear texts with separators between them are split at these, if each but the last leaves its
reader at the top again. -/
theorem splitTopLevel_intercalate {parts : List (List Char)} (hparts : parts ≠ [])
    (hc : separator c = true) (hclear : ∀ s ∈ parts, Clear separator .top s)
    (hafter : ∀ s ∈ parts.dropLast, Nesting.top.after s = .top) :
    splitTopLevel separator (List.intercalate [c] parts) = parts := by
  induction parts with
  | nil => exact absurd rfl hparts
  | cons part parts ih =>
    have hpart := hclear part (List.mem_cons_self ..)
    cases parts with
    | nil =>
      rw [List.intercalate_singleton]
      exact splitTopLevel_of_clear hpart
    | cons next parts =>
      obtain ⟨hlast, hrest⟩ := List.forall_mem_cons.mp hafter
      rw [List.intercalate_cons_cons, List.append_assoc, List.singleton_append,
        splitTopLevel_separator ⟨hpart, hlast⟩ hc,
        ih (List.cons_ne_nil _ _) (fun s hs => hclear s (List.mem_cons_of_mem _ hs)) hrest]

/-! ### Quotations -/

/-- Nothing counts inside a quotation, and nothing but a quote ends it. -/
theorem clear_quoted (hs : '"' ∉ s) (depth : Nat) :
    Clear separator ⟨true, depth⟩ s ∧ Nesting.after ⟨true, depth⟩ s = ⟨true, depth⟩ := by
  induction s with
  | nil => exact ⟨trivial, rfl⟩
  | cons c s ih =>
    obtain ⟨hc, hs⟩ := not_or.mp (mt List.mem_cons.mpr hs)
    have hnext : Nesting.next ⟨true, depth⟩ c = ⟨true, depth⟩ := by
      simp [Nesting.next, Ne.symm hc]
    rw [Clear, Nesting.after, List.foldl_cons, hnext]
    exact ⟨⟨rfl, (ih hs).1⟩, (ih hs).2⟩

theorem passes_quoted (hs : '"' ∉ s) (hquote : separator '"' = false) :
    Passes separator ('"' :: s ++ ['"']) := by
  obtain ⟨hclear, hafter⟩ := clear_quoted hs 0
  refine ⟨⟨by rw [hquote, Bool.and_false], ?_⟩, ?_⟩
  · show Clear separator ⟨true, 0⟩ (s ++ ['"'])
    rw [clear_append, hafter]
    exact ⟨hclear, rfl, trivial⟩
  · show Nesting.after ⟨true, 0⟩ (s ++ ['"']) = .top
    rw [Nesting.after_append, hafter]
    rfl

/-! ### Braces -/

/-- The depth of braces after one more character; nothing closes at depth zero. -/
def braceDepth (depth : Nat) (c : Char) : Nat :=
  if c = '{' then depth + 1 else if c = '}' then depth - 1 else depth

/-- The depth of braces after a text. -/
def depthAfter (s : List Char) : Nat := s.foldl braceDepth 0

theorem after_unquoted (hs : '"' ∉ s) (depth : Nat) :
    Nesting.after ⟨false, depth⟩ s = ⟨false, s.foldl braceDepth depth⟩ := by
  induction s generalizing depth with
  | nil => rfl
  | cons c s ih =>
    obtain ⟨hc, hs⟩ := not_or.mp (mt List.mem_cons.mpr hs)
    have hnext : Nesting.next ⟨false, depth⟩ c = ⟨false, braceDepth depth c⟩ := by
      unfold Nesting.next braceDepth
      rw [if_neg (Ne.symm hc)]
      split
      · next h => cases h
      · split
        · rfl
        · split <;> rfl
    rw [Nesting.after, List.foldl_cons, hnext, List.foldl_cons]
    exact ih hs _

theorem after_top_of_unquoted (hs : '"' ∉ s) : Nesting.top.after s = ⟨false, depthAfter s⟩ :=
  after_unquoted hs 0

/-- A text without quotes is clear of a separator if it has none where no brace is open. -/
theorem clear_top_iff (hs : '"' ∉ s) : Clear separator .top s ↔
    ∀ u c v, s = u ++ c :: v → depthAfter u = 0 → separator c = false := by
  rw [clear_iff]
  refine forall_congr' fun u => forall₂_congr fun c v => imp_congr_right fun hsplit => ?_
  have hu : '"' ∉ u := fun hquote => hs (hsplit ▸ List.mem_append_left _ hquote)
  rw [after_top_of_unquoted hu]
  simp [Nesting.isTop]

end FormalLanguage.Description
