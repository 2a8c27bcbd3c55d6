import FormalLanguage.Text.Alphanumeric
import FormalLanguage.Text.Blank
import FormalLanguage.Text.Line
import Mathlib.Data.List.TakeWhile

/-! Trimming a text between blanks, texts put together from parts, and cutting a text into lines. -/
namespace FormalLanguage.Text

/-! ### Blanks -/

/-- A text of blanks only, the empty one included. -/
def Blank (s : List Char) : Prop := ∀ c ∈ s, isBlank c = true

instance (s : List Char) : Decidable (Blank s) := List.decidableBAll _ s

theorem Blank.nil : Blank [] := nofun

theorem Blank.append {s t : List Char} (hs : Blank s) (ht : Blank t) : Blank (s ++ t) := by
  intro c hc
  rcases List.mem_append.mp hc with hc | hc
  · exact hs c hc
  · exact ht c hc

theorem trimStart_append {u s : List Char} (hu : Blank u) : trimStart (u ++ s) = trimStart s :=
  List.dropWhile_append_of_pos hu

theorem trimStart_eq_self {s : List Char} (h : ∀ c ∈ s.head?, isBlank c = false) :
    trimStart s = s := dropWhile_isBlank_eq_self h

theorem trimEnd_append {s v : List Char} (hv : Blank v) : trimEnd (s ++ v) = trimEnd s := by
  have hreverse : ∀ c ∈ v.reverse, isBlank c = true := fun c hc => hv c (List.mem_reverse.mp hc)
  rw [trimEnd, List.reverse_append, List.dropWhile_append_of_pos hreverse, ← trimEnd]

theorem Blank.notMem {s : List Char} {c : Char} (hs : Blank s) (hc : isBlank c = false) :
    c ∉ s := by
  intro hmem
  rw [hs c hmem] at hc
  cases hc

theorem Blank.ne_of_mem {s : List Char} {c d : Char} (hs : Blank s) (hd : d ∈ s)
    (hc : isBlank c = false) : d ≠ c := fun heq => hs.notMem hc (heq ▸ hd)

theorem notMem_between {u s v : List Char} {c : Char} (hu : Blank u) (hs : c ∉ s) (hv : Blank v)
    (hc : isBlank c = false) : c ∉ u ++ s ++ v := by
  simp only [List.mem_append, not_or]
  exact ⟨⟨hu.notMem hc, hs⟩, hv.notMem hc⟩

/-- Blanks around a text make no difference to trimming it. -/
theorem trim_padded {u s v : List Char} (hu : Blank u) (hv : Blank v) :
    trim (u ++ s ++ v) = trim s := by
  rw [List.append_assoc, trim, trimStart_append hu, trimStart, List.dropWhile_append]
  split
  · next hs =>
    rw [trim, trimStart, List.isEmpty_iff.mp hs, List.dropWhile_eq_nil_iff.mpr hv]
  · exact trimEnd_append hv

theorem trim_append {v : List Char} (hv : Blank v) (s : List Char) : trim (s ++ v) = trim s := by
  simpa using trim_padded (s := s) .nil hv

/-- Trimming finds a trimmed text between blanks. -/
theorem trim_between {u s v : List Char} (hu : Blank u) (hs : Trimmed s) (hv : Blank v) :
    trim (u ++ s ++ v) = s :=
  (trim_padded hu hv).trans (trim_eq_self hs)

theorem trimmed_of_exists {s : List Char} (hhead : ∃ c ∈ s.head?, isBlank c = false)
    (hlast : ∃ c ∈ s.getLast?, isBlank c = false) : Trimmed s := by
  obtain ⟨c, hc, hhead⟩ := hhead
  obtain ⟨d, hd, hlast⟩ := hlast
  refine ⟨fun e he => ?_, fun e he => ?_⟩
  · rw [Option.mem_unique he hc]
    exact hhead
  · rw [Option.mem_unique he hd]
    exact hlast

theorem trimmed_of_forall {s : List Char} (h : ∀ c ∈ s, isBlank c = false) : Trimmed s :=
  ⟨fun c hc => h c (List.mem_of_head? hc), fun c hc => h c (List.mem_of_getLast? hc)⟩

theorem exists_head_append {s : List Char} (hs : ∃ c ∈ s.head?, isBlank c = false)
    (t : List Char) : ∃ c ∈ (s ++ t).head?, isBlank c = false := by
  obtain ⟨c, hc, hblank⟩ := hs
  refine ⟨c, ?_, hblank⟩
  rw [List.head?_append, Option.mem_def.mp hc]
  rfl

theorem exists_last_append {t : List Char} (ht : ∃ c ∈ t.getLast?, isBlank c = false)
    (s : List Char) : ∃ c ∈ (s ++ t).getLast?, isBlank c = false := by
  obtain ⟨c, hc, hblank⟩ := ht
  refine ⟨c, ?_, hblank⟩
  rw [List.getLast?_append, Option.mem_def.mp hc]
  rfl

/-- What stands between a text that does not begin and one that does not end with a blank. -/
theorem trimmed_around {s t : List Char} (hs : ∃ c ∈ s.head?, isBlank c = false)
    (ht : ∃ c ∈ t.getLast?, isBlank c = false) (m : List Char) : Trimmed (s ++ m ++ t) := by
  refine trimmed_of_exists ?_ (exists_last_append ht _)
  rw [List.append_assoc]
  exact exists_head_append hs _

theorem mem_trimStart {s : List Char} {c : Char} (hc : c ∈ s) (hblank : isBlank c = false) :
    c ∈ trimStart s := by
  rw [← List.takeWhile_append_dropWhile (p := isBlank) (l := s)] at hc
  rcases List.mem_append.mp hc with hc | hc
  · rw [List.mem_takeWhile_imp hc] at hblank
    exact absurd hblank (by decide)
  · exact hc

/-- Trimming keeps what is not blank. -/
theorem mem_trim {s : List Char} {c : Char} (hc : c ∈ s) (hblank : isBlank c = false) :
    c ∈ trim s := by
  rw [trim, trimEnd, List.mem_reverse]
  exact mem_trimStart (List.mem_reverse.mpr (mem_trimStart hc hblank)) hblank

/-- Trimming removes blanks, and from the ends only. -/
theorem exists_trim (s : List Char) : ∃ u v, Blank u ∧ Blank v ∧ s = u ++ trim s ++ v := by
  refine ⟨s.takeWhile isBlank, ((trimStart s).reverse.takeWhile isBlank).reverse,
    fun c hc => List.mem_takeWhile_imp hc,
    fun c hc => List.mem_takeWhile_imp (List.mem_reverse.mp hc), ?_⟩
  rw [trim, trimEnd, List.append_assoc, ← List.reverse_append, List.takeWhile_append_dropWhile,
    List.reverse_reverse, trimStart, List.takeWhile_append_dropWhile]

/-- A word with any blanks around it. -/
inductive Padded (word : List Char) : List Char → Prop where
  | intro {u v : List Char} (hu : Blank u) (hv : Blank v) : Padded word (u ++ word ++ v)

theorem padded_iff {word s : List Char} (hword : Trimmed word) : Padded word s ↔ trim s = word := by
  constructor
  · rintro ⟨hu, hv⟩
    exact trim_between hu hword hv
  · rintro rfl
    obtain ⟨u, v, hu, hv, hs⟩ := exists_trim s
    have h : Padded (trim s) (u ++ trim s ++ v) := .intro hu hv
    rwa [← hs] at h

theorem trim_isInfix (s : List Char) : trim s <:+: s := by
  obtain ⟨u, v, _, _, hs⟩ := exists_trim s
  exact ⟨u, v, hs.symm⟩

theorem trim_eq_nil_iff {s : List Char} : trim s = [] ↔ Blank s := by
  constructor
  · intro h
    obtain ⟨u, v, hu, hv, hs⟩ := exists_trim s
    rw [hs, h, List.append_nil]
    exact hu.append hv
  · intro h
    have htrim : trim (s ++ [] ++ []) = [] := trim_between h trimmed_nil .nil
    rwa [List.append_nil, List.append_nil] at htrim

theorem isBlankText_eq_false {s : List Char} {c : Char} (hc : c ∈ s) (hblank : isBlank c = false) :
    isBlankText s = false :=
  List.isEmpty_eq_false_iff.mpr (List.ne_nil_of_mem (mem_trim hc hblank))

theorem isBlankText_of_blank {s : List Char} (h : Blank s) : isBlankText s = true := by
  rw [isBlankText, trim_eq_nil_iff.mpr h]
  rfl

/-- Behind a text that does not end with a blank, a blank at the end is one of those added. -/
theorem exists_append_of_last {s t v : List Char} {c : Char}
    (hs : ∃ d ∈ s.getLast?, isBlank d = false) (hc : isBlank c = true) (h : s ++ v = t ++ [c]) :
    ∃ w, v = w ++ [c] ∧ t = s ++ w := by
  rcases List.eq_nil_or_concat v with rfl | ⟨w, d, rfl⟩
  · obtain ⟨d, hd, hblank⟩ := hs
    rw [List.append_nil] at h
    rw [h, List.getLast?_concat, Option.mem_some_iff] at hd
    rw [← hd, hc] at hblank
    cases hblank
  · rw [List.concat_eq_append, ← List.append_assoc] at h
    obtain ⟨rfl, hd⟩ := List.append_inj' h rfl
    obtain rfl := List.singleton_inj.mp hd
    exact ⟨w, List.concat_eq_append, rfl⟩

/-! ### Letters and digits -/

theorem CodeRanges.exists_of_contains {c : Char} {ranges : CodeRanges}
    (h : CodeRanges.contains c ranges = true) : ∃ r ∈ ranges, r.1 ≤ c.toNat ∧ c.toNat ≤ r.2 := by
  fun_induction CodeRanges.contains c ranges with
  | case1 => cases h
  | case2 => cases h
  | case3 low high above hlow ih =>
    rw [Bool.or_eq_true, decide_eq_true_iff] at h
    rcases h with hhigh | h
    · exact ⟨_, List.mem_cons_self .., Nat.le_of_not_lt hlow, hhigh⟩
    · obtain ⟨r, hr, hc⟩ := ih h
      exact ⟨r, List.mem_cons_of_mem _ hr, hc⟩

theorem isBlank_eq_false_of_isAlphanumeric {c : Char} (hc : isAlphanumeric c = true) :
    isBlank c = false := by
  have hapart : ∀ r ∈ alphabets ++ symbolsAndIdeographs ++ supplementary, ∀ b ∈ blankRanges,
      r.2 < b.1 ∨ b.2 < r.1 := by decide +kernel
  have hletter : ∃ r ∈ alphabets ++ symbolsAndIdeographs ++ supplementary,
      r.1 ≤ c.toNat ∧ c.toNat ≤ r.2 := by
    simp only [isAlphanumeric, Bool.or_eq_true] at hc
    rcases hc with (hc | hc) | hc
    all_goals
      obtain ⟨r, hr, hbounds⟩ := CodeRanges.exists_of_contains hc
      exact ⟨r, by simp [hr], hbounds⟩
  obtain ⟨r, hr, hlow, hhigh⟩ := hletter
  rw [← Bool.not_eq_true]
  intro hblank
  obtain ⟨b, hb, hlow', hhigh'⟩ := CodeRanges.exists_of_contains hblank
  have := hapart r hr b hb
  omega

theorem isBlank_eq_false_of_between {c : Char} (hlow : 0x21 ≤ c.toNat) (hhigh : c.toNat ≤ 0x7E) :
    isBlank c = false := by
  have hapart : ∀ b ∈ blankRanges, b.2 < 0x21 ∨ 0x7E < b.1 := by decide
  rw [← Bool.not_eq_true]
  intro hblank
  obtain ⟨b, hb, hlow', hhigh'⟩ := CodeRanges.exists_of_contains hblank
  have := hapart b hb
  omega

/-! ### Parts with a separator between them -/

section Intercalate
variable {sep : List Char} {l : List (List Char)}

/-- What holds of the parts and the separator, and of a text and another behind it, holds of all. -/
theorem intercalate_induction {P : List Char → Prop} (hnil : P [])
    (happend : ∀ s t, P s → P t → P (s ++ t)) (hsep : P sep) (hl : ∀ s ∈ l, P s) :
    P (List.intercalate sep l) := by
  induction l with
  | nil => exact hnil
  | cons s l ih =>
    obtain ⟨hs, hl⟩ := List.forall_mem_cons.mp hl
    cases l with
    | nil =>
      rw [List.intercalate_singleton]
      exact hs
    | cons s' l =>
      rw [List.intercalate_cons_cons]
      exact happend _ _ (happend _ _ hs hsep) (ih hl)

theorem mem_intercalate {c : Char} (h : c ∈ List.intercalate sep l) :
    c ∈ sep ∨ ∃ s ∈ l, c ∈ s := by
  refine intercalate_induction (P := fun t => c ∈ t → c ∈ sep ∨ ∃ s ∈ l, c ∈ s) ?_
    (fun s t hs ht hc => ?_) .inl (fun s hs hc => .inr ⟨s, hs, hc⟩) h
  · exact fun hc => absurd hc List.not_mem_nil
  · exact (List.mem_append.mp hc).elim hs ht

theorem exists_last_intercalate (hne : l ≠ [])
    (hl : ∀ s ∈ l, ∃ c ∈ s.getLast?, isBlank c = false) (sep : List Char) :
    ∃ c ∈ (List.intercalate sep l).getLast?, isBlank c = false := by
  induction l with
  | nil => exact absurd rfl hne
  | cons s l ih =>
    cases l with
    | nil =>
      rw [List.intercalate_singleton]
      exact hl s (List.mem_cons_self ..)
    | cons s' l =>
      rw [List.intercalate_cons_cons]
      exact exists_last_append (ih (List.cons_ne_nil _ _) fun s hs =>
        hl s (List.mem_cons_of_mem _ hs)) _

end Intercalate

/-! ### Cutting at every separator -/

/-- The pieces of a text have its characters, without the separator. -/
theorem of_mem_splitOn {c : Char} {s piece : List Char} (h : piece ∈ s.splitOn c) :
    c ∉ piece ∧ piece ⊆ s := by
  induction s generalizing piece with
  | nil =>
    rw [List.splitOn_nil, List.mem_singleton] at h
    simp [h]
  | cons d s ih =>
    rw [List.splitOn_cons_eq_if_modifyHead] at h
    split at h
    · rcases List.mem_cons.mp h with rfl | h
      · simp
      · exact ⟨(ih h).1, List.subset_cons_of_subset d (ih h).2⟩
    · next hd =>
      cases hpieces : s.splitOn c with
      | nil => exact absurd hpieces (List.splitOn_ne_nil c s)
      | cons first others =>
        rw [hpieces] at h ih
        rcases List.mem_cons.mp h with rfl | h
        · obtain ⟨hfirst, hsub⟩ := ih (List.mem_cons_self ..)
          have hdc : c ≠ d := fun hcd => hd (beq_iff_eq.mpr hcd.symm)
          exact ⟨by simp [hdc, hfirst], List.cons_subset_cons d hsub⟩
        · obtain ⟨hpiece, hsub⟩ := ih (List.mem_cons_of_mem _ h)
          exact ⟨hpiece, List.subset_cons_of_subset d hsub⟩

/-- The pieces of a text are the parts without the separator that it is put together from. -/
theorem splitOn_eq_iff {c : Char} {s : List Char} {l : List (List Char)} :
    s.splitOn c = l ↔ l ≠ [] ∧ (∀ piece ∈ l, c ∉ piece) ∧ s = List.intercalate [c] l := by
  constructor
  · rintro rfl
    exact ⟨List.splitOn_ne_nil c s, fun piece hpiece => (of_mem_splitOn hpiece).1,
      (List.intercalate_splitOn c).symm⟩
  · rintro ⟨hne, hl, rfl⟩
    exact List.splitOn_intercalate c hl hne

/-- Texts with a separator behind each of them, so that nothing is left behind the last. -/
theorem splitOn_flatMap {c : Char} {l : List (List Char)} (hl : ∀ piece ∈ l, c ∉ piece) :
    (l.flatMap (· ++ [c])).splitOn c = l ++ [[]] := by
  induction l with
  | nil => rfl
  | cons piece l ih =>
    obtain ⟨hpiece, hl⟩ := List.forall_mem_cons.mp hl
    rw [List.flatMap_cons, List.append_assoc, List.singleton_append,
      List.splitOn_append_cons_self_of_not_mem hpiece, ih hl, List.cons_append]

/-- Texts with a separator and blanks between them are found again, blanks aside. -/
theorem map_trim_splitOn {c : Char} {u v w z : List Char} {l : List (List Char)} (hu : Blank u)
    (hv : Blank v) (hw : Blank w) (hz : Blank z) (hc : isBlank c = false) (hl : ∀ s ∈ l, c ∉ s)
    (hne : l ≠ []) :
    ((w ++ List.intercalate (u ++ c :: v) l ++ z).splitOn c).map trim = l.map trim := by
  -- The blanks behind a separator stand before the next text, so they may stand before the first.
  induction l generalizing w with
  | nil => exact absurd rfl hne
  | cons s l ih =>
    obtain ⟨hs, hl⟩ := List.forall_mem_cons.mp hl
    cases l with
    | nil =>
      have honly : c ∉ w ++ s ++ z := notMem_between hw hs hz hc
      rw [List.intercalate_singleton, List.splitOn_eq_singleton honly, List.map_singleton,
        trim_padded hw hz]
      rfl
    | cons s' l =>
      have hfirst : c ∉ w ++ s ++ u := notMem_between hw hs hu hc
      have hsplit : w ++ List.intercalate (u ++ c :: v) (s :: s' :: l) ++ z =
          (w ++ s ++ u) ++ c :: (v ++ List.intercalate (u ++ c :: v) (s' :: l) ++ z) := by
        simp [List.intercalate_cons_cons]
      rw [hsplit, List.splitOn_append_cons_self_of_not_mem hfirst, List.map_cons,
        ih hv hl (List.cons_ne_nil _ _), trim_padded hw hu]
      rfl

/-- Blanks around a text make no difference to its pieces, blanks aside. -/
theorem map_trim_splitOn_padded {c : Char} {u v : List Char} (hu : Blank u) (hv : Blank v)
    (hc : isBlank c = false) (s : List Char) :
    ((u ++ s ++ v).splitOn c).map trim = (s.splitOn c).map trim := by
  have hpieces : ∀ piece ∈ s.splitOn c, c ∉ piece := fun piece hpiece => (of_mem_splitOn hpiece).1
  have hfound := map_trim_splitOn .nil .nil hu hv hc hpieces (List.splitOn_ne_nil c s)
  rwa [List.nil_append, List.intercalate_splitOn] at hfound

/-! ### Lines -/

theorem lines_cons {c : Char} {rest : List Char} (hfeed : c ≠ '\n')
    (hreturn : c = '\r' → rest.head? ≠ some '\n') :
    lines (c :: rest) = match lines rest with
      | [] => [[c]]
      | line :: others => (c :: line) :: others := by
  rw [lines.eq_def]
  split
  · next h => cases h
  · next h => exact absurd (List.cons.inj h).1 hfeed
  · next h =>
    obtain ⟨rfl, rfl⟩ := List.cons.inj h
    exact absurd rfl (hreturn rfl)
  · next h =>
    obtain ⟨rfl, rfl⟩ := List.cons.inj h
    rfl

/-- A line ends at the first line feed, unless a carriage return stands before it. -/
theorem lines_append {line rest : List Char} (hfeed : '\n' ∉ line)
    (hreturn : line.getLast? ≠ some '\r') : lines (line ++ '\n' :: rest) = line :: lines rest := by
  induction line with
  | nil => rfl
  | cons c line ih =>
    obtain ⟨hc, hline⟩ := not_or.mp (mt List.mem_cons.mpr hfeed)
    have hnext : c = '\r' → (line ++ '\n' :: rest).head? ≠ some '\n' := fun hcr => by
      cases line with
      | nil => exact absurd (congrArg some hcr) hreturn
      | cons d line =>
        intro hd
        exact hline (Option.some.inj hd ▸ List.mem_cons_self ..)
    have hlast : line.getLast? ≠ some '\r' := fun hd => hreturn (by simp [List.getLast?_cons, hd])
    rw [List.cons_append, lines_cons (Ne.symm hc) hnext, ih hline hlast]

/-- A carriage return before a line feed belongs to the end of the line. -/
theorem lines_append_return {line rest : List Char} (hfeed : '\n' ∉ line) :
    lines (line ++ '\r' :: '\n' :: rest) = line :: lines rest := by
  induction line with
  | nil => rfl
  | cons c line ih =>
    obtain ⟨hc, hline⟩ := not_or.mp (mt List.mem_cons.mpr hfeed)
    have hnext : (line ++ '\r' :: '\n' :: rest).head? ≠ some '\n' := by
      cases line with
      | nil => simp
      | cons d line =>
        intro hd
        exact hline (Option.some.inj hd ▸ List.mem_cons_self ..)
    rw [List.cons_append, lines_cons (Ne.symm hc) fun _ => hnext, ih hline]

/-- What no line feed follows is one line. -/
theorem lines_eq_singleton {line : List Char} (hfeed : '\n' ∉ line) (hne : line ≠ []) :
    lines line = [line] := by
  induction line with
  | nil => exact absurd rfl hne
  | cons c line ih =>
    obtain ⟨hc, hline⟩ := not_or.mp (mt List.mem_cons.mpr hfeed)
    have hnext : line.head? ≠ some '\n' := fun hd => hline (List.mem_of_head? hd)
    rw [lines_cons (Ne.symm hc) fun _ => hnext]
    by_cases hnil : line = []
    · rw [hnil]
      rfl
    · rw [ih hline hnil]

theorem notMem_of_mem_lines {s line : List Char} (h : line ∈ lines s) : '\n' ∉ line := by
  fun_induction lines s generalizing line with
  | case1 => exact absurd h List.not_mem_nil
  | case2 rest ih | case3 rest ih =>
    rcases List.mem_cons.mp h with rfl | h
    · exact List.not_mem_nil
    · exact ih h
  | case4 c rest hfeed _ hrest ih =>
    rw [List.mem_singleton.mp h, List.mem_singleton]
    exact fun hc => hfeed hc.symm
  | case5 c rest hfeed _ first others hrest ih =>
    rw [hrest] at ih
    rcases List.mem_cons.mp h with rfl | h
    · rw [List.mem_cons, not_or]
      exact ⟨fun hc => hfeed hc.symm, ih (List.mem_cons_self ..)⟩
    · exact ih (List.mem_cons_of_mem _ h)

/-- The first lines of a text are the lines of a beginning of it. -/
theorem exists_prefix_lines (s : List Char) (k : Nat) :
    ∃ t, t <+: s ∧ lines t = (lines s).take k := by
  fun_induction lines s generalizing k with
  | case1 => exact ⟨[], List.nil_prefix, by simp [lines]⟩
  | case2 rest ih =>
    cases k with
    | zero => exact ⟨[], List.nil_prefix, by simp [lines]⟩
    | succ k =>
      obtain ⟨t, ht, hlines⟩ := ih k
      exact ⟨'\n' :: t, (List.prefix_cons_inj _).mpr ht, by rw [lines, hlines, List.take_succ_cons]⟩
  | case3 rest ih =>
    cases k with
    | zero => exact ⟨[], List.nil_prefix, by simp [lines]⟩
    | succ k =>
      obtain ⟨t, ht, hlines⟩ := ih k
      refine ⟨'\r' :: '\n' :: t, ?_, by rw [lines, hlines, List.take_succ_cons]⟩
      exact (List.prefix_cons_inj _).mpr ((List.prefix_cons_inj _).mpr ht)
  | case4 c rest hfeed hreturn hrest ih | case5 c rest hfeed hreturn _ _ hrest ih =>
    cases k with
    | zero => exact ⟨[], List.nil_prefix, by simp [lines]⟩
    | succ k =>
      obtain ⟨t, ht, hlines⟩ := ih (k + 1)
      have hhead : c = '\r' → t.head? ≠ some '\n' := fun hc h => by
        obtain ⟨t, rfl⟩ := List.head?_eq_some_iff.mp h
        obtain ⟨u, hu⟩ := ht
        exact hreturn (t ++ u) hc hu.symm
      refine ⟨c :: t, (List.prefix_cons_inj c).mpr ht, ?_⟩
      rw [lines_cons hfeed hhead, hlines, hrest]
      simp

/-- Lines without a line feed or a carriage return at the end, each with a line feed after it. -/
theorem lines_flatMap {l : List (List Char)} (hfeed : ∀ line ∈ l, '\n' ∉ line)
    (hreturn : ∀ line ∈ l, line.getLast? ≠ some '\r') : lines (l.flatMap (· ++ ['\n'])) = l := by
  induction l with
  | nil => rfl
  | cons line l ih =>
    rw [List.flatMap_cons, List.append_assoc, List.singleton_append,
      lines_append (hfeed line (List.mem_cons_self ..)) (hreturn line (List.mem_cons_self ..)),
      ih (fun s hs => hfeed s (List.mem_cons_of_mem _ hs))
        fun s hs => hreturn s (List.mem_cons_of_mem _ hs)]

theorem getLast?_ne_return {line : List Char} (h : ∃ c ∈ line.getLast?, isBlank c = false) :
    line.getLast? ≠ some '\r' := by
  obtain ⟨c, hc, hblank⟩ := h
  intro hreturn
  rw [hreturn, Option.mem_some_iff] at hc
  rw [← hc] at hblank
  exact absurd hblank (by decide)

/-- Lines that do not end in a blank end in no carriage return. -/
theorem lines_flatMap_of_exists_last {l : List (List Char)} (hfeed : ∀ line ∈ l, '\n' ∉ line)
    (hlast : ∀ line ∈ l, ∃ c ∈ line.getLast?, isBlank c = false) :
    lines (l.flatMap (· ++ ['\n'])) = l :=
  lines_flatMap hfeed fun line hline => getLast?_ne_return (hlast line hline)

/-- Lines with a line feed between one and the next, and none after the last. -/
theorem lines_intercalate {l : List (List Char)} (hfeed : ∀ line ∈ l, '\n' ∉ line)
    (hlast : ∀ line ∈ l, ∃ c ∈ line.getLast?, isBlank c = false) :
    lines (List.intercalate ['\n'] l) = l := by
  induction l with
  | nil => rfl
  | cons line l ih =>
    obtain ⟨hline, hfeed⟩ := List.forall_mem_cons.mp hfeed
    obtain ⟨hend, hlast⟩ := List.forall_mem_cons.mp hlast
    cases l with
    | nil =>
      obtain ⟨c, hc, _⟩ := hend
      rw [List.intercalate_singleton]
      exact lines_eq_singleton hline (List.ne_nil_of_mem (List.mem_of_getLast? hc))
    | cons line' l =>
      rw [List.intercalate_cons_cons, List.append_assoc, List.singleton_append,
        lines_append hline (getLast?_ne_return hend), ih hfeed hlast]

end FormalLanguage.Text
