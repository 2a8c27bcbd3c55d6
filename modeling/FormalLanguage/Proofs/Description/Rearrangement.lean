import FormalLanguage.Proofs.Description.Lines

/-! The order of lines.

What a description says does not depend on the order of its lines, nor on blank
lines between them, nor on how often a line is written that does not mark the start
state (`Rearranged`). For the automaton is told from which lines there are and from
how many of them mark a start state (`Automaton.DescribedBy`), and neither changes.

It takes lines, though, and not a text: where lines are joined by line feeds, a
carriage return at the end of a line belongs to the line end, unless it is the last
line, and then it is a blank at its end. That makes no difference either
(`readLine_append_blank`), so joined lines are read as the lines they were joined
from (`parse_intercalate`). -/
namespace FormalLanguage
open Text

namespace Description

variable {line v : List Char} {l m : List (List Char)} {e : Entry}

/-! ### Blanks at the end of a line -/

theorem readDefinition_append_blank (hv : Blank v) (s : List Char) :
    readDefinition (s ++ v) = readDefinition s := by
  simp only [readDefinition, trim_append hv]

theorem readMove_append_blank (hv : Blank v) (s : List Char) : readMove (s ++ v) = readMove s := by
  simp only [readMove, trim_append hv]

/-- Only the last transition sees the blanks at the end. -/
theorem readMoves_append_blank (hv : Blank v) (s : List Char) :
    readMoves (s ++ v) = readMoves s := by
  have hcomma : ∀ c ∈ v, decide (c = ',') = false := fun c hc =>
    decide_eq_false (hv.ne_of_mem hc (by decide))
  obtain ⟨parts, last, hs, hsv⟩ := exists_last_splitTopLevel hcomma s
  rw [readMoves, readMoves, isBlankText, isBlankText, trim_append hv, hs, hsv,
    List.mapM_append, List.mapM_append, List.mapM_cons, List.mapM_cons, readMove_append_blank hv]

theorem exists_cutAtColon_append_blank (hv : Blank v) (line : List Char) : ∃ w w', Blank w ∧
    Blank w' ∧ cutAtColon (line ++ v) = ((cutAtColon line).1 ++ w, (cutAtColon line).2 ++ w') := by
  have hcolon : ∀ c ∈ v, decide (c = ':') = false := fun c hc =>
    decide_eq_false (hv.ne_of_mem hc (by decide))
  rw [cutAtColon, cutAtColon, cutTopLevel?, cutFrom_append_right hcolon, ← cutTopLevel?]
  cases cutTopLevel? (· = ':') line with
  | none => exact ⟨v, [], hv, .nil, rfl⟩
  | some parts => exact ⟨[], v, .nil, hv, by simp⟩

theorem readLine_append_blank (hv : Blank v) (d : Draft) (line : List Char) :
    readLine d (line ++ v) = readLine d line := by
  obtain ⟨w, w', hw, hw', hcut⟩ := exists_cutAtColon_append_blank hv line
  simp only [readLine, isBlankText, trim_append hv, hcut, readDefinition_append_blank hw,
    readMoves_append_blank hw']
  rfl

/-! ### Joined lines -/

theorem readLines_lines_intercalate (hl : ∀ line ∈ l, '\n' ∉ line) (d : Draft) (number : Nat) :
    readLines d number (lines (List.intercalate ['\n'] l)) = readLines d number l := by
  induction l generalizing d number with
  | nil => rfl
  | cons line l ih =>
    obtain ⟨hline, hrest⟩ := List.forall_mem_cons.mp hl
    cases l with
    | nil =>
      rw [List.intercalate_singleton]
      by_cases hnil : line = []
      · rw [hnil]
        rfl
      · rw [lines_eq_singleton hline hnil]
    | cons next l =>
      rw [List.intercalate_cons_cons, List.append_assoc, List.singleton_append]
      by_cases hreturn : line.getLast? = some '\r'
      · obtain ⟨s, rfl⟩ := List.getLast?_eq_some_iff.mp hreturn
        -- The return goes with the line end, and as a blank it would not have mattered.
        have hblank : Blank ['\r'] := by decide
        rw [List.append_assoc, List.singleton_append,
          lines_append_return fun hc => hline (List.mem_append_left _ hc), readLines, readLines,
          readLine_append_blank hblank]
        simp only [ih hrest]
      · rw [lines_append hline hreturn, readLines, readLines]
        simp only [ih hrest]

/-! ### Rearranged lines -/

/-- Lines in another order, with more or fewer blank ones, and with lines written more or less often
that do not mark the start state. -/
inductive Rearranged : List (List Char) → List (List Char) → Prop where
  | perm {l m : List (List Char)} (h : l.Perm m) : Rearranged l m
  | blank {line : List Char} (h : Blank line) (l : List (List Char)) : Rearranged l (line :: l)
  | again {line : List Char} {l : List (List Char)} (hline : line ∈ l)
      (hstart : (lineRole line).start = false) : Rearranged l (line :: l)
  | symm {l m : List (List Char)} (h : Rearranged l m) : Rearranged m l
  | trans {l m k : List (List Char)} (h : Rearranged l m) (h' : Rearranged m k) : Rearranged l k

namespace Rearranged

theorem mem_iff (h : Rearranged l m) (hline : ¬ Blank line) : line ∈ l ↔ line ∈ m := by
  induction h with
  | perm h => exact h.mem_iff
  | @blank other h l =>
    have hother : line ≠ other := fun heq => hline (heq ▸ h)
    rw [List.mem_cons, or_iff_right hother]
  | again hmem _ =>
    rw [List.mem_cons]
    exact (or_iff_right_of_imp fun heq => heq ▸ hmem).symm
  | symm _ ih => exact ih.symm
  | trans _ _ ih ih' => exact ih.trans ih'

theorem countP_start (h : Rearranged l m) : l.countP (fun line => (lineRole line).start) =
    m.countP fun line => (lineRole line).start := by
  induction h with
  | perm h => exact h.countP_eq _
  | blank h l =>
    rw [List.countP_cons_of_neg]
    simp [lineRole_of_blank h]
  | again _ hstart =>
    rw [List.countP_cons_of_neg]
    simp [hstart]
  | symm _ ih => exact ih.symm
  | trans _ _ ih ih' => exact ih.trans ih'

theorem entry_mem_iff (h : Rearranged l m) :
    some e ∈ l.map entryOf? ↔ some e ∈ m.map entryOf? := by
  rw [List.mem_map, List.mem_map]
  refine exists_congr fun line => and_congr_left fun he => h.mem_iff fun hblank => ?_
  rw [entryOf?_of_blank hblank] at he
  cases he

theorem coherent (h : Rearranged l m) (hl : Coherent l) : Coherent m := by
  refine ⟨fun line hline => ?_, h.countP_start ▸ hl.oneStart⟩
  by_cases hblank : Blank line
  · exact faultless_iff.mpr (.inl hblank)
  · exact hl.faultless line ((h.mem_iff hblank).mpr hline)

end Rearranged

/-- What rows mean depends on which rows there are. -/
theorem Means.of_mem_iff {rows rows' : List (Option Entry)} {q : State} {a : Automaton}
    (h : ∀ e, some e ∈ rows ↔ some e ∈ rows') (hmeans : Means rows q a) : Means rows' q a := by
  obtain ⟨hstart, hstates, hfinals, htransitions, halphabet⟩ := hmeans
  simp only [h] at hstates hfinals htransitions halphabet
  exact ⟨hstart, hstates, hfinals, htransitions, halphabet⟩

end Description

open Description

namespace Automaton

variable {l m : List (List Char)} {a : Automaton}

theorem DescribedBy.rearranged (h : Rearranged l m) (ha : DescribedBy l a) : DescribedBy m a := by
  obtain ⟨hcoherent, hstart, hfinal, hmeans⟩ := ha
  simp only [h.entry_mem_iff] at hstart hfinal
  exact ⟨h.coherent hcoherent, hstart, hfinal, hmeans.of_mem_iff fun _ => h.entry_mem_iff⟩

theorem parse_intercalate (hl : ∀ line ∈ l, '\n' ∉ line) :
    parse (List.intercalate ['\n'] l) = ofLines l := by
  rw [parse_eq_ofLines, ofLines, readLines_lines_intercalate hl, ofLines]

/-- Rearranged lines describe the same automaton, or none. -/
theorem parse_rearranged (h : Rearranged l m) (hl : ∀ line ∈ l, '\n' ∉ line)
    (hm : ∀ line ∈ m, '\n' ∉ line) (a : Automaton) :
    parse (List.intercalate ['\n'] l) = .ok a ↔ parse (List.intercalate ['\n'] m) = .ok a := by
  rw [parse_intercalate hl, parse_intercalate hm, ofLines_eq_ok_iff, ofLines_eq_ok_iff]
  exact ⟨.rearranged h, .rearranged h.symm⟩

def startLine : List Char := ['-', '>', 'p', ':', '"', 'a', '"', '-', '>', 'q', '\r']

def finalLine : List Char := ['*', 'q']

/-- In another order the carriage return stands at the end of the text. -/
theorem startLine_rearranged :
    Rearranged [startLine, [' '], finalLine] [finalLine, finalLine, startLine] := by
  have hfirst : Rearranged [startLine, [' '], finalLine] [[' '], startLine, finalLine] :=
    .perm (.swap ..)
  have hblank : Rearranged [startLine, finalLine] [[' '], startLine, finalLine] :=
    .blank (by decide) _
  have hturned : Rearranged [startLine, finalLine] [finalLine, startLine] := .perm (.swap ..)
  have hagain : Rearranged [finalLine, startLine] [finalLine, finalLine, startLine] :=
    .again (List.mem_cons_self ..) (by decide)
  exact ((hfirst.trans hblank.symm).trans hturned).trans hagain

theorem startLine_parse_rearranged : ∃ a,
    parse (List.intercalate ['\n'] [startLine, [' '], finalLine]) = .ok a ∧
      parse (List.intercalate ['\n'] [finalLine, finalLine, startLine]) = .ok a := by
  obtain ⟨a, ha⟩ : ∃ a, parse (List.intercalate ['\n'] [startLine, [' '], finalLine]) = .ok a :=
    exists_of_isOk (by decide)
  exact ⟨a, ha, (parse_rearranged startLine_rearranged (by decide) (by decide) a).mp ha⟩

end Automaton
end FormalLanguage
