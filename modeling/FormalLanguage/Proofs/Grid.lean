import FormalLanguage.Proofs.Width
import FormalLanguage.Text.Grid
import Mathlib.Data.List.Forall2

/-! What can be read off a drawn table.

Where no cell has a line feed or a bar in it, a row is one line that is as wide as every
other (`width_of_mem_lines`), and cutting that line at its bars gives back the cells
(`readsAs_textLine`). -/
namespace FormalLanguage.Text.Grid

variable {cell : Cell} {header row : List Cell} {rows : List (List Cell)}
  {widths : List Nat} {parts : List (List Char)}

/-! ### Cells of one line -/

/-- A cell that takes one line and has no bar in it. -/
structure Cell.Plain (cell : Cell) : Prop where
  no_feed : '\n' ∉ cell
  no_bar : '│' ∉ cell

instance (cell : Cell) : Decidable cell.Plain :=
  decidable_of_iff ('\n' ∉ cell ∧ '│' ∉ cell)
    ⟨fun ⟨hfeed, hbar⟩ => ⟨hfeed, hbar⟩, fun h => ⟨h.no_feed, h.no_bar⟩⟩

namespace Cell.Plain

theorem append {s t : Cell} (hs : s.Plain) (ht : t.Plain) : Cell.Plain (s ++ t) where
  no_feed h := (List.mem_append.mp h).elim hs.no_feed ht.no_feed
  no_bar h := (List.mem_append.mp h).elim hs.no_bar ht.no_bar

theorem lines_eq (h : cell.Plain) : cell.lines = [cell] := List.splitOn_eq_singleton h.no_feed

theorem width_eq (h : cell.Plain) : cell.width = Text.width cell := by
  rw [Cell.width, h.lines_eq]
  exact Nat.zero_max _

end Cell.Plain

/-- Where no cell is higher, a row is one line high. -/
theorem rowLines_of_plain (hrow : ∀ cell ∈ row, cell.Plain) (hne : row ≠ []) :
    rowLines widths row = [textLine widths row] := by
  have hlines : ∀ cell ∈ row, cell.lines = [cell] := fun cell hcell => (hrow cell hcell).lines_eq
  have hheight : (row.map fun cell => cell.lines.length).foldl max 0 = 1 := by
    have hones : row.map (fun cell => cell.lines.length) = row.map fun _ => 1 :=
      List.map_congr_left fun cell hcell => by rw [hlines cell hcell]; rfl
    obtain ⟨cell, rest, rfl⟩ := List.exists_cons_of_ne_nil hne
    rw [hones, List.map_cons, List.foldl_cons, List.foldl_map]
    exact List.foldl_fixed' (fun _ => rfl) rest
  have hparts : (row.map fun cell => cell.lines[0]?.getD []) = row :=
    (List.map_congr_left fun cell hcell => by rw [hlines cell hcell]; rfl).trans row.map_id
  rw [rowLines, hheight]
  exact congrArg (fun parts => [textLine widths parts]) hparts

/-! ### Columns -/

/-- No text is wider than its column. -/
abbrev Fits (widths : List Nat) (parts : List (List Char)) : Prop :=
  List.Forall₂ (fun w part => width part ≤ w) widths parts

/-- The columns with room for one more row. -/
def widen (widths : List Nat) (row : List Cell) : List Nat :=
  List.zipWith max widths (row.map Cell.width)

theorem columnWidths_eq_foldl (header : List Cell) (rows : List (List Cell)) :
    columnWidths header rows = rows.foldl widen (header.map Cell.width) := rfl

theorem fits_map_width (hrow : ∀ cell ∈ row, cell.Plain) : Fits (row.map Cell.width) row :=
  List.forall₂_map_left_iff.mpr
    (List.forall₂_same.mpr fun cell hcell => (hrow cell hcell).width_eq.ge)

theorem Fits.zipWith_max {others : List Nat} (h : Fits widths parts)
    (hlength : others.length = widths.length) : Fits (List.zipWith max widths others) parts := by
  induction h generalizing others with
  | nil =>
    rw [List.zipWith_nil_left]
    exact .nil
  | cons hpart _ ih =>
    cases others with
    | nil => cases hlength
    | cons n others => exact .cons (hpart.trans (Nat.le_max_left ..)) (ih (Nat.succ.inj hlength))

theorem length_widen (hlength : row.length = widths.length) :
    (widen widths row).length = widths.length := by
  rw [widen, List.length_zipWith, List.length_map, hlength, Nat.min_self]

theorem Fits.widen (h : Fits widths parts) (hlength : row.length = widths.length) :
    Fits (widen widths row) parts :=
  h.zipWith_max (by rw [List.length_map, hlength])

theorem fits_widen (hrow : ∀ cell ∈ row, cell.Plain) (hlength : row.length = widths.length) :
    Fits (widen widths row) row := by
  rw [Grid.widen, List.zipWith_comm_of_comm Nat.max_comm]
  exact (fits_map_width hrow).zipWith_max (by rw [List.length_map, hlength])

/-- What fits goes on fitting while columns are made wider for more rows. -/
theorem Fits.foldl_widen (h : Fits widths parts)
    (hlength : ∀ row ∈ rows, row.length = widths.length) :
    Fits (rows.foldl Grid.widen widths) parts := by
  induction rows generalizing widths with
  | nil => exact h
  | cons row rows ih =>
    obtain ⟨hrow, hrows⟩ := List.forall_mem_cons.mp hlength
    exact ih (h.widen hrow) fun other hother => (hrows other hother).trans (length_widen hrow).symm

theorem fits_foldl_widen (hcells : ∀ row ∈ rows, ∀ cell ∈ row, cell.Plain)
    (hlength : ∀ row ∈ rows, row.length = widths.length) :
    ∀ row ∈ rows, Fits (rows.foldl widen widths) row := by
  induction rows generalizing widths with
  | nil => exact fun row hrow => absurd hrow List.not_mem_nil
  | cons row rows ih =>
    obtain ⟨hfirst, hcells⟩ := List.forall_mem_cons.mp hcells
    obtain ⟨hrow, hrows⟩ := List.forall_mem_cons.mp hlength
    have hwidened : ∀ other ∈ rows, other.length = (widen widths row).length :=
      fun other hother => (hrows other hother).trans (length_widen hrow).symm
    exact List.forall_mem_cons.mpr
      ⟨(fits_widen hfirst hrow).foldl_widen hwidened, ih hcells hwidened⟩

/-- A header and rows of one length, each of them drawn as one line. -/
structure Plain (header : List Cell) (rows : List (List Cell)) : Prop where
  ne_nil : header ≠ []
  length_eq : ∀ row ∈ rows, row.length = header.length
  cells : ∀ row ∈ header :: rows, ∀ cell ∈ row, cell.Plain

theorem Plain.fits (h : Plain header rows) :
    ∀ row ∈ header :: rows, Fits (columnWidths header rows) row := by
  obtain ⟨hheader, hrows⟩ := List.forall_mem_cons.mp h.cells
  have hlength : ∀ row ∈ rows, row.length = (header.map Cell.width).length := fun row hrow =>
    (h.length_eq row hrow).trans (List.length_map ..).symm
  rw [columnWidths_eq_foldl]
  exact List.forall_mem_cons.mpr
    ⟨(fits_map_width hheader).foldl_widen hlength, fits_foldl_widen hrows hlength⟩

/-! ### The lines that are drawn -/

/-- The characters of the drawing, apart from those of the cells. -/
def drawn : List Char := [' ', '│', '─', '╭', '┬', '╮', '├', '┼', '┤', '╰', '┴', '╯']

theorem lone_of_mem_drawn {c : Char} (hc : c ∈ drawn) : Lone c := by
  have hall : drawn.all isLone = true := by decide +kernel
  exact lone_of_isLone (List.all_eq_true.mp hall c hc)

/-- Every column has a blank on either side and a bar behind it, and the first a bar before it. -/
def lineWidth (widths : List Nat) : Nat := widths.foldr (fun w n => w + 3 + n) 1

theorem textLine_cons (w : Nat) (widths : List Nat) (part : List Char) (parts : List (List Char)) :
    textLine (w :: widths) (part :: parts) =
      '│' :: ' ' :: padded w part ++ ' ' :: textLine widths parts := by
  simp [textLine]

theorem width_padded {w : Nat} {s : List Char} (h : width s ≤ w) : width (padded w s) = w := by
  have hblank : ∀ c ∈ List.replicate (w - width s) ' ', Lone c := fun c hc =>
    List.eq_of_mem_replicate hc ▸ lone_of_mem_drawn (by decide)
  rw [padded, width_append_of_lone hblank, List.length_replicate, Nat.add_sub_cancel' h]

theorem width_textLine (h : Fits widths parts) :
    width (textLine widths parts) = lineWidth widths := by
  have hbar : Lone '│' := lone_of_mem_drawn (by decide)
  have hblank : Lone ' ' := lone_of_mem_drawn (by decide)
  induction h with
  | nil => exact width_cons hbar []
  | @cons w part widths parts hpart _ ih =>
    rw [textLine_cons, width_append_cons hblank, width_cons hbar, width_cons hblank,
      width_padded hpart, ih]
    show _ = w + 3 + lineWidth widths
    omega

theorem width_ruleLine {left cross right : Char} (hne : widths ≠ [])
    (hleft : Lone left) (hcross : Lone cross) (hright : Lone right) :
    width (ruleLine widths left cross right) = lineWidth widths := by
  have hline : Lone '─' := lone_of_mem_drawn (by decide)
  rw [ruleLine, width_append_of_lone (by simpa using hright), width_cons hleft]
  induction widths with
  | nil => exact absurd rfl hne
  | cons w widths ih =>
    have hfirst : ∀ c ∈ List.replicate (w + 2) '─', Lone c := fun c hc =>
      List.eq_of_mem_replicate hc ▸ hline
    cases widths with
    | nil =>
      rw [List.map_singleton, List.intercalate_singleton, width_of_lone hfirst,
        List.length_replicate]
      rfl
    | cons w' widths =>
      have hrest := ih (List.cons_ne_nil _ _)
      rw [List.map_cons] at hrest
      rw [List.map_cons, List.map_cons, List.intercalate_cons_cons, List.append_assoc,
        List.singleton_append, width_append_cons hcross, width_of_lone hfirst,
        List.length_replicate]
      show _ = w + 3 + lineWidth (w' :: widths)
      omega

/-! ### Reading a table -/

/-- A line that is cut at its bars gives the cells, blanks aside, and nothing outside the outer
bars. -/
def ReadsAs (line : List Char) (cells : List (List Char)) : Prop :=
  ∃ pieces, line.splitOn '│' = [] :: (pieces ++ [[]]) ∧ pieces.map trim = cells

/-- A column of a line, between its bars. -/
def spaced (w : Nat) (part : List Char) : List Char := ' ' :: padded w part ++ [' ']

theorem textLine_eq_flatMap (widths : List Nat) (parts : List (List Char)) :
    textLine widths parts = '│' :: (List.zipWith spaced widths parts).flatMap (· ++ ['│']) := by
  simp [textLine, spaced, List.flatMap, List.map_zipWith]

theorem trim_spaced (w : Nat) (part : List Char) : trim (spaced w part) = trim part := by
  have hfill : Blank (List.replicate (w - width part) ' ') := fun c hc => by
    rw [List.eq_of_mem_replicate hc]
    decide
  have hspace : Blank [' '] := by decide
  have hspaced : spaced w part =
      [' '] ++ part ++ (List.replicate (w - width part) ' ' ++ [' ']) := by
    simp [spaced, padded]
  rw [hspaced]
  exact trim_padded hspace (hfill.append hspace)

theorem notMem_of_mem_zipWith_spaced {c : Char} (hc : c ≠ ' ')
    (hparts : ∀ part ∈ parts, c ∉ part) :
    ∀ piece ∈ List.zipWith spaced widths parts, c ∉ piece := by
  intro piece hpiece hmem
  obtain ⟨i, _, rfl⟩ := List.mem_iff_getElem.mp hpiece
  rw [List.getElem_zipWith] at hmem
  simp only [spaced, padded, List.mem_append, List.mem_cons, List.mem_replicate,
    List.not_mem_nil, hc, and_false, or_false, false_or] at hmem
  exact hparts _ (List.getElem_mem _) hmem

theorem readsAs_textLine (hlength : widths.length = parts.length)
    (hparts : ∀ part ∈ parts, '│' ∉ part) : ReadsAs (textLine widths parts) (parts.map trim) := by
  refine ⟨List.zipWith spaced widths parts, ?_, ?_⟩
  · have hpieces : ∀ piece ∈ List.zipWith spaced widths parts, '│' ∉ piece :=
      notMem_of_mem_zipWith_spaced (by decide) hparts
    rw [textLine_eq_flatMap, ← splitOn_flatMap hpieces]
    exact List.splitOn_append_cons_self_of_not_mem List.not_mem_nil _
  · refine List.ext_getElem (by simp [hlength]) fun i _ _ => ?_
    simp [trim_spaced]

theorem Plain.lines_eq (h : Plain header rows) :
    lines header rows =
      let widths := columnWidths header rows
      ruleLine widths '╭' '┬' '╮' :: textLine widths header :: ruleLine widths '├' '┼' '┤' ::
        (rows.map (textLine widths) ++ [ruleLine widths '╰' '┴' '╯']) := by
  obtain ⟨hheader, hrows⟩ := List.forall_mem_cons.mp h.cells
  have hbody : rows.flatMap (rowLines (columnWidths header rows)) =
      rows.map (textLine (columnWidths header rows)) := by
    rw [List.map_eq_flatMap]
    refine List.flatMap_congr fun row hrow => rowLines_of_plain (hrows row hrow) ?_
    rw [← List.length_pos_iff, h.length_eq row hrow]
    exact List.length_pos_iff.mpr h.ne_nil
  rw [lines, rowLines_of_plain hheader h.ne_nil, hbody]
  rfl

/-- What a rule ends with on either side, and what it crosses the columns with. -/
structure RuleEnds where
  left : Char
  cross : Char
  right : Char

/-- The rules above the header, below it, and below the rows. -/
def rules : List RuleEnds := [⟨'╭', '┬', '╮'⟩, ⟨'├', '┼', '┤'⟩, ⟨'╰', '┴', '╯'⟩]

/-- What holds of the three rules and of every row's line holds of every line. -/
theorem Plain.forall_mem_lines {P : List Char → Prop} (h : Plain header rows)
    (hrule : ∀ r ∈ rules, P (ruleLine (columnWidths header rows) r.left r.cross r.right))
    (hrow : ∀ row ∈ header :: rows, P (textLine (columnWidths header rows) row)) :
    ∀ line ∈ lines header rows, P line := by
  obtain ⟨hheader, hrows⟩ := List.forall_mem_cons.mp hrow
  simp only [rules, List.forall_mem_cons] at hrule
  obtain ⟨htop, hmiddle, hbottom, _⟩ := hrule
  intro line hline
  rw [h.lines_eq] at hline
  simp only [List.mem_cons, List.mem_append, List.mem_map, List.not_mem_nil, or_false] at hline
  rcases hline with rfl | rfl | rfl | ⟨row, hmem, rfl⟩ | rfl
  · exact htop
  · exact hheader
  · exact hmiddle
  · exact hrows row hmem
  · exact hbottom

theorem notMem_ruleLine {c left cross right : Char} (h : c ∉ [left, cross, right, '─']) :
    c ∉ ruleLine widths left cross right := by
  simp only [List.mem_cons, List.not_mem_nil, or_false, not_or] at h
  obtain ⟨hleft, hcross, hright, hline⟩ := h
  intro hmem
  rcases List.mem_append.mp hmem with hmem | hmem
  · rcases List.mem_cons.mp hmem with rfl | hmem
    · exact hleft rfl
    · rcases mem_intercalate hmem with hmem | ⟨s, hs, hmem⟩
      · exact hcross (List.mem_singleton.mp hmem)
      · obtain ⟨w, _, rfl⟩ := List.mem_map.mp hs
        exact hline (List.eq_of_mem_replicate hmem)
  · exact hright (List.mem_singleton.mp hmem)

theorem notMem_textLine {c : Char} (hblank : c ≠ ' ') (hbar : c ≠ '│')
    (hparts : ∀ part ∈ parts, c ∉ part) : c ∉ textLine widths parts := by
  rw [textLine_eq_flatMap, List.mem_cons, List.mem_flatMap]
  rintro (h | ⟨piece, hpiece, hmem⟩)
  · exact hbar h
  · rcases List.mem_append.mp hmem with hmem | hmem
    · exact notMem_of_mem_zipWith_spaced hblank hparts piece hpiece hmem
    · exact hbar (List.mem_singleton.mp hmem)

theorem exists_last_textLine (widths : List Nat) (parts : List (List Char)) :
    ∃ c ∈ (textLine widths parts).getLast?, isBlank c = false := by
  rw [textLine_eq_flatMap]
  induction List.zipWith spaced widths parts with
  | nil => exact ⟨'│', rfl, by decide⟩
  | cons piece pieces ih =>
    have hbar : '│' :: (piece :: pieces).flatMap (· ++ ['│']) =
        ('│' :: piece) ++ '│' :: pieces.flatMap (· ++ ['│']) := by simp
    rw [hbar]
    exact exists_last_append ih _

/-- No cell adds a line to the table, and no line is lost. -/
theorem Plain.lines_render (h : Plain header rows) :
    Text.lines (render header rows) = lines header rows := by
  refine lines_intercalate (h.forall_mem_lines ?_ fun row hrow => ?_)
    (h.forall_mem_lines ?_ fun row hrow => exists_last_textLine _ row)
  · have hfeed : ∀ r ∈ rules, '\n' ∉ [r.left, r.cross, r.right, '─'] := by decide
    exact fun r hr => notMem_ruleLine (hfeed r hr)
  · exact notMem_textLine (by decide) (by decide) fun cell hcell =>
      (h.cells row hrow cell hcell).no_feed
  · have hblank : ∀ r ∈ rules, isBlank r.right = false := by decide
    exact fun r hr => exists_last_append ⟨r.right, rfl, hblank r hr⟩ _

theorem Plain.width_of_mem_lines (h : Plain header rows) :
    ∀ line ∈ lines header rows, Text.width line = lineWidth (columnWidths header rows) := by
  have hne : columnWidths header rows ≠ [] := by
    have hlength := (h.fits header (List.mem_cons_self ..)).length_eq
    rw [← List.length_pos_iff, hlength]
    exact List.length_pos_iff.mpr h.ne_nil
  refine h.forall_mem_lines ?_ fun row hrow => width_textLine (h.fits row hrow)
  have hdrawn : ∀ r ∈ rules, r.left ∈ drawn ∧ r.cross ∈ drawn ∧ r.right ∈ drawn := by decide
  intro r hr
  obtain ⟨hleft, hcross, hright⟩ := hdrawn r hr
  exact width_ruleLine hne (lone_of_mem_drawn hleft) (lone_of_mem_drawn hcross)
    (lone_of_mem_drawn hright)

/-- A table of plain cells is read back cell by cell. -/
theorem Plain.reads (h : Plain header rows) :
    ∃ top head rule body bottom,
      lines header rows = top :: head :: rule :: (body ++ [bottom]) ∧
        ReadsAs head (header.map trim) ∧
        List.Forall₂ (fun row line => ReadsAs line (row.map trim)) rows body := by
  have hrow : ∀ row ∈ header :: rows,
      ReadsAs (textLine (columnWidths header rows) row) (row.map trim) := fun row hrow =>
    readsAs_textLine (h.fits row hrow).length_eq fun cell hcell =>
      (h.cells row hrow cell hcell).no_bar
  obtain ⟨hheader, hrows⟩ := List.forall_mem_cons.mp hrow
  exact ⟨_, _, _, _, _, h.lines_eq, hheader,
    List.forall₂_map_right_iff.mpr (List.forall₂_same.mpr hrows)⟩

end FormalLanguage.Text.Grid
