import FormalLanguage.Automaton.TransitionTable
import FormalLanguage.Proofs.Description.Braces
import FormalLanguage.Proofs.Grid
import FormalLanguage.Proofs.SortedSet

/-! What the transition table of an automaton says.

The header, the marked names and the cells come from different sets. Where none of them has a
line feed or a bar in it, the drawn lines give all of them back, each in its row and its column
(`transitionTable_reads`). -/
namespace FormalLanguage
open Text

namespace Automaton

variable {a : Automaton} {q : State} {x : Symbol}

/-! ### Names and cells -/

/-- What stands before the name of a state. -/
def mark : (isStart isFinal : Bool) → List Char
  | true, true => "->* ".toList
  | true, false => "-> ".toList
  | false, true => "* ".toList
  | false, false => []

theorem markedName_eq (a : Automaton) (q : State) :
    a.markedName q = mark (q = a.start) (q ∈ a.finals) ++ q.chars := by
  rcases eq_or_ne q a.start with rfl | hstart
  · by_cases hfinal : a.start ∈ a.finals <;> simp [markedName, mark, isFinal, hfinal]
  · by_cases hfinal : q ∈ a.finals <;> simp [markedName, mark, isFinal, hstart, hfinal]

/-- What the table says about the transitions out of `q` on `x`. -/
inductive CellText (a : Automaton) (q : State) (x : Symbol) : List Char → Prop
  | dash (h : ∀ p, ⟨q, x, p⟩ ∉ a.transitions) : CellText a q x ['-']
  | merged {s : StateSet} {p : State} (hp : p ∈ s)
      (hs : ∀ p, p ∈ s ↔ ⟨q, x, p⟩ ∈ a.transitions) : CellText a q x (State.merge s).chars

theorem cellText_tableCell (a : Automaton) (q : State) (x : Symbol) :
    CellText a q x (a.tableCell q x) := by
  unfold tableCell State.merge?
  split_ifs with hempty
  · exact .dash fun p hp => SortedSet.isEmpty_iff.mp hempty p (mem_nextStates.mpr hp)
  · obtain ⟨p, hp⟩ := SortedSet.isEmpty_eq_false_iff.mp (Bool.not_eq_true _ ▸ hempty)
    exact .merged hp fun _ => mem_nextStates

theorem CellText.trimmed {cell : List Char} (h : CellText a q x cell) : Trimmed cell := by
  cases h with
  | dash => exact trimmed_of_exists ⟨'-', rfl, by decide⟩ ⟨'-', rfl, by decide⟩
  | merged => exact (State.merge _).trimmed

theorem CellText.plain {cell : List Char} (h : CellText a q x cell)
    (hstates : ∀ q ∈ a.states, Grid.Cell.Plain q.chars) : Grid.Cell.Plain cell := by
  cases h with
  | dash => decide
  | merged hp hs =>
    refine Description.merge_induction hp
      (fun p hp => hstates p (a.valid.target_mem _ ((hs p).mp hp))) fun names hnames => ?_
    exact ⟨Description.notMem_braced (by decide) fun name hname => (hnames name hname).no_feed,
      Description.notMem_braced (by decide) fun name hname => (hnames name hname).no_bar⟩

theorem plain_markedName (hq : Grid.Cell.Plain q.chars) : Grid.Cell.Plain (a.markedName q) := by
  have hmark : ∀ isStart isFinal, Grid.Cell.Plain (mark isStart isFinal) := by decide
  rw [markedName_eq]
  exact (hmark _ _).append hq

theorem plain_shown (hx : Grid.Cell.Plain x.chars) : Grid.Cell.Plain x.shown := by
  unfold Symbol.shown
  split_ifs
  · decide
  · exact hx

theorem trim_shown (x : Symbol) : trim x.shown = if x = .epsilon then ['ε'] else x.chars := by
  simp only [Symbol.shown, Symbol.isEpsilon_iff]
  split_ifs
  · decide
  · exact trim_eq_self x.trimmed

/-! ### The table -/

theorem plain_table (hstates : ∀ q ∈ a.states, Grid.Cell.Plain q.chars)
    (hsymbols : ∀ x ∈ a.alphabet, Grid.Cell.Plain x.chars) :
    Grid.Plain a.tableHeader (a.states.toList.map a.tableRow) := by
  refine ⟨List.cons_ne_nil _ _, fun row hrow => ?_, List.forall_mem_cons.mpr ⟨?_, ?_⟩⟩
  · obtain ⟨q, _, rfl⟩ := List.mem_map.mp hrow
    simp [tableRow, tableHeader]
  · refine List.forall_mem_cons.mpr ⟨by decide, fun cell hcell => ?_⟩
    obtain ⟨x, hx, rfl⟩ := List.mem_map.mp hcell
    exact plain_shown (hsymbols x hx)
  · intro row hrow
    obtain ⟨q, hq, rfl⟩ := List.mem_map.mp hrow
    refine List.forall_mem_cons.mpr ⟨plain_markedName (hstates q hq), fun cell hcell => ?_⟩
    obtain ⟨x, _, rfl⟩ := List.mem_map.mp hcell
    exact (cellText_tableCell a q x).plain hstates

/-- What a line says that is read back as the row of `q`: the state with its mark, and a cell for
each symbol. -/
def ReadsAsRow (a : Automaton) (q : State) (line : List Char) : Prop :=
  ∃ cells, Grid.ReadsAs line (trim (mark (q = a.start) (q ∈ a.finals) ++ q.chars) :: cells) ∧
    List.Forall₂ (CellText a q) a.alphabet.toList cells

theorem readsAsRow_of_readsAs {line : List Char}
    (h : Grid.ReadsAs line ((a.tableRow q).map trim)) : a.ReadsAsRow q line := by
  have hcell : ∀ x, trim (a.tableCell q x) = a.tableCell q x := fun x =>
    trim_eq_self (cellText_tableCell a q x).trimmed
  rw [tableRow, List.map_cons, List.map_map, markedName_eq] at h
  refine ⟨_, h, List.forall₂_map_right_iff.mpr (List.forall₂_same.mpr fun x _ => ?_)⟩
  rw [Function.comp_apply, hcell]
  exact cellText_tableCell a q x

/-- All lines of the table are of one width, and those of the header and of the states give back
what the automaton has. -/
theorem transitionTable_reads (hstates : ∀ q ∈ a.states, Grid.Cell.Plain q.chars)
    (hsymbols : ∀ x ∈ a.alphabet, Grid.Cell.Plain x.chars) :
    (lines a.transitionTable).length = a.states.size + 4 ∧
    (∃ columns, ∀ line ∈ lines a.transitionTable, width line = columns) ∧
    ∃ top header rule rows bottom,
      lines a.transitionTable = top :: header :: rule :: (rows ++ [bottom]) ∧
      Grid.ReadsAs header ("State".toList ::
        a.alphabet.toList.map fun x => if x = .epsilon then ['ε'] else x.chars) ∧
      List.Forall₂ a.ReadsAsRow a.states.toList rows := by
  have hplain := plain_table hstates hsymbols
  have hlines : lines a.transitionTable = _ := hplain.lines_render
  obtain ⟨top, header, rule, rows, bottom, hdrawn, hheader, hrows⟩ := hplain.reads
  rw [List.forall₂_map_left_iff] at hrows
  rw [hlines]
  refine ⟨?_, ⟨_, hplain.width_of_mem_lines⟩, top, header, rule, rows, bottom, hdrawn, ?_,
    hrows.imp fun q row => readsAsRow_of_readsAs⟩
  · simp [hdrawn, SortedSet.size, hrows.length_eq]
  · have hsymbols : trim ∘ Symbol.shown = fun x => if x = .epsilon then ['ε'] else x.chars :=
      funext trim_shown
    have hstate : trim "State".toList = "State".toList := by decide
    rwa [tableHeader, List.map_cons, List.map_map, hsymbols, hstate] at hheader

/-- A state with a wide name that moves on without reading, or by a letter to two states. -/
def forked : Automaton where
  alphabet := .ofList [.epsilon, .ofChars ['a']]
  states := .ofList [.ofChars ['p'], .ofChars ['始']]
  finals := .ofList [.ofChars ['p']]
  start := .ofChars ['始']
  transitions := .ofList [⟨.ofChars ['始'], .epsilon, .ofChars ['p']⟩,
    ⟨.ofChars ['始'], .ofChars ['a'], .ofChars ['p']⟩,
    ⟨.ofChars ['始'], .ofChars ['a'], .ofChars ['始']⟩]
  valid := Automaton.Components.defect?_eq_none_iff.mp (by decide)

theorem forked_transitionTable :
    ((∀ q ∈ forked.states.toList, Grid.Cell.Plain q.chars) ∧
      ∀ x ∈ forked.alphabet.toList, Grid.Cell.Plain x.chars) ∧
    (lines forked.transitionTable).length = 6 ∧
    (∃ columns, ∀ line ∈ lines forked.transitionTable, width line = columns) ∧
    ∃ top header rule rows bottom,
      lines forked.transitionTable = top :: header :: rule :: (rows ++ [bottom]) ∧
      Grid.ReadsAs header ["State".toList, ['ε'], ['a']] ∧
      List.Forall₂ forked.ReadsAsRow [.ofChars ['p'], .ofChars ['始']] rows := by
  have hstates : ∀ q ∈ forked.states.toList, Grid.Cell.Plain q.chars := by decide
  have hsymbols : ∀ x ∈ forked.alphabet.toList, Grid.Cell.Plain x.chars := by decide
  exact ⟨⟨hstates, hsymbols⟩, transitionTable_reads hstates hsymbols⟩

end Automaton
end FormalLanguage
