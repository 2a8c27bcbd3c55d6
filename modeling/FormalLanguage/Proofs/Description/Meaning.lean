import FormalLanguage.Proofs.Automaton.Determinization
import FormalLanguage.Proofs.Description.Accepted
import FormalLanguage.Proofs.Description.Layout

/-! What a description means.

The rows of a description are its lines, each an entry or blank. They mean an
automaton if exactly one row marks a start state and some row a final one, and all
rows for one state add up (`Means`). A text is read as what its rows mean, whatever
its layout, or else fails at the row of the second start state, or for want of a
start state, or for want of a final one (`parse_laidOut`).

Reading keeps `Draft.Gathers`: the draft knows what the rows so far say. Its start
state is followed through `Draft.starts`, in which a start state that is known
already comes before those of the rows that are still to be read. -/
namespace FormalLanguage
open Text

namespace Description

variable {rows done : List (Option Entry)} {lines : List (List Char)} {e : Entry} {d d' : Draft}
  {number k : Nat} {q first second : State}

/-! ### Rows -/

/-- The rows that mark a start state, by number, where the first row has the given number. -/
def startRows (number : Nat) : List (Option Entry) → List (Nat × State)
  | [] => []
  | none :: rows => startRows (number + 1) rows
  | some e :: rows =>
    if e.isStart then (number, e.name) :: startRows (number + 1) rows
    else startRows (number + 1) rows

theorem mem_startRows : (k, q) ∈ startRows number rows ↔
    ∃ i e, rows[i]? = some (some e) ∧ e.isStart = true ∧ k = number + i ∧ q = e.name := by
  induction rows generalizing number with
  | nil => simp [startRows]
  | cons row rows ih =>
    rw [← Nat.or_exists_add_one]
    cases row with
    | none => simp [startRows, ih, Nat.add_assoc, Nat.add_comm 1]
    | some e =>
      by_cases he : e.isStart = true <;> simp [startRows, ih, he, Nat.add_assoc, Nat.add_comm 1]

/-- The automaton that the rows describe, where `q` is the start state. -/
structure Means (rows : List (Option Entry)) (q : State) (a : Automaton) : Prop where
  start : a.start = q
  states : ∀ p, p ∈ a.states ↔ ∃ e, some e ∈ rows ∧ (e.name = p ∨ ∃ m ∈ e.moves, m.2 = p)
  finals : ∀ p, p ∈ a.finals ↔ ∃ e, some e ∈ rows ∧ e.isFinal = true ∧ e.name = p
  transitions : ∀ t, t ∈ a.transitions ↔
    ∃ e, some e ∈ rows ∧ ∃ m ∈ e.moves, ⟨e.name, m.1, m.2⟩ = t
  alphabet : ∀ x, x ∈ a.alphabet ↔ ∃ e, some e ∈ rows ∧ ∃ m ∈ e.moves, m.1 = x

/-! ### Reading one row -/

/-- The draft knows the states and transitions of the rows, and no others. -/
structure Draft.Gathers (rows : List (Option Entry)) (d : Draft) : Prop where
  states : ∀ p, p ∈ d.states ↔ ∃ e, some e ∈ rows ∧ (e.name = p ∨ ∃ m ∈ e.moves, m.2 = p)
  finals : ∀ p, p ∈ d.finals ↔ ∃ e, some e ∈ rows ∧ e.isFinal = true ∧ e.name = p
  transitions : ∀ t, t ∈ d.transitions ↔
    ∃ e, some e ∈ rows ∧ ∃ m ∈ e.moves, ⟨e.name, m.1, m.2⟩ = t

theorem Draft.Gathers.empty : Draft.Gathers [] .empty :=
  ⟨by simp [Draft.empty], by simp [Draft.empty], by simp [Draft.empty]⟩

theorem Draft.Gathers.blank (h : d.Gathers rows) : d.Gathers (rows ++ [none]) :=
  ⟨by simpa using h.states, by simpa using h.finals, by simpa using h.transitions⟩

theorem exists_row_append {P : Entry → Prop} : (∃ e', some e' ∈ rows ++ [some e] ∧ P e') ↔
    (∃ e', some e' ∈ rows ∧ P e') ∨ P e := by
  simp only [List.mem_append, List.mem_singleton, Option.some.injEq, or_and_right, exists_or,
    exists_eq_left]

theorem Draft.Gathers.add (h : d.Gathers rows) (hadd : d.add e = .ok d') :
    d'.Gathers (rows ++ [some e]) := by
  obtain ⟨d₁, hdeclare, rfl⟩ := map_eq_ok_iff.mp hadd
  obtain ⟨_, hd₁⟩ := Draft.declare_eq_ok_iff.mp hdeclare
  obtain ⟨_, hfinals, hstates, htransitions⟩ := connect_all (q := e.name) e.moves d₁
  refine ⟨fun p => ?_, fun p => ?_, fun t => ?_⟩
  · rw [hstates, exists_row_append, ← h.states, hd₁, List.mem_cons, eq_comm (a := p)]
    tauto
  · rw [hfinals, exists_row_append, ← h.finals, hd₁]
    show p ∈ (if e.isFinal = true then e.name :: d.finals else d.finals) ↔ _
    by_cases hfinal : e.isFinal = true
    · rw [if_pos hfinal, List.mem_cons, eq_comm (a := p), or_comm]
      exact or_congr_right (and_iff_right hfinal).symm
    · rw [if_neg hfinal]
      exact (or_iff_left fun hp => hfinal hp.1).symm
  · rw [htransitions, exists_row_append, ← h.transitions, hd₁]

theorem Draft.start?_add (hadd : d.add e = .ok d') :
    d'.start? = if e.isStart then some e.name else d.start? := by
  obtain ⟨d₁, hdeclare, rfl⟩ := map_eq_ok_iff.mp hadd
  obtain ⟨_, rfl⟩ := Draft.declare_eq_ok_iff.mp hdeclare
  exact (connect_all (q := e.name) e.moves _).1

theorem Draft.exists_add (hstart : e.isStart = true → d.start? = none) :
    ∃ d', d.add e = .ok d' := by
  have hdeclare := Draft.declare_eq_ok_iff (q := e.name).mpr ⟨hstart, rfl⟩
  exact ⟨_, map_eq_ok_iff.mpr ⟨_, hdeclare, rfl⟩⟩

theorem Draft.add_eq_error (hstart : e.isStart = true) (hd : d.start? = some first) :
    d.add e = .error (.secondStart first e.name) := by
  have hrole : e.marking.role.start = true := hstart
  simp only [Draft.add, Draft.declare, hrole, hd]
  rfl

/-- What a row makes of what is known so far. A blank one changes nothing. -/
def Draft.addRow (d : Draft) : Option Entry → Except LineFault Draft
  | none => .ok d
  | some e => d.add e

/-- The line is read as the row, whatever was read before it. -/
def ReadAs (row : Option Entry) (line : List Char) : Prop := ∀ d, readLine d line = d.addRow row

/-! ### Reading all rows -/

/-- The start states to come, behind that of the draft, whose row does not matter any more. -/
def Draft.starts (d : Draft) (number : Nat) (rows : List (Option Entry)) : List (Nat × State) :=
  (d.start?.map fun q => (0, q)).toList ++ startRows number rows

theorem Draft.starts_add (number : Nat) (rows : List (Option Entry)) (hadd : d.add e = .ok d')
    (hstart : e.isStart = true → d.start? = none) :
    (d'.starts (number + 1) rows).head?.map Prod.snd =
        (d.starts number (some e :: rows)).head?.map Prod.snd ∧
      (d'.starts (number + 1) rows).tail = (d.starts number (some e :: rows)).tail := by
  rw [starts, starts, Draft.start?_add hadd, startRows]
  by_cases he : e.isStart = true
  · simp [he, hstart he]
  · simp [he]

theorem readRows_gathers (hlines : List.Forall₂ ReadAs rows lines) (h : d.Gathers done)
    (hone : (d.starts number rows).tail = []) : ∃ d', readLines d number lines = .ok d' ∧
      d'.Gathers (done ++ rows) ∧ d'.start? = (d.starts number rows).head?.map Prod.snd := by
  induction hlines generalizing d number done with
  | nil =>
    refine ⟨d, rfl, (List.append_nil done).symm ▸ h, ?_⟩
    cases hd : d.start? <;> simp [Draft.starts, startRows, hd]
  | @cons row line rows lines hline _ ih =>
    rw [List.append_cons, readLines, hline d]
    cases row with
    | none => exact ih h.blank hone
    | some e =>
      have hfree : e.isStart = true → d.start? = none := fun he => by
        cases hd : d.start? with
        | none => rfl
        | some first => simp [Draft.starts, startRows, hd, he] at hone
      obtain ⟨d₁, hadd⟩ := Draft.exists_add hfree
      obtain ⟨hhead, htail⟩ := Draft.starts_add number rows hadd hfree
      obtain ⟨d', hd', hgathers, hstart⟩ := ih (h.add hadd) (htail.trans hone)
      refine ⟨d', ?_, hgathers, hstart.trans hhead⟩
      rw [Draft.addRow, hadd]
      exact hd'

theorem readRows_secondStart (hlines : List.Forall₂ ReadAs rows lines)
    (hfirst : (d.starts number rows).head?.map Prod.snd = some first)
    (hsecond : (d.starts number rows).tail.head? = some (k, second)) :
    readLines d number lines = .error (.atLine k (.secondStart first second)) := by
  induction hlines generalizing d number with
  | nil => cases hd : d.start? <;> simp [Draft.starts, startRows, hd] at hsecond
  | @cons row line rows lines hline _ ih =>
    rw [readLines, hline d]
    cases row with
    | none => exact ih hfirst hsecond
    | some e =>
      rw [Draft.addRow]
      by_cases hfree : e.isStart = true → d.start? = none
      · obtain ⟨d₁, hadd⟩ := Draft.exists_add hfree
        obtain ⟨hhead, htail⟩ := Draft.starts_add number rows hadd hfree
        rw [hadd]
        exact ih (hhead.trans hfirst) (htail ▸ hsecond)
      · obtain ⟨hstart, hknown⟩ := Classical.not_imp.mp hfree
        obtain ⟨q, hd⟩ := Option.ne_none_iff_exists'.mp hknown
        simp only [Draft.starts, startRows, hd, hstart, if_true, Option.map_some,
          Option.toList_some, List.singleton_append, List.head?_cons, List.tail_cons,
          Option.some.injEq, Prod.mk.injEq] at hfirst hsecond
        obtain ⟨rfl, rfl⟩ := hsecond
        rw [Draft.add_eq_error hstart hd, hfirst]

/-- A line that is laid out from an entry is read as that entry. -/
theorem readAs_of_lineText (hlines : List.Forall₂ LineText rows lines)
    (hrows : ∀ e, some e ∈ rows → e.WellFormed) : List.Forall₂ ReadAs rows lines := by
  induction hlines with
  | nil => exact .nil
  | @cons row line rows lines hline _ ih =>
    refine .cons ?_ (ih fun e he => hrows e (List.mem_cons_of_mem _ he))
    cases row with
    | none => exact hline.readLine_blank
    | some e => exact hline.readLine_entry (hrows e (List.mem_cons_self ..))

theorem readLines_gathers (hlines : List.Forall₂ LineText rows lines)
    (hrows : ∀ e, some e ∈ rows → e.WellFormed) (h : d.Gathers done)
    (hone : (d.starts number rows).tail = []) : ∃ d', readLines d number lines = .ok d' ∧
      d'.Gathers (done ++ rows) ∧ d'.start? = (d.starts number rows).head?.map Prod.snd :=
  readRows_gathers (readAs_of_lineText hlines hrows) h hone

theorem readLines_secondStart (hlines : List.Forall₂ LineText rows lines)
    (hrows : ∀ e, some e ∈ rows → e.WellFormed)
    (hfirst : (d.starts number rows).head?.map Prod.snd = some first)
    (hsecond : (d.starts number rows).tail.head? = some (k, second)) :
    readLines d number lines = .error (.atLine k (.secondStart first second)) :=
  readRows_secondStart (readAs_of_lineText hlines hrows) hfirst hsecond

/-! ### The automaton -/

/-- What a draft is made into. -/
def Draft.components (d : Draft) (q : State) : Automaton.Components :=
  ⟨.ofList (d.transitions.map (·.symbol)), .ofList d.states, .ofList d.finals, q,
    .ofList d.transitions⟩

theorem Draft.build_eq (hstart : d.start? = some q) :
    d.build = (Automaton.validate (d.components q)).mapError .invalid := by
  rw [Draft.build, hstart]
  rfl

theorem Draft.Gathers.declared (h : d.Gathers rows) (hq : ∃ e, some e ∈ rows ∧ e.name = q) :
    (d.components q).Declared := by
  have hname : ∀ e, some e ∈ rows → e.name ∈ (d.components q).states := fun e he =>
    SortedSet.mem_ofList.mpr ((h.states _).mpr ⟨e, he, .inl rfl⟩)
  refine ⟨?_, fun p hp => ?_, fun t ht => ?_, fun t ht => ?_⟩
  · obtain ⟨e, he, rfl⟩ := hq
    exact hname e he
  · obtain ⟨e, he, _, rfl⟩ := (h.finals p).mp (SortedSet.mem_ofList.mp hp)
    exact hname e he
  · obtain ⟨e, he, m, hm, rfl⟩ := (h.transitions t).mp (SortedSet.mem_ofList.mp ht)
    exact ⟨hname e he, SortedSet.mem_ofList.mpr ((h.states _).mpr ⟨e, he, .inr ⟨m, hm, rfl⟩⟩)⟩
  · exact SortedSet.mem_ofList.mpr (List.mem_map_of_mem (SortedSet.mem_ofList.mp ht))

theorem Draft.Gathers.build_eq_error (h : d.Gathers rows) (hstart : d.start? = some q)
    (hq : ∃ e, some e ∈ rows ∧ e.name = q) (hfinal : ∀ e, some e ∈ rows → e.isFinal = false) :
    d.build = .error (.invalid .noFinals) := by
  have hnone : (d.components q).finals.isEmpty = true := SortedSet.isEmpty_iff.mpr fun p hp => by
    obtain ⟨e, he, hmarked, _⟩ := (h.finals p).mp (SortedSet.mem_ofList.mp hp)
    rw [hfinal e he] at hmarked
    cases hmarked
  have hdefect : (d.components q).defect? = some .noFinals := by
    rw [(h.declared hq).defect?_eq, Automaton.Components.missingFinals?, if_pos hnone]
  rw [Draft.build_eq hstart, Automaton.validate_eq_error hdefect]
  rfl

theorem Draft.Gathers.exists_build (h : d.Gathers rows) (hstart : d.start? = some q)
    (hq : ∃ e, some e ∈ rows ∧ e.name = q) (hfinal : ∃ e, some e ∈ rows ∧ e.isFinal = true) :
    ∃ a, d.build = .ok a ∧ Means rows q a := by
  obtain ⟨e, he, hmarked⟩ := hfinal
  have hvalid : (d.components q).Valid := (h.declared hq).valid
    ⟨e.name, SortedSet.mem_ofList.mpr ((h.finals _).mpr ⟨e, he, hmarked, rfl⟩)⟩
  refine ⟨{ toComponents := d.components q, valid := hvalid }, ?_, rfl, fun p => ?_,
    fun p => ?_, fun t => ?_, fun x => ?_⟩
  · rw [Draft.build_eq hstart, Automaton.validate_eq_ok hvalid]
    rfl
  · exact SortedSet.mem_ofList.trans (h.states p)
  · exact SortedSet.mem_ofList.trans (h.finals p)
  · exact SortedSet.mem_ofList.trans (h.transitions t)
  · refine (SortedSet.mem_ofList.trans List.mem_map).trans ?_
    simp only [h.transitions]
    refine ⟨fun ⟨t, ⟨e, he, m, hm, ht⟩, hx⟩ => ⟨e, he, m, hm, ?_⟩,
      fun ⟨e, he, m, hm, hx⟩ => ⟨_, ⟨e, he, m, hm, rfl⟩, hx⟩⟩
    rw [← hx, ← ht]

end Description

open Description

/-- A text is read as what it says, however it is laid out: it fails at the second row that marks a
start state, or if no row does, or if no row marks a final state, and otherwise gives the automaton
that its rows describe. -/
theorem Automaton.parse_laidOut {rows : List (Option Entry)} {text : List Char}
    (h : LaidOut rows text) (hrows : ∀ e, some e ∈ rows → e.WellFormed) :
    (∀ j first k second rest, startRows 1 rows = (j, first) :: (k, second) :: rest →
      Automaton.parse text = .error (.atLine k (.secondStart first second))) ∧
    (startRows 1 rows = [] → Automaton.parse text = .error .missingStart) ∧
    ∀ j first, startRows 1 rows = [(j, first)] →
      ((∀ e, some e ∈ rows → e.isFinal = false) →
        Automaton.parse text = .error (.invalid .noFinals)) ∧
      ((∃ e, some e ∈ rows ∧ e.isFinal = true) →
        ∃ a, Automaton.parse text = .ok a ∧ Means rows first a) := by
  have hlines := lineText_lines h hrows
  have hstarts : Draft.empty.starts 1 rows = startRows 1 rows := rfl
  -- With at most one start state all rows are read, and what is missing shows in the end.
  have hread : (startRows 1 rows).tail = [] → ∃ d : Draft, Automaton.parse text = d.build ∧
      d.Gathers rows ∧ d.start? = (startRows 1 rows).head?.map Prod.snd := fun hone => by
    obtain ⟨d, hd, hgathers, hstart⟩ := readLines_gathers hlines hrows .empty hone
    refine ⟨d, ?_, hgathers, hstart⟩
    rw [Automaton.parse, hd]
    rfl
  refine ⟨fun j first k second rest hrows' => ?_, fun hnone => ?_, fun j first hone => ?_⟩
  · have hfirst : (Draft.empty.starts 1 rows).head?.map Prod.snd = some first := by
      rw [hstarts, hrows']
      rfl
    have hsecond : (Draft.empty.starts 1 rows).tail.head? = some (k, second) := by
      rw [hstarts, hrows']
      rfl
    have herror := readLines_secondStart hlines hrows hfirst hsecond
    rw [Automaton.parse, herror]
    rfl
  · obtain ⟨d, hparse, _, hstart⟩ := hread (by rw [hnone]; rfl)
    rw [hnone] at hstart
    rw [hparse, Draft.build, hstart]
    rfl
  · obtain ⟨d, hparse, hgathers, hstart⟩ := hread (by rw [hone]; rfl)
    have hfirst : (j, first) ∈ startRows 1 rows := hone ▸ List.mem_singleton.mpr rfl
    obtain ⟨i, e, hrow, _, _, rfl⟩ := mem_startRows.mp hfirst
    have hq : ∃ e', some e' ∈ rows ∧ e'.name = e.name := ⟨e, List.mem_of_getElem? hrow, rfl⟩
    rw [hone] at hstart
    rw [hparse]
    exact ⟨hgathers.build_eq_error hstart hq, hgathers.exists_build hstart hq⟩

/-- A state with two rows, one of them far from its first mention. -/
def scattered : List (Option Entry) := [
  none,
  some ⟨.start, .ofChars ['{', 'p', ',', ' ', 'q', '}'],
    some [(.ofChars [','], .ofChars ['r']), (.epsilon, .ofChars ['{', 'p', ',', ' ', 'q', '}'])]⟩,
  some ⟨.final, .ofChars ['r'], none⟩,
  some ⟨.plain, .ofChars ['r'], some [(.ofChars ['a'], .ofChars ['s'])]⟩]

def scatteredText : List Char :=
  [' ', '\r', '\n',
    '-', '>', '{', 'p', ',', ' ', 'q', '}', ':', '"', ' ', ',', '"', '-', '>', ' ', 'r', '\t', ',',
    '"', '"', '-', '>', '{', 'p', ',', ' ', 'q', '}', '\r', '\n',
    '\t', '*', ' ', ' ', 'r', ' ', '\n',
    'r', '\t', ':', ' ', '"', 'a', '"', ' ', '-', '>', 's', ' ']

theorem scattered_laidOut : LaidOut scattered scatteredText := by
  have hspace : Blank [' '] := by decide
  have hspaces : Blank [' ', ' '] := by decide
  have htab : Blank ['\t'] := by decide
  have hcomma : MoveText (.ofChars [','], .ofChars ['r'])
      ['"', ' ', ',', '"', '-', '>', ' ', 'r'] := .intro hspace .nil .nil hspace
  have hempty : MoveText (.epsilon, .ofChars ['{', 'p', ',', ' ', 'q', '}'])
      ['"', '"', '-', '>', '{', 'p', ',', ' ', 'q', '}'] := .intro .nil .nil .nil .nil
  have hmerged : EntryText ⟨.start, .ofChars ['{', 'p', ',', ' ', 'q', '}'],
      some [(.ofChars [','], .ofChars ['r']), (.epsilon, .ofChars ['{', 'p', ',', ' ', 'q', '}'])]⟩
      ['-', '>', '{', 'p', ',', ' ', 'q', '}', ':', '"', ' ', ',', '"', '-', '>', ' ', 'r', '\t',
        ',', '"', '"', '-', '>', '{', 'p', ',', ' ', 'q', '}'] :=
    .listed .nil .nil .nil (.cons .nil hcomma htab (.single .nil hempty))
  have hbare : EntryText ⟨.final, .ofChars ['r'], none⟩ ['\t', '*', ' ', ' ', 'r'] :=
    .bare htab hspaces
  have hmove : MoveText (.ofChars ['a'], .ofChars ['s']) ['"', 'a', '"', ' ', '-', '>', 's'] :=
    .intro .nil .nil hspace .nil
  have hplain : EntryText ⟨.plain, .ofChars ['r'], some [(.ofChars ['a'], .ofChars ['s'])]⟩
      ['r', '\t', ':', ' ', '"', 'a', '"', ' ', '-', '>', 's'] :=
    .listed .nil .nil htab (.single hspace hmove)
  have hlast : LaidOut [_] _ := .last (.entry hplain hspace) (by decide) (by decide)
  exact .returnFeed (.blank hspace) (by decide) (.returnFeed (.entry hmerged .nil) (by decide)
    (.feed (.entry hbare hspace) (by decide) hlast))

theorem scattered_wellFormed : ∀ e, some e ∈ scattered → e.WellFormed := by
  have hrows : ∀ row ∈ scattered, ∀ e ∈ row,
      (Unbroken e.name.chars ∧ ¬ ['-', '>'] <+: e.name.chars ∧ ¬ ['*'] <+: e.name.chars) ∧
      (∀ m ∈ e.moves, '"' ∉ m.1.chars) ∧
      ∀ m ∈ e.moves, Unbroken m.2.chars := by decide
  intro e he
  obtain ⟨⟨hname, harrow, hstar⟩, hsymbols, htargets⟩ := hrows _ he e rfl
  exact ⟨hname, harrow, hstar, hsymbols, htargets⟩

theorem scattered_parse : LaidOut scattered scatteredText ∧
    ∃ a, Automaton.parse scatteredText = .ok a ∧
      Means scattered (.ofChars ['{', 'p', ',', ' ', 'q', '}']) a := by
  have hstart : startRows 1 scattered = [(2, .ofChars ['{', 'p', ',', ' ', 'q', '}'])] := rfl
  have hfinal : ∃ e, some e ∈ scattered ∧ e.isFinal = true :=
    ⟨_, List.mem_of_getElem? (i := 2) rfl, rfl⟩
  have hparse := (Automaton.parse_laidOut scattered_laidOut scattered_wellFormed).2.2
  exact ⟨scattered_laidOut, (hparse 2 _ hstart).2 hfinal⟩

end FormalLanguage
