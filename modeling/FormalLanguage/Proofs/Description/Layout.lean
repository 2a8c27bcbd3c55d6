import FormalLanguage.Proofs.Description.Reader

/-! Layouts of a description.

What a line says is an `Entry`, and there are many ways to write it down: with the
marker right before the name or apart from it, and with any blanks around the
colon, the commas, the arrows and inside the quotes. `EntryText` is all of them,
and `LaidOut` says of a whole text that its lines are given entries or nothing,
with either kind of line end. A line is read as its entry, whatever its layout
(`LineText.readLine_entry`), and the lines of a text that is laid out are those it was
laid out from, but that one may have lost a carriage return at its end
(`lineText_lines`). -/
namespace FormalLanguage.Description
open Text

/-! ### Entries -/

/-- The ways to mark a state. -/
inductive Marking where
  | plain
  | start
  | final
  | startFinal
  | finalStart
deriving DecidableEq

namespace Marking

def chars : Marking → List Char
  | plain => []
  | start => ['-', '>']
  | final => ['*']
  | startFinal => ['-', '>', '*']
  | finalStart => ['*', '-', '>']

def role : Marking → Role
  | plain => ⟨false, false⟩
  | start => ⟨true, false⟩
  | final => ⟨false, true⟩
  | startFinal => ⟨true, true⟩
  | finalStart => ⟨true, true⟩

theorem mem_markers {m : Marking} (hm : m ≠ plain) : (m.chars, m.role) ∈ markers := by
  cases m with
  | plain => exact absurd rfl hm
  | start | final | startFinal | finalStart => decide

theorem plain_chars (m : Marking) : Plain (· = ':') m.chars := by
  cases m <;> decide

end Marking

/-- What a line says. A line may have a colon and no transitions, or no colon at all. -/
structure Entry where
  marking : Marking
  name : State
  list? : Option (List (Symbol × State))
deriving DecidableEq

namespace Entry

def moves (e : Entry) : List (Symbol × State) := e.list?.getD []

def isStart (e : Entry) : Bool := e.marking.role.start

def isFinal (e : Entry) : Bool := e.marking.role.final

/-- Names in one piece, no name that begins like a marker where a marker may stand, and no quote in
a symbol. -/
structure WellFormed (e : Entry) : Prop where
  name : Unbroken e.name.chars
  noArrow : ¬ ['-', '>'] <+: e.name.chars
  noStar : ¬ ['*'] <+: e.name.chars
  symbols : ∀ m ∈ e.moves, '"' ∉ m.1.chars
  targets : ∀ m ∈ e.moves, Unbroken m.2.chars

end Entry

/-! ### Texts -/

/-- A transition, with any blanks inside its quotes and around its arrow. -/
inductive MoveText : Symbol × State → List Char → Prop where
  | intro {x : Symbol} {p : State} {u v u' v' : List Char} (hu : Blank u) (hv : Blank v)
      (hu' : Blank u') (hv' : Blank v') : MoveText (x, p)
        ('"' :: (u ++ x.chars ++ v) ++ '"' :: (u' ++ '-' :: '>' :: (v' ++ p.chars)))

/-- Transitions in a row, with any blanks before each and around the commas. -/
inductive MovesText : List (Symbol × State) → List Char → Prop where
  | nil : MovesText [] []
  | single {m : Symbol × State} {u s : List Char} (hu : Blank u) (hs : MoveText m s) :
      MovesText [m] (u ++ s)
  | cons {m m' : Symbol × State} {ms : List (Symbol × State)} {u s v rest : List Char}
      (hu : Blank u) (hs : MoveText m s) (hv : Blank v) (hrest : MovesText (m' :: ms) rest) :
      MovesText (m :: m' :: ms) (u ++ s ++ v ++ ',' :: rest)

/-- An entry, with any blanks before it, behind its marker and around its colon. -/
inductive EntryText : Entry → List Char → Prop where
  | bare {m : Marking} {q : State} {u v : List Char} (hu : Blank u) (hv : Blank v) :
      EntryText ⟨m, q, none⟩ (u ++ (m.chars ++ v ++ q.chars))
  | listed {m : Marking} {q : State} {ms : List (Symbol × State)} {u v w body : List Char}
      (hu : Blank u) (hv : Blank v) (hw : Blank w) (hbody : MovesText ms body) :
      EntryText ⟨m, q, some ms⟩ (u ++ (m.chars ++ v ++ q.chars) ++ w ++ ':' :: body)

/-- A line without an entry is blank. Behind an entry there may be blanks. -/
inductive LineText : Option Entry → List Char → Prop where
  | blank {s : List Char} (hs : Blank s) : LineText none s
  | entry {e : Entry} {s v : List Char} (hs : EntryText e s) (hv : Blank v) :
      LineText (some e) (s ++ v)

/-- The lines of a text. The last of them may do without an end. -/
inductive LaidOut : List (Option Entry) → List Char → Prop where
  | nil : LaidOut [] []
  | last {row : Option Entry} {s : List Char} (hs : LineText row s) (hfeed : '\n' ∉ s)
      (hne : s ≠ []) : LaidOut [row] s
  | feed {row : Option Entry} {rows : List (Option Entry)} {s rest : List Char}
      (hs : LineText row s) (hfeed : '\n' ∉ s) (hrest : LaidOut rows rest) :
      LaidOut (row :: rows) (s ++ '\n' :: rest)
  | returnFeed {row : Option Entry} {rows : List (Option Entry)} {s rest : List Char}
      (hs : LineText row s) (hfeed : '\n' ∉ s) (hrest : LaidOut rows rest) :
      LaidOut (row :: rows) (s ++ '\r' :: '\n' :: rest)

variable {e : Entry} {row : Option Entry} {rows : List (Option Entry)} {m : Symbol × State}
  {ms : List (Symbol × State)} {s u v w body text : List Char} {q : State}

/-! ### Lines of a text -/

theorem MoveText.exists_last (h : MoveText m s) (hp : Unbroken m.2.chars) :
    ∃ c ∈ s.getLast?, isBlank c = false := by
  obtain ⟨⟩ := h
  rename_i x p u v u' v' hu hv hu' hv'
  have htarget := exists_last_append hp.legible.exists_last
    ('"' :: (u ++ x.chars ++ v) ++ '"' :: (u' ++ '-' :: '>' :: v'))
  simpa only [List.append_assoc, List.cons_append] using htarget

theorem MovesText.exists_last (h : MovesText ms body) (hms : ms ≠ [])
    (htargets : ∀ m ∈ ms, Unbroken m.2.chars) : ∃ c ∈ body.getLast?, isBlank c = false := by
  induction h with
  | nil => exact absurd rfl hms
  | single _ hs => exact exists_last_append (hs.exists_last (htargets _ (List.mem_cons_self ..))) _
  | cons _ _ _ _ ih =>
    have hrest := ih (List.cons_ne_nil _ _) fun m hm => htargets m (List.mem_cons_of_mem _ hm)
    rw [← List.singleton_append]
    exact exists_last_append (exists_last_append hrest _) _

theorem EntryText.exists_last (h : EntryText e s) (he : e.WellFormed) :
    ∃ c ∈ s.getLast?, isBlank c = false := by
  cases h with
  | bare => exact exists_last_append (exists_last_append he.name.legible.exists_last _) _
  | @listed _ _ ms _ _ _ body _ _ _ hbody =>
    refine exists_last_append ?_ _
    by_cases hms : ms = []
    · subst hms
      cases hbody
      exact ⟨':', rfl, by decide⟩
    · rw [← List.singleton_append]
      exact exists_last_append (hbody.exists_last hms he.targets) _

/-- A carriage return at the end of a line is one of the blanks there. -/
theorem LineText.dropReturn (h : LineText row (s ++ ['\r'])) (hrow : ∀ e ∈ row, e.WellFormed) :
    LineText row s := by
  generalize ht : s ++ ['\r'] = t at h
  cases h with
  | blank hs => exact .blank fun c hc => hs c (ht ▸ List.mem_append_left _ hc)
  | entry hs hv =>
    obtain ⟨w, rfl, rfl⟩ := exists_append_of_last (hs.exists_last (hrow _ rfl)) (by decide) ht.symm
    exact .entry hs fun c hc => hv c (List.mem_append_left _ hc)

theorem lineText_lines (h : LaidOut rows text) (hrows : ∀ e, some e ∈ rows → e.WellFormed) :
    List.Forall₂ LineText rows (lines text) := by
  induction h with
  | nil => exact .nil
  | last hs hfeed hne =>
    rw [lines_eq_singleton hfeed hne]
    exact .cons hs .nil
  | @feed row rows s rest hs hfeed _ ih =>
    have hrest := ih fun e he => hrows e (List.mem_cons_of_mem _ he)
    by_cases hreturn : s.getLast? = some '\r'
    · obtain ⟨s, rfl⟩ := List.getLast?_eq_some_iff.mp hreturn
      rw [List.append_assoc, List.singleton_append,
        lines_append_return fun hc => hfeed (List.mem_append_left _ hc)]
      exact .cons (hs.dropReturn fun e he => hrows e (he ▸ List.mem_cons_self ..)) hrest
    · rw [lines_append hfeed hreturn]
      exact .cons hs hrest
  | returnFeed hs hfeed _ ih =>
    rw [lines_append_return hfeed]
    exact .cons hs (ih fun e he => hrows e (List.mem_cons_of_mem _ he))

/-! ### Reading a line -/

theorem blank_passes (hu : Blank u) {c : Char} (hc : isBlank c = false) : Passes (· = c) u := by
  refine (plain_of_blank hu fun d hd => decide_eq_false fun heq => ?_).passes
  rw [heq, hc] at hd
  cases hd

theorem MoveText.passes (h : MoveText m s) (hx : '"' ∉ m.1.chars) (hp : Unbroken m.2.chars) :
    Passes (· = ',') s := by
  obtain ⟨hu, hv, hu', hv'⟩ := h
  rename_i x p u v u' v'
  have hquoted : Passes (· = ',') ('"' :: (u ++ x.chars ++ v) ++ ['"']) :=
    passes_quoted (notMem_between hu hx hv (by decide)) rfl
  have harrow : Plain (· = ',') ['-', '>'] := by decide
  have h := hquoted.append ((blank_passes hu' (by decide)).append
    (harrow.passes.append ((blank_passes hv' (by decide)).append hp.passes_comma)))
  simpa using h

theorem MoveText.readMove_eq (h : MoveText m s) (hx : '"' ∉ m.1.chars) (hp : Unbroken m.2.chars)
    (hu : Blank u) (hv : Blank v) : readMove (u ++ s ++ v) = .ok m := by
  obtain ⟨hb, hb', hm, hm'⟩ := h
  exact readMove_between hu hb hb' hm hm' hv hx hp.legible

theorem MovesText.mapM_eq (h : MovesText ms body) (hms : ms ≠ [])
    (hsymbols : ∀ m ∈ ms, '"' ∉ m.1.chars) (htargets : ∀ m ∈ ms, Unbroken m.2.chars)
    (hw : Blank w) : (splitTopLevel (· = ',') (body ++ w)).mapM readMove = .ok ms := by
  induction h with
  | nil => exact absurd rfl hms
  | @single m u s hu hs =>
    have hx := hsymbols m (List.mem_cons_self ..)
    have hp := htargets m (List.mem_cons_self ..)
    have hpasses := ((blank_passes hu (by decide)).append (hs.passes hx hp)).append
      (blank_passes (c := ',') hw (by decide))
    rw [splitTopLevel_of_clear hpasses.clear, List.mapM_cons, hs.readMove_eq hx hp hu hw]
    rfl
  | @cons m m' ms u s v rest hu hs hv _ ih =>
    obtain ⟨hx, hsymbols⟩ := List.forall_mem_cons.mp hsymbols
    obtain ⟨hp, htargets⟩ := List.forall_mem_cons.mp htargets
    have hpasses := ((blank_passes hu (by decide)).append (hs.passes hx hp)).append
      (blank_passes (c := ',') hv (by decide))
    rw [List.append_assoc, List.cons_append, splitTopLevel_separator hpasses rfl, List.mapM_cons,
      hs.readMove_eq hx hp hu hv, ih (List.cons_ne_nil _ _) hsymbols htargets]
    rfl

theorem MovesText.readMoves_eq (h : MovesText ms body) (hsymbols : ∀ m ∈ ms, '"' ∉ m.1.chars)
    (htargets : ∀ m ∈ ms, Unbroken m.2.chars) (hw : Blank w) : readMoves (body ++ w) = .ok ms := by
  by_cases hms : ms = []
  · subst hms
    cases h
    rw [List.nil_append, readMoves, isBlankText_of_blank hw, if_pos rfl]
  · obtain ⟨c, hc, hblank⟩ := h.exists_last hms htargets
    have hbody : isBlankText (body ++ w) = false :=
      isBlankText_eq_false (List.mem_append_left _ (List.mem_of_getLast? hc)) hblank
    rw [readMoves, hbody, if_neg Bool.false_ne_true]
    exact h.mapM_eq hms hsymbols htargets hw

/-- A marker is read right before its name as well as apart from it. -/
theorem readDefinition_marking (m : Marking) (hq : Unbroken q.chars)
    (harrow : ¬ ['-', '>'] <+: q.chars) (hstar : ¬ ['*'] <+: q.chars) (hu : Blank u) (hv : Blank v)
    (hw : Blank w) : readDefinition (u ++ (m.chars ++ v ++ q.chars) ++ w) = .ok (m.role, q) := by
  by_cases hm : m = .plain
  · subst hm
    have hread := readDefinition_bare (hu.append hv) hq.legible hw harrow hstar
    simpa [Marking.chars, Marking.role] using hread
  · by_cases hne : v = []
    · subst hne
      rw [List.append_nil]
      exact readDefinition_glued (Marking.mem_markers hm) hu hq.legible hw harrow hstar
    · exact readDefinition_marked (Marking.mem_markers hm) hu hv hne hq.legible hw

theorem definition_passes (m : Marking) (hq : Unbroken q.chars) (hu : Blank u) (hv : Blank v)
    (hw : Blank w) : Passes (· = ':') (u ++ (m.chars ++ v ++ q.chars) ++ w) := by
  have hname := (m.plain_chars.passes.append (blank_passes hv (by decide))).append hq.passes_colon
  exact ((blank_passes hu (by decide)).append hname).append (blank_passes hw (by decide))

/-- What an entry makes of what is known so far. -/
def Draft.add (d : Draft) (e : Entry) : Except LineFault Draft :=
  (d.declare e.marking.role e.name).map fun d => e.moves.foldl (Draft.connect e.name) d

theorem EntryText.readLine_eq (h : EntryText e s) (he : e.WellFormed) (hw : Blank w) (d : Draft) :
    readLine d (s ++ w) = d.add e := by
  have hline : isBlankText (s ++ w) = false := by
    obtain ⟨c, hc, hblank⟩ := h.exists_last he
    exact isBlankText_eq_false (List.mem_append_left _ (List.mem_of_getLast? hc)) hblank
  cases h with
  | @bare m q u v hu hv =>
    have hdefinition := readDefinition_marking m he.name he.noArrow he.noStar hu hv hw
    have hmoves : readMoves [] = .ok [] := rfl
    refine readLine_of_parts d hline ?_ hdefinition hmoves
    rw [cutAtColon, cutTopLevel?_eq_none_iff.mpr (definition_passes m he.name hu hv hw).clear]
    rfl
  | @listed m q ms u v w' body hu hv hw' hbody =>
    have hdefinition := readDefinition_marking m he.name he.noArrow he.noStar hu hv hw'
    have hmoves := hbody.readMoves_eq he.symbols he.targets hw
    refine readLine_of_parts d hline ?_ hdefinition hmoves
    rw [List.append_assoc, List.cons_append, cutAtColon,
      cutTopLevel?_separator (definition_passes m he.name hu hv hw') rfl]
    rfl

theorem LineText.readLine_blank (h : LineText none s) (d : Draft) : readLine d s = .ok d := by
  obtain ⟨hs⟩ := h
  rw [readLine, isBlankText_of_blank hs, if_pos rfl]

theorem LineText.readLine_entry (h : LineText (some e) s) (he : e.WellFormed) (d : Draft) :
    readLine d s = d.add e := by
  obtain _ | ⟨hs, hv⟩ := h
  exact hs.readLine_eq he hv d

end FormalLanguage.Description
