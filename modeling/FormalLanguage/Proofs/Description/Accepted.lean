import FormalLanguage.Proofs.Description.RoundTrip

/-! What the reader accepts.

A name that is read stands at the end of its text: what comes before it leaves the
reader at the top, and what comes after it is blank (`EndsIn`). So what is known of
the text, that it has no colon or no comma that counts, is known of the name, and
this is how the readers of the parts are turned around here, from the text to what
it must have looked like. `Draft.Sound` collects what the lines of a description
are sure to say, and `Described` what is so known of every automaton that was read.

That is not enough to read the automaton back. A target is looked at where a comma
ends it, but is written on a line of its own too, where it may be taken for a marker,
or end at a colon, and its braces may swallow what is written after it.
`parse_print_of_parse` asks for no more than that this does not happen. -/
namespace FormalLanguage
open Text Description

namespace Description

variable {separator : Char → Bool} {n : Nesting} {name body definition line s t u v : List Char}
  {q p : State} {x : Symbol} {role role' : Role} {moves : List (Symbol × State)} {d d' : Draft}

/-! ### The end of a text -/

theorem next_blank {c : Char} (hc : isBlank c = true) (n : Nesting) : n.next c = n := by
  have hne : ∀ e, isBlank e = false → c ≠ e := fun e he heq => by
    rw [heq, he] at hc
    cases hc
  simp [Nesting.next, hne '"' (by decide), hne '{' (by decide), hne '}' (by decide)]

theorem after_blank (hv : Blank v) (n : Nesting) : n.after v = n := by
  induction v with
  | nil => rfl
  | cons c v ih =>
    rw [Nesting.after, List.foldl_cons, next_blank (hv c (List.mem_cons_self ..))]
    exact ih fun d hd => hv d (List.mem_cons_of_mem _ hd)

/-- The text ends in the name, blanks aside, and whoever reads the text comes to the name at the
top. -/
def EndsIn (s name : List Char) : Prop :=
  ∃ u v, s = u ++ name ++ v ∧ Nesting.top.after u = .top ∧ Blank v

namespace EndsIn

theorem append (hu : Nesting.top.after u = .top) (s : List Char) : EndsIn (u ++ s) s :=
  ⟨u, [], (List.append_nil _).symm, hu, .nil⟩

theorem trim (s : List Char) : EndsIn s (trim s) := by
  obtain ⟨u, v, hu, hv, hs⟩ := exists_trim s
  exact ⟨u, v, hs, after_blank hu _, hv⟩

theorem trimStart (s : List Char) : EndsIn s (trimStart s) :=
  ⟨s.takeWhile isBlank, [], by rw [List.append_nil]; exact List.takeWhile_append_dropWhile.symm,
    after_blank (fun _ hc => List.mem_takeWhile_imp hc) _, .nil⟩

theorem trans (h : EndsIn s t) (h' : EndsIn t name) : EndsIn s name := by
  obtain ⟨u, v, rfl, hu, hv⟩ := h
  obtain ⟨u', v', rfl, hu', hv'⟩ := h'
  refine ⟨u ++ u', v' ++ v, by simp, ?_, hv'.append hv⟩
  rw [Nesting.after_append, hu, hu']

theorem clear (h : EndsIn s name) (hs : Clear separator .top s) : Clear separator .top name := by
  obtain ⟨u, v, rfl, hu, _⟩ := h
  have hname := (clear_append.mp (clear_append.mp hs).1).2
  rwa [hu] at hname

theorem after_eq (h : EndsIn s name) : Nesting.top.after s = Nesting.top.after name := by
  obtain ⟨u, v, rfl, hu, hv⟩ := h
  rw [Nesting.after_append, Nesting.after_append, hu, after_blank hv]

theorem subset (h : EndsIn s name) : name ⊆ s := by
  obtain ⟨u, v, rfl, _, _⟩ := h
  exact fun c hc => List.mem_append_left _ (List.mem_append_right _ hc)

end EndsIn

/-! ### Accepted names -/

theorem endsIn_of_readName (h : readName s = .ok q) : Legible q.chars ∧ EndsIn s q.chars := by
  simp only [readName] at h
  split at h
  · cases h
  · next hne =>
    split at h
    · cases h
    · next hbad =>
      obtain rfl := Except.ok.inj h
      obtain ⟨hquote, hcut⟩ := not_or.mp hbad
      have hchars : (State.ofChars (trim s)).chars = trim s := trim_eq_self (trimmed_trim s)
      rw [hchars]
      refine ⟨⟨fun hempty => hne (List.isEmpty_iff.mpr hempty), hquote, ?_⟩, .trim s⟩
      exact cutTopLevel?_eq_none_iff.mp (Option.not_isSome_iff_eq_none.mp hcut)

/-- A name behind a text that leaves its reader at the top. -/
theorem endsIn_of_readName_map (hu : Nesting.top.after u = .top)
    (h : ((readName s).map fun q => (role, q)) = .ok (role', q)) :
    Legible q.chars ∧ EndsIn (u ++ s) q.chars := by
  obtain ⟨p, hname, heq⟩ := map_eq_ok_iff.mp h
  obtain ⟨rfl, rfl⟩ := Prod.mk.inj heq
  obtain ⟨hlegible, hends⟩ := endsIn_of_readName hname
  exact ⟨hlegible, (EndsIn.append hu s).trans hends⟩

theorem endsIn_of_readDefinition (h : readDefinition s = .ok (role, q)) :
    Legible q.chars ∧ EndsIn s q.chars := by
  -- The name stands behind a marker and a blank, right behind a marker, or alone.
  suffices hdefinition : Legible q.chars ∧ EndsIn (trim s) q.chars from
    ⟨hdefinition.1, (EndsIn.trim s).trans hdefinition.2⟩
  simp only [readDefinition] at h
  split at h
  · next first rest hcut =>
    obtain ⟨c, hs, hc, _, htop⟩ := cutFrom_eq_some hcut
    split at h
    · have hafter : Nesting.top.after (first ++ [c]) = .top := by
        rw [Nesting.after_append, Nesting.eq_top htop]
        exact next_blank hc _
      rw [hs, List.append_cons]
      exact endsIn_of_readName_map hafter h
    · cases h
  · split at h
    · next glued name hglued =>
      obtain ⟨m, hm, hprefix⟩ := List.exists_of_findSome?_eq_some hglued
      obtain ⟨name', hname, heq⟩ := Option.map_eq_some_iff.mp hprefix
      obtain ⟨rfl, rfl⟩ := Prod.mk.inj heq
      rw [← List.append_eq_of_isPrefixOf?_eq_some hname]
      exact endsIn_of_readName_map (marker_plain m hm).passes.after_eq h
    · exact endsIn_of_readName_map (u := []) rfl h

/-! ### Accepted transitions -/

theorem eq_of_readQuoted? {symbol rest : List Char} (h : readQuoted? s = some (symbol, rest)) :
    s = '"' :: symbol ++ ['"'] ++ rest ∧ '"' ∉ symbol := by
  unfold readQuoted? at h
  split at h
  · next s =>
    split at h
    · cases h
    · next c rest' hrest =>
      obtain ⟨rfl, rfl⟩ := Prod.mk.inj (Option.some.inj h)
      have hquote : c = '"' := by
        have hc := List.head?_dropWhile_not (· ≠ '"') s
        rw [hrest] at hc
        simpa using hc
      refine ⟨?_, fun hmem => ?_⟩
      · have hsplit := List.takeWhile_append_dropWhile (p := (· ≠ '"')) (l := s)
        rw [hrest, hquote] at hsplit
        rw [List.append_assoc, List.cons_append, List.singleton_append, hsplit]
      · have hother := List.mem_takeWhile_imp hmem
        simp at hother
  · cases h

theorem endsIn_of_readMove (h : readMove s = .ok (x, p)) :
    ('"' ∉ x.chars ∧ x.chars ⊆ s) ∧ Legible p.chars ∧ EndsIn s p.chars := by
  simp only [readMove] at h
  split at h
  · cases h
  · next symbol rest hquoted =>
    split at h
    · cases h
    · next target htarget =>
      split at h
      · cases h
      · obtain ⟨p', hname, heq⟩ := map_eq_ok_iff.mp h
        obtain ⟨rfl, rfl⟩ := Prod.mk.inj heq
        obtain ⟨hsegment, hsymbol⟩ := eq_of_readQuoted? hquoted
        obtain ⟨hlegible, hends⟩ := endsIn_of_readName hname
        have harrow := List.append_eq_of_isPrefixOf?_eq_some htarget
        have hrest : EndsIn s rest := by
          have hpasses : Passes (fun _ => false) ('"' :: symbol ++ ['"']) :=
            passes_quoted hsymbol rfl
          refine (EndsIn.trim s).trans ?_
          rw [hsegment]
          exact EndsIn.append hpasses.after_eq rest
        have htext : EndsIn s target := by
          refine (hrest.trans (EndsIn.trimStart rest)).trans ?_
          rw [← harrow]
          exact EndsIn.append (u := ['-', '>']) rfl target
        have hinside : (Symbol.ofChars symbol).chars ⊆ symbol := (EndsIn.trim symbol).subset
        refine ⟨⟨fun hquote => hsymbol (hinside hquote), fun c hc => ?_⟩, hlegible,
          htext.trans hends⟩
        refine (EndsIn.trim s).subset ?_
        rw [hsegment]
        exact List.mem_append_left _ (List.mem_append_left _ (List.mem_cons_of_mem _ (hinside hc)))

theorem mem_readMoves (h : readMoves body = .ok moves) {m : Symbol × State} (hm : m ∈ moves) :
    ('"' ∉ m.1.chars ∧ m.1.chars ⊆ body) ∧
      Legible m.2.chars ∧ m.2.chars ⊆ body ∧ Clear (· = ',') .top m.2.chars := by
  rw [readMoves] at h
  split at h
  · obtain rfl := Except.ok.inj h
    exact absurd hm List.not_mem_nil
  · obtain ⟨segment, hsegment, hread⟩ := exists_mem_of_mapM h hm
    obtain ⟨⟨hquote, hsymbol⟩, hlegible, hends⟩ := endsIn_of_readMove hread
    have hbody : segment ⊆ body := (isInfix_of_mem_splitTopLevel hsegment).subset
    exact ⟨⟨hquote, fun c hc => hbody (hsymbol hc)⟩, hlegible, fun c hc => hbody (hends.subset hc),
      hends.clear (clear_of_mem_splitTopLevel hsegment)⟩

/-! ### Accepted lines -/

theorem cutAtColon_eq (h : cutAtColon line = (definition, body)) :
    Clear (· = ':') .top definition ∧ definition ⊆ line ∧ body ⊆ line ∧
      (body ≠ [] → Nesting.top.after definition = .top) := by
  rw [cutAtColon] at h
  cases hcut : cutTopLevel? (· = ':') line with
  | none =>
    rw [hcut] at h
    obtain ⟨rfl, rfl⟩ := Prod.mk.inj h
    exact ⟨cutTopLevel?_eq_none_iff.mp hcut, List.Subset.refl _, List.nil_subset _, absurd rfl⟩
  | some parts =>
    rw [hcut] at h
    obtain rfl : parts = (definition, body) := h
    obtain ⟨c, rfl, _, hclear, htop⟩ := cutFrom_eq_some hcut
    exact ⟨hclear, List.subset_append_left .., List.subset_append_of_subset_right _
      (List.subset_cons_self ..), fun _ => Nesting.eq_top htop⟩

/-- What a line says that is accepted: a name and the transitions after its colon. -/
structure Stated (q : State) (moves : List (Symbol × State)) : Prop where
  name : Legible q.chars ∧ '\n' ∉ q.chars ∧ Clear (· = ':') .top q.chars
  closed : moves ≠ [] → depthAfter q.chars = 0
  symbols : ∀ m ∈ moves, '"' ∉ m.1.chars ∧ '\n' ∉ m.1.chars
  targets : ∀ m ∈ moves, Legible m.2.chars ∧ '\n' ∉ m.2.chars ∧ Clear (· = ',') .top m.2.chars

theorem stated_of_parts (hline : '\n' ∉ line) (hcut : cutAtColon line = (definition, body))
    (hdefinition : readDefinition definition = .ok (role, q))
    (hmoves : readMoves body = .ok moves) : Stated q moves := by
  obtain ⟨hclear, hdefinitionLine, hbodyLine, hafter⟩ := cutAtColon_eq hcut
  obtain ⟨hlegible, hends⟩ := endsIn_of_readDefinition hdefinition
  have hfeed : '\n' ∉ body := fun hc => hline (hbodyLine hc)
  refine ⟨⟨hlegible, fun hc => hline (hdefinitionLine (hends.subset hc)), hends.clear hclear⟩,
    fun hne => ?_, fun m hm => ?_, fun m hm => ?_⟩
  · have hnone : readMoves [] = .ok [] := rfl
    have hbody : body ≠ [] := fun hnil => by
      rw [hnil, hnone] at hmoves
      exact hne (Except.ok.inj hmoves).symm
    have htop := hafter hbody
    rw [hends.after_eq, after_top_of_unquoted hlegible.unquoted] at htop
    exact (Nesting.mk.inj htop).2
  · obtain ⟨⟨hquote, hsubset⟩, _⟩ := mem_readMoves hmoves hm
    exact ⟨hquote, fun hc => hfeed (hsubset hc)⟩
  · obtain ⟨_, htarget, hsubset, hcomma⟩ := mem_readMoves hmoves hm
    exact ⟨htarget, fun hc => hfeed (hsubset hc), hcomma⟩

/-- A line that is accepted is blank, or declares a state and then connects it. -/
theorem exists_stated_of_readLine (hline : '\n' ∉ line) (h : readLine d line = .ok d') :
    d' = d ∨ ∃ role q moves d₁, Stated q moves ∧ d.declare role q = .ok d₁ ∧
      d' = moves.foldl (Draft.connect q) d₁ := by
  rw [readLine] at h
  split at h
  · exact .inl (Except.ok.inj h).symm
  · obtain ⟨⟨role, q⟩, hdefinition, h⟩ := bind_eq_ok_iff.mp h
    obtain ⟨d₁, hdeclare, h⟩ := bind_eq_ok_iff.mp h
    obtain ⟨moves, hmoves, h⟩ := bind_eq_ok_iff.mp h
    exact .inr ⟨role, q, moves, d₁, stated_of_parts hline rfl hdefinition hmoves, hdeclare,
      (Except.ok.inj h).symm⟩

/-! ### Accepted descriptions -/

theorem Draft.declare_eq_ok_iff : d.declare role q = .ok d' ↔
    (role.start = true → d.start? = none) ∧ d' = ⟨if role.start then some q else d.start?,
      q :: d.states, if role.final then q :: d.finals else d.finals, d.transitions⟩ := by
  obtain ⟨start, final⟩ := role
  obtain ⟨start?, states, finals, transitions⟩ := d
  cases start <;> cases start? <;> simp [Draft.declare, eq_comm]

/-- What is known of a draft, whatever the lines were. -/
structure Draft.Sound (d : Draft) : Prop where
  names : ∀ q ∈ d.states, Legible q.chars ∧ '\n' ∉ q.chars
  start : ∀ q ∈ d.start?, Clear (· = ':') .top q.chars
  finals : ∀ q ∈ d.finals, Clear (· = ':') .top q.chars
  symbols : ∀ t ∈ d.transitions, '"' ∉ t.symbol.chars ∧ '\n' ∉ t.symbol.chars
  sources : ∀ t ∈ d.transitions, depthAfter t.source.chars = 0
  targets : ∀ t ∈ d.transitions, Clear (· = ',') .top t.target.chars

theorem Draft.Sound.empty : Draft.Sound .empty := ⟨nofun, nofun, nofun, nofun, nofun, nofun⟩

theorem Draft.Sound.declare (h : d.Sound) (hq : Stated q moves)
    (hdeclare : d.declare role q = .ok d') : d'.Sound := by
  obtain ⟨_, rfl⟩ := Draft.declare_eq_ok_iff.mp hdeclare
  refine ⟨?_, fun p hp => ?_, fun p hp => ?_, h.symbols, h.sources, h.targets⟩
  · exact List.forall_mem_cons.mpr ⟨⟨hq.name.1, hq.name.2.1⟩, h.names⟩
  · dsimp only at hp
    split at hp
    · exact Option.some.inj hp ▸ hq.name.2.2
    · exact h.start p hp
  · dsimp only at hp
    split at hp
    · rcases List.mem_cons.mp hp with rfl | hp
      · exact hq.name.2.2
      · exact h.finals p hp
    · exact h.finals p hp

theorem Draft.Sound.connect (h : d.Sound) (hq : Stated q moves) :
    (moves.foldl (Draft.connect q) d).Sound := by
  obtain ⟨hstart, hfinals, hstates, htransitions⟩ := connect_all (q := q) moves d
  refine ⟨fun p hp => ?_, ?_, ?_, fun t ht => ?_, fun t ht => ?_, fun t ht => ?_⟩
  · rcases (hstates p).mp hp with hp | ⟨m, hm, rfl⟩
    · exact h.names p hp
    · exact ⟨(hq.targets m hm).1, (hq.targets m hm).2.1⟩
  · rw [hstart]
    exact h.start
  · rw [hfinals]
    exact h.finals
  · rcases (htransitions t).mp ht with ht | ⟨m, hm, rfl⟩
    · exact h.symbols t ht
    · exact hq.symbols m hm
  · rcases (htransitions t).mp ht with ht | ⟨m, hm, rfl⟩
    · exact h.sources t ht
    · exact hq.closed (List.ne_nil_of_mem hm)
  · rcases (htransitions t).mp ht with ht | ⟨m, hm, rfl⟩
    · exact h.targets t ht
    · exact (hq.targets m hm).2.2

theorem Draft.Sound.readLine (h : d.Sound) (hline : '\n' ∉ line)
    (hread : readLine d line = .ok d') : d'.Sound := by
  rcases exists_stated_of_readLine hline hread with rfl | ⟨role, q, moves, d₁, hq, hdeclare, rfl⟩
  · exact h
  · exact (h.declare hq hdeclare).connect hq

theorem Draft.Sound.readAll {l : List (List Char)} (number : Nat) (h : d.Sound)
    (hl : ∀ line ∈ l, '\n' ∉ line) (hread : readLines d number l = .ok d') : d'.Sound := by
  induction l generalizing d number with
  | nil => exact Except.ok.inj hread ▸ h
  | cons line l ih =>
    obtain ⟨hline, hl⟩ := List.forall_mem_cons.mp hl
    rw [readLines] at hread
    split at hread
    · cases hread
    · next d₁ hd₁ => exact ih (number + 1) (h.readLine hline hd₁) hl hread

end Description

/-- What is known of an automaton that was read, whatever its description was. -/
structure Automaton.Described (a : Automaton) : Prop where
  alphabet : ∀ x, x ∈ a.alphabet ↔ ∃ t ∈ a.transitions, t.symbol = x
  names : ∀ q ∈ a.states, Legible q.chars ∧ '\n' ∉ q.chars
  start : Clear (· = ':') .top a.start.chars
  finals : ∀ q ∈ a.finals, Clear (· = ':') .top q.chars
  symbols : ∀ t ∈ a.transitions, '"' ∉ t.symbol.chars ∧ '\n' ∉ t.symbol.chars
  sources : ∀ t ∈ a.transitions, depthAfter t.source.chars = 0
  targets : ∀ t ∈ a.transitions, Clear (· = ',') .top t.target.chars

theorem Description.Draft.Sound.described {d : Draft} {a : Automaton} (h : d.Sound)
    (hbuild : d.build = .ok a) : a.Described := by
  rw [Draft.build] at hbuild
  split at hbuild
  · cases hbuild
  · next q hq =>
    obtain ⟨c, valid, _, _⟩ := a
    obtain rfl : c = _ := Automaton.toComponents_of_validate (mapError_eq_ok_iff.mp hbuild)
    have htransitions : ∀ t ∈ SortedSet.ofList d.transitions, t ∈ d.transitions :=
      fun t => SortedSet.mem_ofList.mp
    refine ⟨fun x => ?_, fun p hp => h.names p (SortedSet.mem_ofList.mp hp), h.start q hq,
      fun p hp => h.finals p (SortedSet.mem_ofList.mp hp),
      fun t ht => h.symbols t (htransitions t ht), fun t ht => h.sources t (htransitions t ht),
      fun t ht => h.targets t (htransitions t ht)⟩
    simp [SortedSet.mem_ofList]

theorem Automaton.described_of_parse {s : List Char} {a : Automaton}
    (h : Automaton.parse s = .ok a) : a.Described := by
  obtain ⟨d, hlines, hbuild⟩ := bind_eq_ok_iff.mp h
  exact (Draft.Sound.empty.readAll 1 (fun _ => notMem_of_mem_lines) hlines).described hbuild

/-- An automaton that was read is read back from its description, if every state that is written
without a marker can stand at the beginning of a line, and no brace is left open before the last
transition of a state. -/
theorem Automaton.parse_print_of_parse {s : List Char} {a : Automaton}
    (hread : Automaton.parse s = .ok a)
    (hplain : ∀ q ∈ a.states, q ≠ a.start → q ∉ a.finals →
      ¬ ['-', '>'] <+: q.chars ∧ ¬ ['*'] <+: q.chars ∧ Clear (· = ':') .top q.chars)
    (hshut : ∀ t ∈ a.transitions, ∀ t' ∈ a.transitions, t.source = t'.source →
      compare t t' = .lt → depthAfter t.target.chars = 0) :
    Automaton.parse a.print = .ok a := by
  have ha := Automaton.described_of_parse hread
  refine Automaton.Recoverable.parse_eq ⟨ha.alphabet, ha.symbols, fun q hq => ?_, ha.sources,
    ha.targets, hshut, fun q hq hstart hfinal => ?_⟩
  · obtain ⟨hlegible, hfeed⟩ := ha.names q hq
    refine ⟨hlegible, hfeed, ?_⟩
    by_cases hstart : q = a.start
    · exact hstart ▸ ha.start
    · by_cases hfinal : q ∈ a.finals
      · exact ha.finals q hfinal
      · exact (hplain q hq hstart hfinal).2.2
  · obtain ⟨harrow, hstar, _⟩ := hplain q hq hstart hfinal
    exact ⟨harrow, hstar⟩

/-- One name with a comma, and one with a brace that is never closed. -/
def lopsided : Automaton where
  alphabet := .ofList [.ofChars ['{']]
  states := .ofList [.ofChars ['p', ',', 'q'], .ofChars ['{', 'r']]
  finals := .ofList [.ofChars ['p', ',', 'q']]
  start := .ofChars ['p', ',', 'q']
  transitions := .ofList [⟨.ofChars ['p', ',', 'q'], .ofChars ['{'], .ofChars ['{', 'r']⟩]
  valid := Automaton.Components.defect?_eq_none_iff.mp (by decide)

def lopsidedText : List Char :=
  ['-', '>', '*', 'p', ',', 'q', ':', '"', '{', '"', '-', '>', '{', 'r']

theorem lopsided_parse_print_of_parse : Automaton.parse lopsidedText = .ok lopsided ∧
    Automaton.parse lopsided.print = .ok lopsided := by
  have hread : Automaton.parse lopsidedText = .ok lopsided := by decide
  have hplain : ∀ q ∈ lopsided.states.toList, q ≠ lopsided.start → q ∉ lopsided.finals →
      ¬ ['-', '>'] <+: q.chars ∧ ¬ ['*'] <+: q.chars ∧ Clear (· = ':') .top q.chars := by decide
  have hshut : ∀ t ∈ lopsided.transitions.toList, ∀ t' ∈ lopsided.transitions.toList,
      t.source = t'.source → compare t t' = .lt → depthAfter t.target.chars = 0 := by decide
  exact ⟨hread, Automaton.parse_print_of_parse hread hplain hshut⟩

/-- A target with a colon that counts. -/
def pierced : Automaton where
  alphabet := .ofList [.ofChars ['a']]
  states := .ofList [.ofChars ['q'], .ofChars ['x', ':', 'y']]
  finals := .ofList [.ofChars ['q']]
  start := .ofChars ['q']
  transitions := .ofList [⟨.ofChars ['q'], .ofChars ['a'], .ofChars ['x', ':', 'y']⟩]
  valid := Automaton.Components.defect?_eq_none_iff.mp (by decide)

/-- The colon does not count behind the arrow, but cuts the line on which the state is written. -/
theorem pierced_parse_print : Automaton.parse ['-', '>', '*', ' ', 'q', ' ', ':', ' ', '"', 'a',
      '"', ' ', '-', '>', ' ', 'x', ':', 'y'] = .ok pierced ∧
    Automaton.parse pierced.print = .error (.atLine 2 (.unquotedSymbol ['y'])) := by
  decide

end FormalLanguage
