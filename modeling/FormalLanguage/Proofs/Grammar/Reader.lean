import FormalLanguage.Grammar.Reader
import FormalLanguage.Proofs.Failure
import FormalLanguage.Proofs.Text

/-! What rules and lists of symbols are read from.

Blanks around a text and around its separators make no difference (`readTrimmed_trim`,
`mapM_readBody_congr`). A symbol that was read stood between separators, so it
contains none of them. For rules this is `Rule.Recoverable`, which holds of every
rule that was read (`recoverable_of_parse`) and is what a rule needs for its body to
be read again. -/
namespace FormalLanguage
open Text

variable {x : Symbol} {s : List Char}

/-! ### Symbols -/

theorem Symbol.ofChars_trim (s : List Char) : ofChars (trim s) = ofChars s :=
  toLabel_injective (Label.chars_injective (trim_eq_self (trimmed_trim s)))

theorem Symbol.ne_epsilon_iff : x ≠ .epsilon ↔ x.chars ≠ [] := by
  rw [Ne, ← isEpsilon_iff, isEpsilon, List.isEmpty_iff]

theorem Symbol.exists_last (hx : x ≠ .epsilon) : ∃ c ∈ x.chars.getLast?, isBlank c = false := by
  have hne := ne_epsilon_iff.mp hx
  have hlast : x.chars.getLast hne ∈ x.chars.getLast? := List.getLast?_eq_some_getLast hne
  exact ⟨_, hlast, x.trimmed.last _ hlast⟩

theorem Symbol.any_isEpsilon_iff {l : List Symbol} :
    l.any (·.isEpsilon) = true ↔ .epsilon ∈ l := by
  simp only [List.any_eq_true, isEpsilon_iff, exists_eq_right]

/-- The symbols of two lists of texts that differ in blanks at the ends of the texts. -/
theorem Symbol.map_ofChars_congr {l m : List (List Char)} (h : l.map trim = m.map trim) :
    l.map ofChars = m.map ofChars := by
  have htrim : ∀ l : List (List Char), l.map ofChars = (l.map trim).map ofChars := fun l => by
    simp [Function.comp_def, ofChars_trim]
  rw [htrim l, htrim m, h]

theorem Symbol.map_ofChars_chars (l : List Symbol) :
    (l.map fun x => x.chars).map ofChars = l := by
  simp [Function.comp_def, ofChars_chars]

namespace Rule

/-! ### Arrows -/

/-- Somewhere in `s` stands an arrow. -/
def HasArrow (s : List Char) : Prop := ['-', '>'] <:+: s

theorem hasArrow_cons {c : Char} :
    HasArrow (c :: s) ↔ (c = '-' ∧ s.head? = some '>') ∨ HasArrow s := by
  have hhead : ['>'] <+: s ↔ s.head? = some '>' := by
    cases s <;> simp [List.cons_prefix_cons, eq_comm]
  rw [HasArrow, List.infix_cons_iff, List.cons_prefix_cons, hhead, eq_comm]
  rfl

theorem not_hasArrow_of_notMem (hs : '-' ∉ s) : ¬ HasArrow s :=
  fun h => hs (h.subset (List.mem_cons_self ..))

theorem hasArrow_append_left {u : List Char} (hu : '-' ∉ u) : HasArrow (u ++ s) ↔ HasArrow s := by
  induction u with
  | nil => rfl
  | cons c u ih =>
    obtain ⟨hc, hu⟩ := not_or.mp (mt List.mem_cons.mpr hu)
    rw [List.cons_append, hasArrow_cons, ih hu]
    simp [Ne.symm hc]

theorem hasArrow_append_right {v : List Char} (hv : '>' ∉ v) : HasArrow (s ++ v) ↔ HasArrow s := by
  induction s with
  | nil =>
    refine iff_of_false (fun h => hv (h.subset (by simp))) (by simp [HasArrow])
  | cons c s ih =>
    rw [List.cons_append, hasArrow_cons, hasArrow_cons, ih]
    cases s with
    | nil =>
      have hhead : v.head? ≠ some '>' := fun h => hv (List.mem_of_head? h)
      simp [hhead]
    | cons d s => rfl

/-- Blanks around a text neither make an arrow nor take one away. -/
theorem hasArrow_padded {u v : List Char} (hu : Blank u) (hv : Blank v) :
    HasArrow (u ++ s ++ v) ↔ HasArrow s := by
  rw [hasArrow_append_right (hv.notMem (by decide)), hasArrow_append_left (hu.notMem (by decide))]

theorem cutAtArrow?_eq_none_iff : cutAtArrow? s = none ↔ ¬ HasArrow s := by
  fun_induction cutAtArrow? s with
  | case1 => simp [HasArrow]
  | case2 rest => simp [hasArrow_cons]
  | case3 c rest harrow ih =>
    have hfirst : ¬ (c = '-' ∧ rest.head? = some '>') := by
      rintro ⟨hc, hrest⟩
      obtain ⟨rest', rfl⟩ := List.head?_eq_some_iff.mp hrest
      exact harrow rest' hc rfl
    simp [hasArrow_cons, hfirst, ih]

/-- An arrow is found behind a text without one. -/
theorem cutAtArrow?_append (hs : ¬ HasArrow s) (rest : List Char) :
    cutAtArrow? (s ++ '-' :: '>' :: rest) = some (s, rest) := by
  induction s with
  | nil => rfl
  | cons c s ih =>
    obtain ⟨hfirst, hs⟩ := not_or.mp (mt hasArrow_cons.mpr hs)
    have harrow : ∀ after, c = '-' → s ++ '-' :: '>' :: rest = '>' :: after → False := by
      intro after hc hs
      cases s with
      | nil => simp at hs
      | cons d s => exact hfirst ⟨hc, congrArg some (List.cons.inj hs).1⟩
    rw [List.cons_append, cutAtArrow?.eq_3 _ _ harrow, ih hs]
    rfl

theorem cutAtArrow?_eq_some_iff {before after : List Char} : cutAtArrow? s = some (before, after) ↔
    s = before ++ '-' :: '>' :: after ∧ ¬ HasArrow before := by
  constructor
  · intro h
    fun_induction cutAtArrow? s generalizing before with
    | case1 => cases h
    | case2 rest =>
      obtain ⟨rfl, rfl⟩ := Prod.mk.inj (Option.some.inj h)
      exact ⟨rfl, by simp [HasArrow]⟩
    | case3 c rest harrow ih =>
      obtain ⟨⟨before', after'⟩, hcut, hparts⟩ := Option.map_eq_some_iff.mp h
      obtain ⟨rfl, rfl⟩ := Prod.mk.inj hparts
      obtain ⟨rfl, hbefore⟩ := ih hcut
      refine ⟨rfl, fun h => ?_⟩
      rcases hasArrow_cons.mp h with ⟨hc, hhead⟩ | h
      · obtain ⟨before', rfl⟩ := List.head?_eq_some_iff.mp hhead
        exact harrow _ hc rfl
      · exact hbefore h
  · rintro ⟨rfl, hbefore⟩
    exact cutAtArrow?_append hbefore after

/-- Blanks around a text stay on the side of the arrow on which they are. -/
theorem cutAtArrow?_padded {u v : List Char} (hu : Blank u) (hv : Blank v) (s : List Char) :
    cutAtArrow? (u ++ s ++ v) =
      (cutAtArrow? s).map fun (before, after) => (u ++ before, after ++ v) := by
  cases hcut : cutAtArrow? s with
  | none =>
    rw [cutAtArrow?_eq_none_iff] at hcut
    exact cutAtArrow?_eq_none_iff.mpr (mt (hasArrow_padded hu hv).mp hcut)
  | some parts =>
    obtain ⟨before, after⟩ := parts
    obtain ⟨rfl, hbefore⟩ := cutAtArrow?_eq_some_iff.mp hcut
    have hfirst : ¬ HasArrow (u ++ before) :=
      mt (hasArrow_append_left (hu.notMem (by decide))).mp hbefore
    have h := cutAtArrow?_append hfirst (after ++ v)
    simpa using h

/-! ### Heads -/

theorem isHead_iff :
    isHead s = true ↔ s ≠ [] ∧ ∀ c ∈ s, isAlphanumeric c = true ∨ c = '_' := by
  simp [isHead]

theorem notMem_of_isHead {c : Char} (hs : isHead s = true) (hc : isAlphanumeric c = false)
    (hne : c ≠ '_') : c ∉ s := by
  intro hmem
  have hword := (isHead_iff.mp hs).2 c hmem
  simp [hc, hne] at hword

/-! ### Bodies -/

theorem map_ofChars_splitOn_trim (s : List Char) :
    ((trim s).splitOn ',').map Symbol.ofChars = (s.splitOn ',').map .ofChars := by
  obtain ⟨u, v, hu, hv, hs⟩ := exists_trim s
  conv_rhs => rw [hs]
  exact (Symbol.map_ofChars_congr (map_trim_splitOn_padded hu hv (by decide) _)).symm

theorem readBody_eq (s : List Char) : readBody s =
    if Blank s then .error .emptyAlternative
    else if trim s = ['ε'] then .ok []
    else if .epsilon ∈ (s.splitOn ',').map Symbol.ofChars then .error .emptySymbol
    else .ok ((s.splitOn ',').map .ofChars) := by
  simp only [readBody, List.isEmpty_iff, trim_eq_nil_iff, map_ofChars_splitOn_trim,
    Symbol.any_isEpsilon_iff]

theorem readBody_of_blank (hs : Blank s) : readBody s = .error .emptyAlternative := by
  rw [readBody_eq, if_pos hs]

theorem eq_emptySymbol_of_readBody {fault : RuleFault} (hs : ¬ Blank s)
    (h : readBody s = .error fault) : fault = .emptySymbol := by
  rw [readBody_eq, if_neg hs] at h
  split at h
  · cases h
  · split at h
    · exact (Except.error.inj h).symm
    · cases h

/-- The literal `ε` is what would be read as the one symbol `ε`. -/
theorem trim_eq_literal_iff :
    trim s = ['ε'] ↔ (s.splitOn ',').map Symbol.ofChars = [.ofChars ['ε']] := by
  constructor
  · intro h
    rw [← map_ofChars_splitOn_trim, h]
    rfl
  · intro h
    obtain ⟨piece, hpieces, hpiece⟩ := List.map_eq_singleton_iff.mp h
    have hjoin : List.intercalate [','] (s.splitOn ',') = s := List.intercalate_splitOn ','
    rw [hpieces, List.intercalate_singleton] at hjoin
    rw [← hjoin]
    exact congrArg (·.chars) hpiece

/-- Nothing between no commas is one empty symbol. -/
theorem epsilon_mem_of_blank (hs : Blank s) : .epsilon ∈ (s.splitOn ',').map Symbol.ofChars := by
  rw [← map_ofChars_splitOn_trim, trim_eq_nil_iff.mpr hs]
  exact List.mem_singleton.mpr rfl

/-- An alternative is the literal `ε`, or symbols between commas: none of them is empty, and `ε`
is not alone. -/
theorem readBody_eq_ok_iff {body : List Symbol} : readBody s = .ok body ↔
    trim s = ['ε'] ∧ body = [] ∨
      body = (s.splitOn ',').map .ofChars ∧ .epsilon ∉ body ∧ body ≠ [.ofChars ['ε']] := by
  constructor
  · intro h
    rw [readBody_eq] at h
    split at h
    · cases h
    · split at h
      · next hliteral => exact .inl ⟨hliteral, (Except.ok.inj h).symm⟩
      · next hliteral =>
        split at h
        · cases h
        · next hsymbols =>
          obtain rfl := Except.ok.inj h
          exact .inr ⟨rfl, hsymbols, mt trim_eq_literal_iff.mpr hliteral⟩
  · rintro (⟨hliteral, rfl⟩ | ⟨rfl, hsymbols, hlone⟩)
    · have hblank : ¬ Blank s := mt trim_eq_nil_iff.mpr (by simp [hliteral])
      rw [readBody_eq, if_neg hblank, if_pos hliteral]
    · have hblank : ¬ Blank s := mt epsilon_mem_of_blank hsymbols
      have hliteral := mt trim_eq_literal_iff.mp hlone
      rw [readBody_eq, if_neg hblank, if_neg hliteral, if_neg hsymbols]

theorem readBody_trim (s : List Char) : readBody (trim s) = readBody s := by
  rw [readBody, readBody, trim_eq_self (trimmed_trim s)]

/-- Blanks at the ends of the alternatives make no difference to what they are read as. -/
theorem mapM_readBody_congr {l m : List (List Char)} (h : l.map trim = m.map trim) :
    l.mapM readBody = m.mapM readBody := by
  have htrim (l : List (List Char)) : l.mapM readBody = (l.map trim).mapM readBody := by
    simp [List.mapM_map, Function.comp_def, readBody_trim]
  rw [htrim l, htrim m, h]

/-- The symbols of a body have their characters from the alternative, commas apart. Alone, `ε` is
no symbol. -/
theorem of_readBody {body : List Symbol} (h : readBody s = .ok body) :
    (∀ x ∈ body, x ≠ .epsilon ∧ ',' ∉ x.chars ∧ x.chars ⊆ s) ∧ body ≠ [.ofChars ['ε']] := by
  obtain ⟨_, rfl⟩ | ⟨rfl, hsymbols, hlone⟩ := readBody_eq_ok_iff.mp h
  · exact ⟨nofun, nofun⟩
  refine ⟨fun x hx => ⟨fun hempty => hsymbols (hempty ▸ hx), ?_⟩, hlone⟩
  obtain ⟨piece, hpiece, rfl⟩ := List.mem_map.mp hx
  obtain ⟨hcomma, hsub⟩ := of_mem_splitOn hpiece
  have htrim := (trim_isInfix piece).subset
  exact ⟨fun hc => hcomma (htrim hc), fun c hc => hsub (htrim hc)⟩

/-- Symbols with commas between them are read back, and `ε` as well unless it is alone. -/
theorem readBody_intercalate {pieces : List (List Char)} (hne : pieces ≠ [])
    (hcomma : ∀ piece ∈ pieces, ',' ∉ piece) (hsymbols : .epsilon ∉ pieces.map Symbol.ofChars)
    (hlone : pieces.map Symbol.ofChars ≠ [.ofChars ['ε']]) :
    readBody (List.intercalate [','] pieces) = .ok (pieces.map .ofChars) := by
  refine readBody_eq_ok_iff.mpr (.inr ?_)
  rw [List.splitOn_intercalate ',' hcomma hne]
  exact ⟨rfl, hsymbols, hlone⟩

/-! ### Rules -/

/-- What a rule owes to be found again between the separators of a text. -/
structure Recoverable (r : Rule) : Prop where
  head : isHead r.head.chars = true
  symbols : ∀ x ∈ r.body, x ≠ .epsilon ∧ ',' ∉ x.chars ∧ '|' ∉ x.chars
  /-- Alone, `ε` stands for no symbol. -/
  lone : r.body ≠ [.ofChars ['ε']]

/-- Blanks around a text make no difference to what it is read as. -/
theorem readTrimmed_trim (s : List Char) : readTrimmed (trim s) = readTrimmed s := by
  obtain ⟨u, v, hu, hv, hs⟩ := exists_trim s
  have hcut : cutAtArrow? s =
      (cutAtArrow? (trim s)).map fun (before, after) => (u ++ before, after ++ v) := by
    conv_lhs => rw [hs]
    exact cutAtArrow?_padded hu hv _
  rw [readTrimmed, readTrimmed, hcut]
  cases cutAtArrow? (trim s) with
  | none => rfl
  | some parts =>
    obtain ⟨before, after⟩ := parts
    have hbefore : trim (u ++ before) = trim before := by
      simpa using trim_padded (s := before) hu .nil
    have hafter : ((after ++ v).splitOn '|').mapM readBody = (after.splitOn '|').mapM readBody :=
      mapM_readBody_congr (map_trim_splitOn_padded .nil hv (by decide) after)
    simp only [Option.map_some, hbefore, hafter]

theorem readTrimmed_eq_ok_iff {rules : List Rule} : readTrimmed s = .ok rules ↔
    ∃ before after bodies, cutAtArrow? s = some (before, after) ∧
      isHead (trim before) = true ∧ (after.splitOn '|').mapM readBody = .ok bodies ∧
      rules = bodies.map (⟨.ofChars before, ·⟩) := by
  rw [readTrimmed]
  cases hcut : cutAtArrow? s with
  | none => simp
  | some parts =>
    obtain ⟨before, after⟩ := parts
    cases hhead : isHead (trim before) <;>
      simp [hhead, bind_eq_ok_iff, Symbol.ofChars_trim, pure, Except.pure, @eq_comm _ rules]

theorem readTrimmed_eq_error_iff {fault : RuleFault} : readTrimmed s = .error fault ↔
    cutAtArrow? s = none ∧ fault = .missingArrow ∨
      ∃ before after, cutAtArrow? s = some (before, after) ∧
        (isHead (trim before) = false ∧ fault = .invalidHead ∨
          isHead (trim before) = true ∧ (after.splitOn '|').mapM readBody = .error fault) := by
  rw [readTrimmed]
  cases hcut : cutAtArrow? s with
  | none => simp [@eq_comm _ fault]
  | some parts =>
    obtain ⟨before, after⟩ := parts
    cases hhead : isHead (trim before) <;>
      simp [hhead, bind_eq_error_iff, pure, Except.pure, @eq_comm _ fault]

theorem parse_eq_ok_iff {rules : List Rule} : parse s = .ok rules ↔
    ∃ before after bodies, cutAtArrow? s = some (before, after) ∧
      isHead (trim before) = true ∧ (after.splitOn '|').mapM readBody = .ok bodies ∧
      rules = bodies.map (⟨.ofChars before, ·⟩) := by
  rw [parse, mapError_eq_ok_iff, readTrimmed_trim, readTrimmed_eq_ok_iff]

theorem recoverable_of_parse {rules : List Rule} (h : parse s = .ok rules) {r : Rule}
    (hr : r ∈ rules) : r.Recoverable := by
  obtain ⟨before, after, bodies, _, hhead, hbodies, rfl⟩ := parse_eq_ok_iff.mp h
  obtain ⟨body, hbody, rfl⟩ := List.mem_map.mp hr
  obtain ⟨piece, hpiece, hread⟩ := exists_mem_of_mapM hbodies hbody
  obtain ⟨hsymbols, hlone⟩ := of_readBody hread
  refine ⟨hhead, fun x hx => ?_, hlone⟩
  obtain ⟨hne, hcomma, hsub⟩ := hsymbols x hx
  exact ⟨hne, hcomma, fun hbar => (of_mem_splitOn hpiece).1 (hsub hbar)⟩

end Rule

namespace Grammar

/-! ### Lists of symbols -/

theorem of_mem_readSymbols (h : x ∈ readSymbols s) : x ≠ .epsilon ∧ ',' ∉ x.chars := by
  obtain ⟨hx, hne⟩ := List.mem_filter.mp h
  obtain ⟨piece, hpiece, rfl⟩ := List.mem_map.mp hx
  refine ⟨fun hempty => ?_, fun hc => (of_mem_splitOn hpiece).1 ((trim_isInfix piece).subset hc)⟩
  rw [hempty] at hne
  cases hne

/-- Symbols with commas and blanks between them are read back. -/
theorem readSymbols_intercalate {l : List Symbol}
    (hl : ∀ x ∈ l, x ≠ .epsilon ∧ ',' ∉ x.chars) :
    readSymbols (List.intercalate [',', ' '] (l.map (·.chars))) = l := by
  by_cases hnil : l = []
  · rw [hnil]
    rfl
  have hcomma : ∀ s ∈ l.map (·.chars), ',' ∉ s := fun s hs => by
    obtain ⟨x, hx, rfl⟩ := List.mem_map.mp hs
    exact (hl x hx).2
  have hspace : Blank [' '] := by decide
  have hfound := map_trim_splitOn .nil hspace .nil .nil rfl hcomma (mt List.map_eq_nil_iff.mp hnil)
  have hpieces : ((List.intercalate [',', ' '] (l.map (·.chars))).splitOn ',').map Symbol.ofChars =
      (l.map (·.chars)).map .ofChars :=
    Symbol.map_ofChars_congr (by simpa using hfound)
  rw [readSymbols, hpieces, Symbol.map_ofChars_chars, List.filter_eq_self]
  intro x hx
  simpa [← Symbol.isEpsilon_iff] using (hl x hx).1

/-! ### Grammars -/

theorem parse_eq_ok_iff {nonTerminals terminals start : List Char} {rules : List (List Char)}
    {g : Grammar} : parse nonTerminals terminals rules start = .ok g ↔
      ∃ read, rules.mapM Rule.parse = .ok read ∧ g.toComponents =
        ⟨.ofList (readSymbols nonTerminals), .ofList (readSymbols terminals), .ofList read.flatten,
          .ofChars start⟩ := by
  rw [parse, bind_eq_ok_iff]
  refine exists_congr fun read => and_congr_right fun _ => ?_
  rw [ofLists]
  constructor
  · exact toComponents_of_validate
  · intro h
    rw [← h]
    exact validate_eq_ok g.valid

end Grammar
end FormalLanguage
