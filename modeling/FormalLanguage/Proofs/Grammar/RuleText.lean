import FormalLanguage.Proofs.Grammar.Reader

/-! What texts of rules are read as.

A text of rules is laid out as a head word, an arrow and alternatives with bars between
them, with any blanks around each of its tokens (`RuleText`). Any other text has a fault,
found from left to right (`Faulty`): no arrow, no head word before the first arrow, or an
alternative that stands for no body.

`parse_exact`: the texts that are read are those laid out in this way, as the rules they
are laid out for, and the others are refused for the fault they have. -/
namespace FormalLanguage
open Text

/-- What is read as a symbol is the symbol with any blanks around it. -/
theorem Symbol.padded_iff {x : Symbol} {s : List Char} : Padded x.chars s ↔ x = ofChars s := by
  rw [Text.padded_iff x.trimmed]
  constructor
  · intro h
    rw [← ofChars_trim, h, ofChars_chars]
  · rintro rfl
    rfl

theorem Symbol.forall₂_padded_iff {l : List Symbol} {pieces : List (List Char)} :
    List.Forall₂ (fun x piece => Padded x.chars piece) l pieces ↔ l = pieces.map ofChars := by
  simp only [padded_iff]
  rw [← List.forall₂_map_right_iff (R := Eq), List.forall₂_eq_eq_eq]

namespace Rule
variable {s : List Char} {fault : RuleFault}

/-! ### Layouts -/

/-- A word of letters, digits and underscores. -/
structure IsWord (word : List Char) : Prop where
  ne_nil : word ≠ []
  chars : ∀ c ∈ word, isAlphanumeric c = true ∨ c = '_'

/-- A text that stands for a body: `ε`, or symbols with commas between them. -/
inductive BodyText : List Symbol → List Char → Prop where
  | epsilon {s : List Char} (hs : Padded ['ε'] s) : BodyText [] s
  | symbols {body : List Symbol} {pieces : List (List Char)} (hne : body ≠ [])
      (hsymbols : ∀ x ∈ body, x ≠ .epsilon ∧ ',' ∉ x.chars ∧ '|' ∉ x.chars)
      (hlone : body ≠ [.ofChars ['ε']])
      (hpieces : List.Forall₂ (fun x piece => Padded x.chars piece) body pieces) :
      BodyText body (List.intercalate [','] pieces)

/-- A text that stands for rules with one head, in the order of their bodies. -/
inductive RuleText : List Rule → List Char → Prop where
  | intro {word before : List Char} {bodies : List (List Symbol)} {alternatives : List (List Char)}
      (hword : IsWord word) (hbefore : Padded word before) (hne : bodies ≠ [])
      (hbodies : List.Forall₂ BodyText bodies alternatives) :
      RuleText (bodies.map (⟨.ofChars word, ·⟩))
        (before ++ '-' :: '>' :: List.intercalate ['|'] alternatives)

/-- What is wrong with an alternative that stands for no body. -/
inductive FaultyBody : List Char → RuleFault → Prop where
  | blank {s : List Char} (hs : Blank s) : FaultyBody s .emptyAlternative
  | symbol {s : List Char} (hs : ¬ Blank s) (hbody : ∀ body, ¬ BodyText body s) :
      FaultyBody s .emptySymbol

/-- What is wrong first with a text that stands for no rules. -/
inductive Faulty : List Char → RuleFault → Prop where
  | arrow {s : List Char} (hs : ¬ HasArrow s) : Faulty s .missingArrow
  | head {before after : List Char} (hfirst : ¬ HasArrow before)
      (hbefore : ∀ word, IsWord word → ¬ Padded word before) :
      Faulty (before ++ '-' :: '>' :: after) .invalidHead
  | body {word before bad : List Char} {good rest : List (List Char)} {fault : RuleFault}
      (hword : IsWord word) (hbefore : Padded word before)
      (hbars : ∀ s ∈ good ++ bad :: rest, '|' ∉ s) (hgood : ∀ s ∈ good, ∃ body, BodyText body s)
      (hbad : FaultyBody bad fault) :
      Faulty (before ++ '-' :: '>' :: List.intercalate ['|'] (good ++ bad :: rest)) fault

/-! ### Heads -/

theorem isHead_iff_isWord : isHead s = true ↔ IsWord s := by
  rw [isHead_iff]
  exact ⟨fun h => ⟨h.1, h.2⟩, fun h => ⟨h.ne_nil, h.chars⟩⟩

namespace IsWord
variable {word before : List Char}

theorem trimmed (h : IsWord word) : Trimmed word := by
  refine trimmed_of_forall fun c hc => ?_
  rcases h.chars c hc with hc | rfl
  · exact isBlank_eq_false_of_isAlphanumeric hc
  · decide

theorem trim_eq (h : IsWord word) (hbefore : Padded word before) : trim before = word :=
  (padded_iff h.trimmed).mp hbefore

/-- Before an arrow stands no other one if a word does. -/
theorem not_hasArrow (h : IsWord word) (hbefore : Padded word before) : ¬ HasArrow before := by
  have hhyphen : '-' ∉ word := notMem_of_isHead (isHead_iff_isWord.mpr h) (by decide) (by decide)
  obtain ⟨hu, hv⟩ := hbefore
  exact not_hasArrow_of_notMem (notMem_between hu hhyphen hv (by decide))

end IsWord

theorem isHead_trim_iff : isHead (trim s) = true ↔ ∃ word, IsWord word ∧ Padded word s := by
  rw [isHead_iff_isWord]
  constructor
  · intro h
    exact ⟨trim s, h, (padded_iff h.trimmed).mpr rfl⟩
  · rintro ⟨word, hword, hs⟩
    rw [hword.trim_eq hs]
    exact hword

/-! ### Bodies -/

theorem padded_literal_iff : Padded ['ε'] s ↔ trim s = ['ε'] :=
  padded_iff (trimmed_of_forall (List.forall_mem_singleton.mpr (by decide)))

theorem BodyText.notMem {body : List Symbol} (h : BodyText body s) : '|' ∉ s := by
  cases h with
  | epsilon hs =>
    obtain ⟨hu, hv⟩ := hs
    exact notMem_between hu (by decide) hv (by decide)
  | @symbols _ pieces _ hsymbols _ hpieces =>
    obtain rfl := Symbol.forall₂_padded_iff.mp hpieces
    intro hbar
    rcases mem_intercalate hbar with hbar | ⟨piece, hpiece, hbar⟩
    · exact absurd hbar (by decide)
    · have hsymbol := hsymbols _ (List.mem_map_of_mem hpiece)
      exact hsymbol.2.2 (mem_trim hbar (by decide))

theorem BodyText.readBody_eq {body : List Symbol} (h : BodyText body s) :
    readBody s = .ok body := by
  cases h with
  | epsilon hs => exact readBody_eq_ok_iff.mpr (.inl ⟨padded_literal_iff.mp hs, rfl⟩)
  | @symbols _ pieces hne hsymbols hlone hpieces =>
    obtain rfl := Symbol.forall₂_padded_iff.mp hpieces
    have hcomma : ∀ piece ∈ pieces, ',' ∉ piece := fun piece hpiece hc => by
      have hsymbol := hsymbols _ (List.mem_map_of_mem hpiece)
      exact hsymbol.2.1 (mem_trim hc (by decide))
    exact readBody_intercalate (mt List.map_eq_nil_iff.mpr hne) hcomma
      (fun hempty => (hsymbols _ hempty).1 rfl) hlone

theorem bodyText_iff {body : List Symbol} : BodyText body s ↔ '|' ∉ s ∧ readBody s = .ok body := by
  constructor
  · exact fun h => ⟨h.notMem, h.readBody_eq⟩
  · rintro ⟨hbar, h⟩
    obtain ⟨hsymbols, hlone⟩ := of_readBody h
    obtain ⟨hliteral, rfl⟩ | ⟨rfl, _⟩ := readBody_eq_ok_iff.mp h
    · exact .epsilon (padded_literal_iff.mpr hliteral)
    · have hne : (s.splitOn ',').map Symbol.ofChars ≠ [] := by simp
      have hbody := BodyText.symbols hne (fun x hx => ?_) hlone (Symbol.forall₂_padded_iff.mpr rfl)
      · rwa [List.intercalate_splitOn] at hbody
      · obtain ⟨hempty, hcomma, hsub⟩ := hsymbols x hx
        exact ⟨hempty, hcomma, fun hc => hbar (hsub hc)⟩

theorem faultyBody_iff (hbar : '|' ∉ s) : FaultyBody s fault ↔ readBody s = .error fault := by
  constructor
  · rintro (hs | ⟨hs, hbody⟩)
    · exact readBody_of_blank hs
    · cases hread : readBody s with
      | ok body => exact absurd (bodyText_iff.mpr ⟨hbar, hread⟩) (hbody body)
      | error fault => rw [eq_emptySymbol_of_readBody hs hread]
  · intro h
    by_cases hs : Blank s
    · rw [readBody_of_blank hs] at h
      cases h
      exact .blank hs
    · obtain rfl := eq_emptySymbol_of_readBody hs h
      refine .symbol hs fun body hbody => ?_
      rw [hbody.readBody_eq] at h
      cases h

/-! ### Alternatives -/

section Alternatives
variable {after : List Char} {bodies : List (List Symbol)}

theorem forall₂_bodyText_iff {alternatives : List (List Char)} :
    List.Forall₂ BodyText bodies alternatives ↔
      (∀ s ∈ alternatives, '|' ∉ s) ∧ alternatives.mapM readBody = .ok bodies := by
  have hflip : List.Forall₂ BodyText bodies alternatives ↔
      List.Forall₂ (fun s body => BodyText body s) alternatives bodies := ⟨.flip, .flip⟩
  rw [hflip, mapM_eq_ok_iff, ← List.forall₂_and_left]
  simp only [bodyText_iff]

theorem mapM_readBody_eq_ok_iff : (after.splitOn '|').mapM readBody = .ok bodies ↔
    bodies ≠ [] ∧ ∃ alternatives, List.Forall₂ BodyText bodies alternatives ∧
      after = List.intercalate ['|'] alternatives := by
  constructor
  · intro h
    obtain ⟨hne, hbars, hafter⟩ := splitOn_eq_iff.mp (rfl : after.splitOn '|' = _)
    have hbodies := forall₂_bodyText_iff.mpr ⟨hbars, h⟩
    refine ⟨?_, _, hbodies, hafter⟩
    rintro rfl
    exact hne (List.forall₂_nil_left_iff.mp hbodies)
  · rintro ⟨hne, alternatives, hbodies, hafter⟩
    obtain ⟨hbars, hread⟩ := forall₂_bodyText_iff.mp hbodies
    have hne' : alternatives ≠ [] := by
      rintro rfl
      exact hne (List.forall₂_nil_right_iff.mp hbodies)
    rw [splitOn_eq_iff.mpr ⟨hne', hbars, hafter⟩, hread]

theorem mapM_readBody_eq_error_iff : (after.splitOn '|').mapM readBody = .error fault ↔
    ∃ good bad rest, (∀ s ∈ good ++ bad :: rest, '|' ∉ s) ∧
      (∀ s ∈ good, ∃ body, BodyText body s) ∧ FaultyBody bad fault ∧
      after = List.intercalate ['|'] (good ++ bad :: rest) := by
  rw [mapM_eq_error_iff]
  refine exists_congr fun good => exists_congr fun bad => exists_congr fun rest => ?_
  rw [splitOn_eq_iff]
  constructor
  · rintro ⟨⟨_, hbars, hafter⟩, hgood, hbad⟩
    refine ⟨hbars, fun s hs => ?_, (faultyBody_iff (hbars bad (by simp))).mpr hbad, hafter⟩
    obtain ⟨body, hbody⟩ := hgood s hs
    exact ⟨body, bodyText_iff.mpr ⟨hbars s (by simp [hs]), hbody⟩⟩
  · rintro ⟨hbars, hgood, hbad, hafter⟩
    refine ⟨⟨by simp, hbars, hafter⟩, fun s hs => ?_,
      (faultyBody_iff (hbars bad (by simp))).mp hbad⟩
    obtain ⟨body, hbody⟩ := hgood s hs
    exact ⟨body, hbody.readBody_eq⟩

end Alternatives

/-! ### Rules -/

theorem ruleText_iff {rules : List Rule} : RuleText rules s ↔ readTrimmed s = .ok rules := by
  rw [readTrimmed_eq_ok_iff]
  constructor
  · rintro ⟨hword, hbefore, hne, hbodies⟩
    have hhead := isHead_trim_iff.mpr ⟨_, hword, hbefore⟩
    refine ⟨_, _, _, cutAtArrow?_append (hword.not_hasArrow hbefore) _, hhead,
      mapM_readBody_eq_ok_iff.mpr ⟨hne, _, hbodies, rfl⟩, ?_⟩
    rw [← hword.trim_eq hbefore, Symbol.ofChars_trim]
  · rintro ⟨before, after, bodies, hcut, hhead, hread, rfl⟩
    obtain ⟨rfl, _⟩ := cutAtArrow?_eq_some_iff.mp hcut
    obtain ⟨word, hword, hbefore⟩ := isHead_trim_iff.mp hhead
    obtain ⟨hne, alternatives, hbodies, rfl⟩ := mapM_readBody_eq_ok_iff.mp hread
    rw [← Symbol.ofChars_trim, hword.trim_eq hbefore]
    exact .intro hword hbefore hne hbodies

theorem faulty_iff : Faulty s fault ↔ readTrimmed s = .error fault := by
  rw [readTrimmed_eq_error_iff]
  constructor
  · rintro (hs | ⟨hfirst, hbefore⟩ | ⟨hword, hbefore, hbars, hgood, hbad⟩)
    · exact .inl ⟨cutAtArrow?_eq_none_iff.mpr hs, rfl⟩
    · refine .inr ⟨_, _, cutAtArrow?_append hfirst _, .inl ⟨?_, rfl⟩⟩
      rw [← Bool.not_eq_true, isHead_trim_iff]
      rintro ⟨word, hword, hs⟩
      exact hbefore word hword hs
    · have hhead := isHead_trim_iff.mpr ⟨_, hword, hbefore⟩
      exact .inr ⟨_, _, cutAtArrow?_append (hword.not_hasArrow hbefore) _, .inr ⟨hhead,
        mapM_readBody_eq_error_iff.mpr ⟨_, _, _, hbars, hgood, hbad, rfl⟩⟩⟩
  · rintro (⟨hs, rfl⟩ | ⟨before, after, hcut, h⟩)
    · exact .arrow (cutAtArrow?_eq_none_iff.mp hs)
    obtain ⟨rfl, hfirst⟩ := cutAtArrow?_eq_some_iff.mp hcut
    obtain ⟨hhead, rfl⟩ | ⟨hhead, hread⟩ := h
    · refine .head hfirst fun word hword hbefore => ?_
      rw [isHead_trim_iff.mpr ⟨word, hword, hbefore⟩] at hhead
      cases hhead
    · obtain ⟨word, hword, hbefore⟩ := isHead_trim_iff.mp hhead
      obtain ⟨good, bad, rest, hbars, hgood, hbad, rfl⟩ := mapM_readBody_eq_error_iff.mp hread
      exact .body hword hbefore hbars hgood hbad

/-- A text is read if it is laid out as rules, and as the rules that it is laid out for. Any other
text is refused, trimmed, for what is wrong with it first. -/
theorem parse_exact (s : List Char) :
    (∀ rules, parse s = .ok rules ↔ RuleText rules s) ∧
      ∀ e, parse s = .error e ↔ ∃ fault, Faulty s fault ∧ e = .unreadableRule (trim s) fault := by
  constructor
  · intro rules
    rw [ruleText_iff, parse, mapError_eq_ok_iff, readTrimmed_trim]
  · intro e
    rw [parse, mapError_eq_error_iff, readTrimmed_trim]
    refine exists_congr fun fault => ?_
    rw [faulty_iff, eq_comm (a := e)]

end Rule
end FormalLanguage
