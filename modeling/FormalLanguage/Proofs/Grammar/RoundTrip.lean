import FormalLanguage.Grammar.Writer
import FormalLanguage.Proofs.Grammar.Reader
import FormalLanguage.Proofs.SortedSet
import Mathlib.Data.List.Forall2

/-! Reading back the text of a grammar.

Not every grammar is rebuilt from its text: a symbol may contain a bar, and the one
symbol `ε` looks like the empty body. A grammar that was itself read has no such
rules (`recoverable_of_parse`), so only line feeds are left to exclude
(`rebuilt_from_print`). -/
namespace FormalLanguage
open Text

/-! ### Written bodies -/

namespace Rule.Recoverable
variable {r : Rule}

theorem readBody_writeBody (h : r.Recoverable) : readBody r.writeBody = .ok r.body := by
  rw [writeBody, isEpsilon]
  split
  · next hnil =>
    rw [List.isEmpty_iff.mp hnil]
    rfl
  · next hne =>
    have hcomma : ∀ s ∈ r.body.map (·.chars), ',' ∉ s := fun s hs => by
      obtain ⟨x, hx, rfl⟩ := List.mem_map.mp hs
      exact (h.symbols x hx).2.1
    have hread := readBody_intercalate (by simpa using hne) hcomma
    rw [Symbol.map_ofChars_chars] at hread
    exact hread (fun hempty => (h.symbols _ hempty).1 rfl) h.lone

theorem notMem_writeBody {c : Char} (hc : c ≠ 'ε' ∧ c ≠ ',')
    (hsymbols : ∀ x ∈ r.body, c ∉ x.chars) : c ∉ r.writeBody := by
  rw [writeBody]
  split
  · simpa using hc.1
  · intro hmem
    rcases mem_intercalate hmem with hmem | ⟨s, hs, hmem⟩
    · exact hc.2 (List.mem_singleton.mp hmem)
    · obtain ⟨x, hx, rfl⟩ := List.mem_map.mp hs
      exact hsymbols x hx hmem

theorem exists_last_writeBody (h : r.Recoverable) :
    ∃ c ∈ r.writeBody.getLast?, isBlank c = false := by
  rw [writeBody, isEpsilon]
  split
  · exact ⟨'ε', rfl, by decide⟩
  · next hne =>
    refine exists_last_intercalate ?_ (fun s hs => ?_) _
    · simpa using hne
    · obtain ⟨x, hx, rfl⟩ := List.mem_map.mp hs
      exact Symbol.exists_last (h.symbols x hx).1

end Rule.Recoverable

/-- Written bodies with bars between them are read back. -/
theorem Rule.mapM_readBody_intercalate {rules : List Rule} (hne : rules ≠ [])
    (hrules : ∀ r ∈ rules, r.Recoverable) :
    ((' ' :: List.intercalate [' ', '|', ' '] (rules.map (·.writeBody))).splitOn '|').mapM
      readBody = .ok (rules.map (·.body)) := by
  have hspace : Blank [' '] := by decide
  have hbar : ∀ s ∈ rules.map (·.writeBody), '|' ∉ s := fun s hs => by
    obtain ⟨r, hr, rfl⟩ := List.mem_map.mp hs
    exact Recoverable.notMem_writeBody (by decide) fun x hx => ((hrules r hr).symbols x hx).2.2
  have hread := mapM_readBody_congr (map_trim_splitOn hspace hspace hspace .nil (by decide) hbar
    (mt List.map_eq_nil_iff.mp hne))
  rw [List.append_nil] at hread
  refine hread.trans ?_
  rw [List.mapM_map]
  exact mapM_eq_ok fun r hr => (hrules r hr).readBody_writeBody

/-! ### Written lines -/

namespace Grammar
variable {g : Grammar} {x : Symbol}

/-- What a grammar owes to be rebuilt from its text and its symbols. -/
structure Recoverable (g : Grammar) : Prop where
  rules : ∀ r ∈ g.rules, r.Recoverable
  oneLine : ∀ r ∈ g.rules, ∀ x ∈ r.body, '\n' ∉ x.chars
  nonTerminals : ∀ x ∈ g.nonTerminals, x ≠ .epsilon ∧ ',' ∉ x.chars
  terminals : ∀ x ∈ g.terminals, x ≠ .epsilon ∧ ',' ∉ x.chars

theorem mem_rulesFor {r : Rule} : r ∈ g.rulesFor x ↔ r ∈ g.rules ∧ r.head = x := by
  simp [rulesFor]

theorem mem_heads : x ∈ g.heads ↔ ∃ r ∈ g.rules, r.head = x := by
  by_cases hx : x = g.start <;> simp [heads, SortedSet.mem_toList, hx]

theorem rulesFor_ne_nil (hx : x ∈ g.heads) : (g.rulesFor x).toList ≠ [] := by
  obtain ⟨r, hr, hhead⟩ := mem_heads.mp hx
  exact List.ne_nil_of_mem (SortedSet.mem_toList.mpr (mem_rulesFor.mpr ⟨hr, hhead⟩))

/-- Every rule is one of those for its head. -/
theorem ofList_flatten_rulesFor (g : Grammar) :
    SortedSet.ofList (g.heads.map fun x => (g.rulesFor x).toList).flatten = g.rules := by
  refine SortedSet.ext fun r => ?_
  have hlisted : r ∈ (g.heads.map fun x => (g.rulesFor x).toList).flatten ↔
      ∃ x, (∃ r' ∈ g.rules, r'.head = x) ∧ r ∈ g.rules ∧ r.head = x := by
    simp [SortedSet.mem_toList, mem_heads, mem_rulesFor]
  rw [SortedSet.mem_ofList, hlisted]
  constructor
  · rintro ⟨x, _, hr, _⟩
    exact hr
  · intro hr
    exact ⟨r.head, ⟨r, hr, rfl⟩, hr, rfl⟩

/-- The rules for a symbol are told apart by their bodies. -/
theorem map_body_rulesFor (g : Grammar) (x : Symbol) :
    ((g.rulesFor x).toList.map (·.body)).map (Rule.mk x) = (g.rulesFor x).toList := by
  rw [List.map_map]
  refine (List.map_congr_left fun r hr => ?_).trans (List.map_id _)
  obtain ⟨_, rfl⟩ := mem_rulesFor.mp hr
  rfl

/-- The start symbol comes first if it has rules, the other heads follow in increasing order. -/
theorem exists_heads_eq (g : Grammar) : ∃ others : List Symbol,
    g.heads = (if (g.rulesFor g.start).isEmpty then [] else [g.start]) ++ others ∧
      Increasing others ∧ ∀ x, x ∈ others ↔ x ≠ g.start ∧ ∃ r ∈ g.rules, r.head = x := by
  let others := (g.rules.image (·.head)).filter (· ≠ g.start)
  refine ⟨others.toList, ?_, others.increasing, fun x => ?_⟩
  · have hfirst : (g.rules.image (·.head)).filter (· = g.start) =
        if (g.rulesFor g.start).isEmpty then ∅ else {g.start} := by
      cases hsome : (g.rulesFor g.start).isEmpty with
      | true =>
        refine SortedSet.ext fun x => ?_
        have hnone : ∀ r ∈ g.rules, r.head ≠ g.start := fun r hr hhead =>
          SortedSet.isEmpty_iff.mp hsome r (mem_rulesFor.mpr ⟨hr, hhead⟩)
        simpa using fun r hr hx => hx ▸ hnone r hr
      | false =>
        refine SortedSet.ext fun x => ?_
        obtain ⟨r, hr⟩ := SortedSet.isEmpty_eq_false_iff.mp hsome
        obtain ⟨hr, hhead⟩ := mem_rulesFor.mp hr
        simpa using fun hx => ⟨r, hr, hhead.trans hx.symm⟩
    rw [heads, hfirst]
    split <;> rfl
  · simp [others, SortedSet.mem_toList, and_comm]

/-- The line for `x` begins with `x` and an arrow and stands for the rules for `x`. -/
def LineFor (g : Grammar) (x : Symbol) (line : List Char) : Prop :=
  x.chars ++ [' ', '-', '>', ' '] <+: line ∧ Rule.parse line = .ok (g.rulesFor x).toList

namespace Recoverable

theorem isHead (h : g.Recoverable) (hx : x ∈ g.heads) : Rule.isHead x.chars = true := by
  obtain ⟨r, hr, rfl⟩ := mem_heads.mp hx
  exact (h.rules r hr).head

theorem exists_last_writeRules (h : g.Recoverable) (hx : x ∈ g.heads) :
    ∃ c ∈ (g.writeRules x).getLast?, isBlank c = false := by
  refine exists_last_append (exists_last_intercalate ?_ (fun s hs => ?_) _) _
  · exact mt List.map_eq_nil_iff.mp (rulesFor_ne_nil hx)
  · obtain ⟨r, hr, rfl⟩ := List.mem_map.mp hs
    exact (h.rules r (mem_rulesFor.mp hr).1).exists_last_writeBody

theorem oneLine_writeRules (h : g.Recoverable) (hx : x ∈ g.heads) : '\n' ∉ g.writeRules x := by
  simp only [writeRules, List.mem_append, not_or]
  refine ⟨⟨Rule.notMem_of_isHead (h.isHead hx) (by decide) (by decide), by decide⟩, fun hc => ?_⟩
  rcases mem_intercalate hc with hc | ⟨s, hs, hc⟩
  · exact absurd hc (by decide)
  · obtain ⟨r, hr, rfl⟩ := List.mem_map.mp hs
    exact Rule.Recoverable.notMem_writeBody (by decide) (h.oneLine r (mem_rulesFor.mp hr).1) hc

/-- A line is read as the rules it was written for, in their order. -/
theorem parse_writeRules (h : g.Recoverable) (hx : x ∈ g.heads) :
    Rule.parse (g.writeRules x) = .ok (g.rulesFor x).toList := by
  have hhead := h.isHead hx
  -- The head has no hyphen, so the first arrow is the one written behind it.
  have hcut : Rule.cutAtArrow? (g.writeRules x) = some (x.chars ++ [' '],
      ' ' :: List.intercalate [' ', '|', ' '] ((g.rulesFor x).toList.map (·.writeBody))) := by
    have hhyphen : '-' ∉ x.chars ++ [' '] := by
      simpa using Rule.notMem_of_isHead hhead (by decide) (by decide)
    rw [← Rule.cutAtArrow?_append (Rule.not_hasArrow_of_notMem hhyphen), writeRules]
    simp
  have hbefore : trim (x.chars ++ [' ']) = x.chars := by
    have hspace : Blank [' '] := by decide
    exact trim_between .nil x.trimmed hspace
  have hrules : ∀ r ∈ (g.rulesFor x).toList, r.Recoverable := fun r hr =>
    h.rules r (mem_rulesFor.mp hr).1
  refine Rule.parse_eq_ok_iff.mpr ⟨_, _, _, hcut, hbefore.symm ▸ hhead,
    Rule.mapM_readBody_intercalate (rulesFor_ne_nil hx) hrules, ?_⟩
  rw [← Symbol.ofChars_trim, hbefore, Symbol.ofChars_chars]
  exact (map_body_rulesFor g x).symm

theorem lines_print (h : g.Recoverable) : lines g.print = g.heads.map g.writeRules := by
  rw [print, ← List.flatMap_map g.writeRules (· ++ ['\n'])]
  refine lines_flatMap_of_exists_last (fun line hline => ?_) fun line hline => ?_
  · obtain ⟨x, hx, rfl⟩ := List.mem_map.mp hline
    exact h.oneLine_writeRules hx
  · obtain ⟨x, hx, rfl⟩ := List.mem_map.mp hline
    exact h.exists_last_writeRules hx

theorem lineFor_lines_print (h : g.Recoverable) :
    List.Forall₂ g.LineFor g.heads (lines g.print) := by
  rw [h.lines_print, List.forall₂_map_right_iff, List.forall₂_same]
  intro x hx
  exact ⟨List.prefix_append _ _, h.parse_writeRules hx⟩

/-- The lines of a grammar, with its symbols in any order, are read as the grammar. -/
theorem parse_lines_print (h : g.Recoverable) {nonTerminals terminals : List Symbol}
    (hnonTerminals : ∀ x, x ∈ nonTerminals ↔ x ∈ g.nonTerminals)
    (hterminals : ∀ x, x ∈ terminals ↔ x ∈ g.terminals) :
    Grammar.parse (List.intercalate [',', ' '] (nonTerminals.map (·.chars)))
      (List.intercalate [',', ' '] (terminals.map (·.chars))) (lines g.print) g.start.chars =
      .ok g := by
  have hread : (lines g.print).mapM Rule.parse =
      .ok (g.heads.map fun x => (g.rulesFor x).toList) := by
    rw [h.lines_print, List.mapM_map]
    exact mapM_eq_ok fun x hx => h.parse_writeRules hx
  refine parse_eq_ok_iff.mpr ⟨_, hread, ?_⟩
  rw [readSymbols_intercalate fun x hx => h.nonTerminals x ((hnonTerminals x).mp hx),
    readSymbols_intercalate fun x hx => h.terminals x ((hterminals x).mp hx),
    ofList_flatten_rulesFor, Symbol.ofChars_chars]
  have hns : SortedSet.ofList nonTerminals = g.nonTerminals := SortedSet.ext fun x => by
    simp [hnonTerminals]
  have hts : SortedSet.ofList terminals = g.terminals := SortedSet.ext fun x => by
    simp [hterminals]
  rw [hns, hts]

end Recoverable

theorem recoverable_of_parse {nonTerminals terminals start : List Char} {rules : List (List Char)}
    (h : Grammar.parse nonTerminals terminals rules start = .ok g)
    (hfeed : ∀ r ∈ g.rules, ∀ x ∈ r.body, '\n' ∉ x.chars) : g.Recoverable := by
  obtain ⟨read, hread, hg⟩ := parse_eq_ok_iff.mp h
  refine ⟨fun r hr => ?_, hfeed, fun x hx => ?_, fun x hx => ?_⟩
  · rw [hg, SortedSet.mem_ofList, List.mem_flatten] at hr
    obtain ⟨rules', hrules', hr⟩ := hr
    obtain ⟨line, _, hline⟩ := exists_mem_of_mapM hread hrules'
    exact Rule.recoverable_of_parse hline hr
  · rw [hg, SortedSet.mem_ofList] at hx
    exact of_mem_readSymbols hx
  · rw [hg, SortedSet.mem_ofList] at hx
    exact of_mem_readSymbols hx

/-- A grammar that was read is written with a line for each head, the start symbol first, and is
rebuilt from these lines. Only a line feed inside a symbol would cut a line in two. -/
theorem rebuilt_from_print {nonTerminals terminals start : List Char} {rules : List (List Char)}
    (h : Grammar.parse nonTerminals terminals rules start = .ok g)
    (hfeed : ∀ r ∈ g.rules, ∀ x ∈ r.body, '\n' ∉ x.chars) :
    (∃ others : List Symbol, Increasing others ∧
      (∀ x, x ∈ others ↔ x ≠ g.start ∧ ∃ r ∈ g.rules, r.head = x) ∧
      List.Forall₂ g.LineFor
        ((if (g.rulesFor g.start).isEmpty then [] else [g.start]) ++ others) (lines g.print)) ∧
    ∀ nonTerminals' terminals' : List Symbol, (∀ x, x ∈ nonTerminals' ↔ x ∈ g.nonTerminals) →
      (∀ x, x ∈ terminals' ↔ x ∈ g.terminals) →
      Grammar.parse (List.intercalate [',', ' '] (nonTerminals'.map (·.chars)))
        (List.intercalate [',', ' '] (terminals'.map (·.chars))) (lines g.print) g.start.chars =
        .ok g := by
  have hg := recoverable_of_parse h hfeed
  constructor
  · obtain ⟨others, hheads, hincreasing, hothers⟩ := exists_heads_eq g
    refine ⟨others, hincreasing, hothers, ?_⟩
    rw [← hheads]
    exact hg.lineFor_lines_print
  · intro nonTerminals' terminals' hnonTerminals hterminals
    exact hg.parse_lines_print hnonTerminals hterminals

/-- An arrow inside a symbol, the symbol `ε` beside another one, and a head before the start
symbol. -/
def tangled : Grammar where
  nonTerminals := .ofList [.ofChars ['S'], .ofChars ['A']]
  terminals := .ofList [.ofChars ['a', '-', '>', 'b'], .ofChars ['ε']]
  rules := .ofList [⟨.ofChars ['A'], [.ofChars ['ε'], .ofChars ['a', '-', '>', 'b']]⟩,
    ⟨.ofChars ['A'], []⟩, ⟨.ofChars ['S'], [.ofChars ['a', '-', '>', 'b']]⟩]
  start := .ofChars ['S']
  valid := Components.defect?_eq_none_iff.mp (by decide)

def tangledRules : List (List Char) := [
  ['A', ' ', '-', '>', ' ', 'ε', ' ', '|', 'ε', ',', ' ', 'a', '-', '>', 'b'],
  ['S', '-', '>', 'a', '-', '>', 'b']]

theorem tangled_rebuilt :
    Grammar.parse ['S', ',', 'A'] ['ε', ',', 'a', '-', '>', 'b'] tangledRules ['S'] = .ok tangled ∧
      (∀ r ∈ tangled.rules, ∀ x ∈ r.body, '\n' ∉ x.chars) ∧
      List.Forall₂ tangled.LineFor [.ofChars ['S'], .ofChars ['A']] (lines tangled.print) ∧
      Grammar.parse ['S', ',', ' ', 'A'] ['ε', ',', ' ', 'a', '-', '>', 'b'] (lines tangled.print)
        ['S'] = .ok tangled := by
  have hread : Grammar.parse ['S', ',', 'A'] ['ε', ',', 'a', '-', '>', 'b'] tangledRules ['S'] =
      .ok tangled := by decide
  have hfeed : ∀ r ∈ tangled.rules.toList, ∀ x ∈ r.body, '\n' ∉ x.chars := by decide
  obtain ⟨⟨others, hincreasing, hothers, hlines⟩, hparse⟩ := rebuilt_from_print hread hfeed
  have hA : others = [.ofChars ['A']] := by
    refine SortedSet.eq_of_increasing hincreasing (List.pairwise_singleton ..) fun x => ?_
    rw [hothers]
    have hheads : (∃ r ∈ tangled.rules, r.head = x) ↔ x = .ofChars ['S'] ∨ x = .ofChars ['A'] := by
      simp [tangled, eq_comm, or_comm]
    rw [hheads, List.mem_singleton]
    constructor
    · rintro ⟨hstart, rfl | rfl⟩
      · exact absurd rfl hstart
      · rfl
    · rintro rfl
      exact ⟨by decide, .inr rfl⟩
  rw [hA] at hlines
  refine ⟨hread, hfeed, hlines, hparse [.ofChars ['S'], .ofChars ['A']]
    [.ofChars ['ε'], .ofChars ['a', '-', '>', 'b']] (fun x => ?_) fun x => ?_⟩
  · exact SortedSet.mem_ofList.symm
  · simp [tangled, or_comm]

end Grammar
end FormalLanguage
