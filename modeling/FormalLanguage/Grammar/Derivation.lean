import FormalLanguage.Grammar.Basic

/-! Derivations: what the symbols of a grammar stand for, said without computing it.

A step replaces one occurrence of the head of a rule by its body. -/
namespace FormalLanguage.Grammar

inductive Produces (g : Grammar) : List Symbol → List Symbol → Prop where
  | rule (before after : List Symbol) {r : Rule} (hr : r ∈ g.rules) :
      Produces g (before ++ r.head :: after) (before ++ r.body ++ after)

/-- Any number of steps. -/
inductive Derives (g : Grammar) : List Symbol → List Symbol → Prop where
  | refl (s : List Symbol) : Derives g s s
  | head {s t u : List Symbol} (hstep : g.Produces s t) (hrest : Derives g t u) : Derives g s u

/-- At least one step. -/
def DerivesProperly (g : Grammar) (s u : List Symbol) : Prop := ∃ t, g.Produces s t ∧ g.Derives t u

/-- The words of the grammar: the sequences of terminals that the start symbol derives. -/
def Generates (g : Grammar) (w : Word) : Prop :=
  g.Derives [g.start] w ∧ ∀ x ∈ w, x ∈ g.terminals

variable {g : Grammar}

theorem Derives.trans {s t u : List Symbol} (h : g.Derives s t) (h' : g.Derives t u) :
    g.Derives s u := by
  induction h with
  | refl => exact h'
  | head hstep _ ih => exact .head hstep (ih h')

theorem Produces.append_left {s t : List Symbol} (u : List Symbol) (h : g.Produces s t) :
    g.Produces (u ++ s) (u ++ t) := by
  cases h with
  | rule before after hr => simpa using Produces.rule (u ++ before) after hr

theorem Produces.append_right {s t : List Symbol} (u : List Symbol) (h : g.Produces s t) :
    g.Produces (s ++ u) (t ++ u) := by
  cases h with
  | rule before after hr => simpa using Produces.rule before (after ++ u) hr

theorem Derives.append_left {s t : List Symbol} (u : List Symbol) (h : g.Derives s t) :
    g.Derives (u ++ s) (u ++ t) := by
  induction h with
  | refl s => exact .refl (u ++ s)
  | head hstep _ ih => exact .head (hstep.append_left u) ih

theorem Derives.append_right {s t : List Symbol} (u : List Symbol) (h : g.Derives s t) :
    g.Derives (s ++ u) (t ++ u) := by
  induction h with
  | refl s => exact .refl (s ++ u)
  | head hstep _ ih => exact .head (hstep.append_right u) ih

theorem Derives.append {s t s' t' : List Symbol} (h : g.Derives s t) (h' : g.Derives s' t') :
    g.Derives (s ++ s') (t ++ t') :=
  (h.append_right s').trans (h'.append_left t)

end FormalLanguage.Grammar
