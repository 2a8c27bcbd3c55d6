import FormalLanguage.Transition

/-! Values as they are shown to a reader: symbols and states by name, with `ε` for the
empty symbol, words between quotes, sets between braces and tuples between parentheses. -/
namespace FormalLanguage

class Readable (α : Type u) where
  readable : α → String

export Readable (readable)

namespace Readable

/-- The elements between braces, separated by commas. -/
def listing [Readable α] (l : List α) : String :=
  String.singleton '{' ++ String.intercalate ", " (l.map readable) ++ String.singleton '}'

instance : Readable String := ⟨id⟩

instance : Readable Bool := ⟨fun b => if b then "+" else "-"⟩

instance : Readable Symbol := ⟨fun x => String.ofList x.shown⟩

instance : Readable State := ⟨fun q => q.text⟩

instance : Readable Transition :=
  ⟨fun t => s!"({readable t.source}, {readable t.symbol}, {readable t.target})"⟩

instance [Readable α] : Readable (List α) := ⟨fun l => "\"" ++ String.join (l.map readable) ++ "\""⟩

instance [Ord α] [Readable α] : Readable (SortedSet α) := ⟨fun s => listing s.toList⟩

instance [Readable α] [Readable β] : Readable (α × β) :=
  ⟨fun p => s!"({readable p.1}, {readable p.2})"⟩

end Readable
end FormalLanguage
