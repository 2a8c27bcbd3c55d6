/-! Separators that stand outside quotes and braces.

Reading from left to right, a quote opens or closes a quotation, and outside of
quotations an opening brace goes one level deeper and a closing one comes one
level back, or stays where it is if nothing is open. A separator counts only
outside of quotations and at depth zero. So names such as `{q0, q1}` and symbols
such as `","` stay in one piece. -/
namespace FormalLanguage.Description

/-- Where a reader is with respect to quotes and braces. -/
structure Nesting where
  quoted : Bool
  depth : Nat
deriving DecidableEq

namespace Nesting

def top : Nesting := ⟨false, 0⟩

def next (n : Nesting) (c : Char) : Nesting :=
  if c = '"' then ⟨!n.quoted, n.depth⟩
  else if n.quoted then n
  else if c = '{' then ⟨false, n.depth + 1⟩
  else if c = '}' then ⟨false, n.depth - 1⟩
  else n

def after (n : Nesting) (s : List Char) : Nesting := s.foldl next n

def isTop (n : Nesting) : Bool := !n.quoted && n.depth == 0

end Nesting

/-- The parts before and after the first separator. -/
def cutFrom (separator : Char → Bool) : Nesting → List Char → Option (List Char × List Char)
  | _, [] => none
  | n, c :: rest =>
    if n.isTop && separator c then some ([], rest)
    else (cutFrom separator (n.next c) rest).map fun (before, after) => (c :: before, after)

def cutTopLevel? (separator : Char → Bool) (s : List Char) : Option (List Char × List Char) :=
  cutFrom separator .top s

/-- The part before the first separator, and the parts after it and between the others. -/
def partsFrom (separator : Char → Bool) : Nesting → List Char → List Char × List (List Char)
  | _, [] => ([], [])
  | n, c :: rest =>
    if n.isTop && separator c then
      let (part, parts) := partsFrom separator n rest
      ([], part :: parts)
    else
      let (part, parts) := partsFrom separator (n.next c) rest
      (c :: part, parts)

def splitTopLevel (separator : Char → Bool) (s : List Char) : List (List Char) :=
  let (part, parts) := partsFrom separator .top s
  part :: parts

end FormalLanguage.Description
