/-! The lines of a text.

A line ends in a line feed or in a carriage return and a line feed; a carriage
return elsewhere is a character of its line. What follows the last line end is a
line only if it is not empty. -/
namespace FormalLanguage.Text

def lines : List Char → List (List Char)
  | [] => []
  | '\n' :: rest => [] :: lines rest
  | '\r' :: '\n' :: rest => [] :: lines rest
  | c :: rest =>
    match lines rest with
    | [] => [[c]]
    | line :: others => (c :: line) :: others

end FormalLanguage.Text
