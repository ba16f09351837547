/-
The lines of a text. A line feed ends a line, and a carriage return in
front of it belongs to the line end; what follows the last line feed is
a line of its own unless it is empty.
-/

namespace Disasm8086.Text

/-- What lies between the line feeds of a text, empty stretches
included: one stretch more than there are line feeds. -/
def stretches (cs : List Char) : List (List Char) :=
  cs.foldr extend [[]]
where
  /-- One more character in front of the first stretch. -/
  extend (c : Char) : List (List Char) → List (List Char)
    | [] => [[c]]
    | first :: rest => if c = '\n' then [] :: first :: rest else (c :: first) :: rest

/-- A line without a carriage return at its end. -/
def dropReturn (cs : List Char) : List Char :=
  if cs.getLast? = some '\r' then cs.dropLast else cs

/-- The lines of a text. -/
def lines (cs : List Char) : List (List Char) :=
  let all := stretches cs
  all.dropLast.map dropReturn ++ all.getLast?.toList.filter (!·.isEmpty)

end Disasm8086.Text
