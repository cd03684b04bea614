/-!
# Text/Lines — line ends

A line ends at a line feed, a carriage return, or the two together.  `unifyLineEnds` writes each of
them as one line feed.  `cutAt` cuts a text at a mark, and `lines` at its line ends.
-/

namespace Scrawl.Text

/-- Every line end as one line feed. -/
def unifyLineEnds : List Char → List Char
  | [] => []
  | '\r' :: '\n' :: rest => '\n' :: unifyLineEnds rest
  | '\r' :: rest => '\n' :: unifyLineEnds rest
  | c :: rest => c :: unifyLineEnds rest

/-- The pieces of a text between the places where a mark stands; one more than there are marks. -/
def cutAt (mark : Char) : List Char → List (List Char)
  | [] => [[]]
  | c :: rest =>
    match cutAt mark rest with
    | [] => [[c]]
    | piece :: more => if c = mark then [] :: piece :: more else (c :: piece) :: more

/-- **The lines of a text**, whichever way they end. -/
def lines (s : String) : List String :=
  (cutAt '\n' (unifyLineEnds s.toList)).map String.ofList

end Scrawl.Text
