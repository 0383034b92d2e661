import CodeCoach.Text.Line

/-!
# Nested loops

A line that opens a loop is the start of a nested loop when another loop opens directly inside its
body, within twenty lines.  The body is followed by counting braces: the second loop has to open
while exactly one brace is open, and the search ends when the braces that were opened are closed.

* `braces`, the opening braces less the closing braces of a line;
* `opensWithin`, the search through the following lines, for a given running count;
* `isNestedLoopStart`, for the line at an index of a document.
-/

namespace CodeCoach.Review

open Text

/-- The number of lines after the opening line that are looked at. -/
def lookahead : Nat := 20

/-- What a character adds to the number of open braces. -/
def braceStep (c : Char) : Int :=
  if c == '\x7b' then 1 else if c == '\x7d' then -1 else 0

/-- The opening braces of a line less its closing braces. This and the running count are kept in 32
bits with a sign, so the line and those that are looked at after it have fewer than 2^31 braces. -/
def braces (line : Line) : Int := line.foldr (fun c n => braceStep c + n) 0

/-- Whether a loop opens at depth one in the given lines, where `depth` braces are open before them
and `opened` says whether any has been. -/
def opensWithin (opens : Line → Bool) (depth : Int) (opened : Bool) : List Line → Bool
  | [] => false
  | line :: rest =>
    if depth == 1 && opens line then true
    else
      let depth := depth + braces line
      let opened := opened || 0 < depth
      if opened && depth ≤ 0 then false else opensWithin opens depth opened rest

/-- Whether the first line opens a loop that has another directly inside it, on the lines after
it. -/
def nestedAt (opens : Line → Bool) (line : Line) (rest : List Line) : Bool :=
  opens line && opensWithin opens (braces line) (0 < braces line) (rest.take lookahead)

/-- Whether a nested loop starts at the given index. -/
def isNestedLoopStart (opens : Line → Bool) (lines : List Line) (start : Nat) : Bool :=
  match lines.drop start with
  | [] => false
  | line :: rest => nestedAt opens line rest

end CodeCoach.Review
