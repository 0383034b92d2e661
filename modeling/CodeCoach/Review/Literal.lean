import CodeCoach.Text.Line

/-!
# String literals in a line

Rules for code should not fire on quoted text, so the string literals of a line are blanked out
first.  A literal opens with a double quote, a single quote or a backtick and closes with the same
character; within the first two a backslash hides the character after it.  A quote without a
partner on its line opens nothing.

* `closing`, how far the literal that a quote opens reaches;
* `literalLength`, the length of the complete literal at the start of a text;
* `mask`, the line with each literal replaced by as many spaces as it has bytes, which keeps the
  byte offsets of everything else;
* `literals`, the literals themselves, from the left.
-/

namespace CodeCoach.Review

open Text

def doubleQuote : Char := '\x22'

def singleQuote : Char := '\x27'

def backtick : Char := '\x60'

def backslash : Char := '\x5c'

/-- A character that opens and closes string literals. -/
def isQuote (c : Char) : Bool := c == doubleQuote || c == singleQuote || c == backtick

/-- The number of characters up to and with the quote that closes a literal, given the characters
after its opening quote `q`. A backslash hides the next character, except in backticks. -/
def closing (q : Char) : List Char → Option Nat
  | [] => none
  | c :: rest =>
    if c == q then some 1
    else if c == backslash && q != backtick then
      match rest with
      | [] => none
      | d :: rest => if d == '\n' then none else (closing q rest).map (· + 2)
    else (closing q rest).map (· + 1)

/-- The number of characters of the complete literal that a text begins with. -/
def literalLength : List Char → Option Nat
  | [] => none
  | c :: rest => if isQuote c then (closing c rest).map (· + 1) else none

/-- Masks a text of which the first `hidden` characters still belong to a literal. -/
def maskFrom : Nat → List Char → List Char
  | _, [] => []
  | hidden + 1, c :: rest => List.replicate c.utf8Size ' ' ++ maskFrom hidden rest
  | 0, c :: rest =>
    match literalLength (c :: rest) with
    | some n => List.replicate c.utf8Size ' ' ++ maskFrom (n - 1) rest
    | none => c :: maskFrom 0 rest

/-- The line with its string literals blanked out. -/
def mask (cs : List Char) : List Char := maskFrom 0 cs

/-- The complete literals of a text of which the first `hidden` characters belong to a literal that
has been listed, each with the characters before it. -/
def literalsFrom (passed : List Char) : Nat → List Char → List (List Char × List Char)
  | _, [] => []
  | hidden + 1, c :: rest => literalsFrom (c :: passed) hidden rest
  | 0, c :: rest =>
    match literalLength (c :: rest) with
    | some n => (passed.reverse, (c :: rest).take n) :: literalsFrom (c :: passed) (n - 1) rest
    | none => literalsFrom (c :: passed) 0 rest

/-- The complete literals of a line from the left, each with the characters before it. -/
def literals (cs : List Char) : List (List Char × List Char) := literalsFrom [] 0 cs

end CodeCoach.Review
