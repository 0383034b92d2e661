import CodeCoach.Text.Blank
import CodeCoach.Text.Case
import CodeCoach.Text.Word

/-!
# Patterns and their matches in a line

A pattern describes how a match may go on from a place in a line.  The places at which it can end
form a list, the preferred one first: a repetition prefers more, a choice prefers its left side.
A search takes the leftmost place with a match and there the preferred end, so it needs no other
account of priority than the order of that list.

* `Place`, a position in a line together with the character before it;
* `Pattern`, its syntax, and `Pattern.ends`, the ends of its matches at a place;
* `Pattern.find`, the leftmost match, and `Pattern.findAll`, the successive matches that do not
  overlap.

Offsets count bytes of UTF-8, so that a place in a masked line is a place in the line itself.
-/

namespace CodeCoach

open Text

/-- A position in a line: the character before it, the bytes before it, the characters after. -/
structure Place where
  before : Option Char
  offset : Nat
  rest : List Char
  deriving DecidableEq, Repr

/-- The place one character on. -/
def Place.next (s : Place) (c : Char) (rest : List Char) : Place :=
  ⟨some c, s.offset + c.utf8Size, rest⟩

/-- The start of a line. -/
def Place.start (cs : List Char) : Place := ⟨none, 0, cs⟩

/-- Whether one side of the place has a word character and the other has none. -/
def Place.atEdge (s : Place) : Bool := s.before.any isWord != s.rest.head?.any isWord

/-- Syntax of patterns. -/
inductive Pattern
  /-- Matches at once. -/
  | done
  /-- One character of a class. -/
  | one (p : Char → Bool)
  /-- Any number of characters of a class, as many as possible first. -/
  | many (p : Char → Bool)
  /-- A word boundary. -/
  | edge
  /-- The start of the line. -/
  | atStart
  /-- The end of the line. -/
  | atEnd
  /-- One pattern after the other. -/
  | both (a b : Pattern)
  /-- The left pattern, or else the right one. -/
  | either (a b : Pattern)
  /-- The pattern any number of times, as often as possible first. -/
  | repeated (a : Pattern)

namespace Pattern

/-- The places after each number of characters of the class, the furthest first; `passed` holds
those found so far. -/
def manyEnds (p : Char → Bool) (passed : List Place) (before : Option Char) (offset : Nat) :
    List Char → List Place
  | [] => ⟨before, offset, []⟩ :: passed
  | c :: rest =>
    let here := ⟨before, offset, c :: rest⟩
    if p c then manyEnds p (here :: passed) (some c) (offset + c.utf8Size) rest
    else here :: passed

/-- The ends of repeated steps, each of which moves on; `fuel` bounds their number. -/
def repeatedEnds (step : Place → List Place) : Nat → Place → List Place
  | 0, s => [s]
  | fuel + 1, s =>
    ((step s).filter fun e => e.rest.length < s.rest.length).flatMap (repeatedEnds step fuel)
      ++ [s]

/-- The ends of the matches at a place, in order of preference. -/
def ends : Pattern → Place → List Place
  | done, s => [s]
  | one p, s =>
    match s.rest with
    | [] => []
    | c :: rest => if p c then [s.next c rest] else []
  | many p, s => manyEnds p [] s.before s.offset s.rest
  | edge, s => if s.atEdge then [s] else []
  | atStart, s => if s.offset == 0 then [s] else []
  | atEnd, s => if s.rest.isEmpty then [s] else []
  | both a b, s => (a.ends s).flatMap b.ends
  | either a b, s => a.ends s ++ b.ends s
  | repeated a, s => repeatedEnds a.ends s.rest.length s

/-! ### Derived forms -/

/-- The pattern, or nothing. -/
def optional (a : Pattern) : Pattern := either a done

/-- At least one character of a class. -/
def oneOrMore (p : Char → Bool) : Pattern := both (one p) (many p)

/-- The patterns one after the other. -/
def inOrder : List Pattern → Pattern
  | [] => done
  | [a] => a
  | a :: rest => both a (inOrder rest)

/-- The first of the patterns that matches. -/
def anyOf : List Pattern → Pattern
  | [] => one fun _ => false
  | [a] => a
  | a :: rest => either a (anyOf rest)

/-- The given character. -/
def char (c : Char) : Pattern := one (· == c)

/-- One of the characters of `s`. -/
def charOf (s : String) : Pattern := one (s.toList.contains ·)

/-- The characters of `s`, exactly. -/
def word (s : String) : Pattern := inOrder (s.toList.map char)

/-- The characters of `s`, given in lower case, where letters match without regard to case. -/
def wordAnyCase (s : String) : Pattern := inOrder (s.toList.map fun c => one (isLetter c))

/-- Any number of blanks. -/
def blanks : Pattern := many isBlank

/-- Any number of characters other than a line feed. -/
def anything : Pattern := many (· != '\n')

/-! ### Searching -/

/-- A match, from its first place to its end. -/
structure Match where
  start : Place
  stop : Place
  deriving DecidableEq, Repr

/-- The characters of a match. -/
def Match.text (m : Match) : List Char :=
  m.start.rest.take (m.start.rest.length - m.stop.rest.length)

/-- The preferred match at a place. -/
def matchAt (a : Pattern) (s : Place) : Option Match := (a.ends s).head?.map (⟨s, ·⟩)

/-- The leftmost match at or after a place. -/
def findFrom (a : Pattern) (before : Option Char) (offset : Nat) : List Char → Option Match
  | [] => a.matchAt ⟨before, offset, []⟩
  | c :: rest =>
    match a.matchAt ⟨before, offset, c :: rest⟩ with
    | some m => some m
    | none => a.findFrom (some c) (offset + c.utf8Size) rest

/-- The leftmost match in a line. -/
def find (a : Pattern) (cs : List Char) : Option Match := a.findFrom none 0 cs

/-- Whether the pattern matches somewhere in a line. -/
def occursIn (a : Pattern) (cs : List Char) : Bool := (a.find cs).isSome

/-- The matches at or after a place that are not empty and begin at byte `free` or later, each
after the end of the one before. -/
def findAllFrom (a : Pattern) (free : Nat) (before : Option Char) (offset : Nat) :
    List Char → List Match
  | [] => []
  | c :: rest =>
    let here : Place := ⟨before, offset, c :: rest⟩
    let go (free : Nat) := a.findAllFrom free (some c) (offset + c.utf8Size) rest
    if offset < free then go free
    else
      match a.matchAt here with
      | none => go free
      | some m => if offset < m.stop.offset then m :: go m.stop.offset else go free

/-- The successive matches in a line that are not empty and do not overlap, from the left. -/
def findAll (a : Pattern) (cs : List Char) : List Match := a.findAllFrom 0 none 0 cs

end Pattern

end CodeCoach
