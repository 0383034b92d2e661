import CodeCoach.Json.Parser
import CodeCoach.Instant
import CodeCoach.Toml.Value

/-!
# The simple values of TOML

* blanks, comments and the ends of lines;
* the four sorts of strings;
* numbers, and dates and times.

Each function reads from the start of a text and returns what follows.
-/

namespace CodeCoach.Toml

/-! ### Blanks and comments -/

def isSpace (c : Char) : Bool := c == ' ' || c == '\t'

def skipSpace (cs : List Char) : List Char := cs.dropWhile isSpace

/-- The characters that may stand in comments and strings: the tab and all that is no control
character of ASCII. -/
def isPlain (c : Char) : Bool := c == '\t' || (0x20 ≤ c.toNat && c.toNat != 0x7F)

/-- The text after a line feed, which a carriage return may precede. -/
def newline? : List Char → Option (List Char)
  | '\n' :: rest => some rest
  | '\r' :: '\n' :: rest => some rest
  | _ => none

/-- The text after a comment, where one begins. -/
def skipComment : List Char → List Char
  | '#' :: rest => rest.dropWhile isPlain
  | cs => cs

/-- The text after the rest of a line, which may hold blanks and a comment. -/
def lineEnd? (cs : List Char) : Option (List Char) :=
  match skipComment (skipSpace cs) with
  | [] => some []
  | rest => newline? rest

/-- Drops blanks and line feeds; `fuel` is at least the number of characters. -/
def skipLines : Nat → List Char → List Char
  | 0, cs => cs
  | fuel + 1, cs =>
    let rest := skipSpace cs
    match newline? rest with
    | some rest => skipLines fuel rest
    | none => rest

/-- Drops blanks, comments and line feeds, where each comment ends with its line. -/
def skipLinesAndComments : Nat → List Char → Option (List Char)
  | 0, cs => some cs
  | fuel + 1, cs =>
    match skipSpace cs with
    | '#' :: rest => (newline? (rest.dropWhile isPlain)).bind (skipLinesAndComments fuel)
    | rest =>
      match newline? rest with
      | some rest => skipLinesAndComments fuel rest
      | none => some rest

/-! ### Strings -/

/-- The character of `count` hexadecimal digits. -/
def hexEscape (count : Nat) (cs : List Char) : Option (Char × List Char) := do
  let digits ← (cs.take count).mapM Json.hexValue
  let n := digits.foldl (fun n d => n * 16 + d) 0
  if digits.length == count && n.isValidChar then pure (Char.ofNat n, cs.drop count) else none

/-- The character of an escape, after its backslash. -/
def escape : List Char → Option (Char × List Char)
  | 'b' :: rest => some ('\x08', rest)
  | 't' :: rest => some ('\t', rest)
  | 'n' :: rest => some ('\n', rest)
  | 'f' :: rest => some ('\x0c', rest)
  | 'r' :: rest => some ('\r', rest)
  | '\x22' :: rest => some ('\x22', rest)
  | '\x5c' :: rest => some ('\x5c', rest)
  | 'u' :: rest => hexEscape 4 rest
  | 'U' :: rest => hexEscape 8 rest
  | _ => none

/-- A string on one line up to its closing quote; in single quotes a backslash is an ordinary
character. -/
def shortString (quote : Char) (read : List Char) : Nat → List Char → Option (String × List Char)
  | 0, _ => none
  | _ + 1, [] => none
  | fuel + 1, c :: rest =>
    if c == quote then some (String.ofList read.reverse, rest)
    else if c == '\x5c' && quote == '\x22' then
      match escape rest with
      | some (d, rest) => shortString quote (d :: read) fuel rest
      | none => none
    else if isPlain c then shortString quote (c :: read) fuel rest
    else none

/-- The text after a backslash that ends a line: all blanks and line feeds are dropped. -/
def joinedLine? (cs : List Char) : Option (List Char) :=
  (newline? (skipSpace cs)).map fun rest => skipLines rest.length rest

/-- A string over several lines up to its three closing quotes, before which two more may stand. A
line end counts as a line feed. -/
def longString (quote : Char) (read : List Char) : Nat → List Char → Option (String × List Char)
  | 0, _ => none
  | _ + 1, [] => none
  | fuel + 1, c :: rest =>
    let quotes := ((c :: rest).take 5).takeWhile (· == quote)
    if 3 ≤ quotes.length then
      some (String.ofList (quotes.drop 3 ++ read).reverse, (c :: rest).drop quotes.length)
    else if c == '\x5c' && quote == '\x22' then
      match joinedLine? rest with
      | some rest => longString quote read fuel rest
      | none =>
        match escape rest with
        | some (d, rest) => longString quote (d :: read) fuel rest
        | none => none
    else
      match newline? (c :: rest) with
      | some rest => longString quote ('\n' :: read) fuel rest
      | none => if isPlain c then longString quote (c :: read) fuel rest else none

/-- A string of any sort, after its first quote. -/
def string (quote : Char) (cs : List Char) : Option (String × List Char) :=
  match cs with
  | a :: b :: rest =>
    if a == quote && b == quote then
      let body := (newline? rest).getD rest
      longString quote [] (body.length + 1) body
    else shortString quote [] (cs.length + 1) cs
  | _ => shortString quote [] (cs.length + 1) cs

/-! ### Numbers -/

/-- Digits, between which single underscores may stand; an underscore has to be followed by a
digit. -/
def moreDigits (isDigit : Char → Bool) : List Char → Option (List Char × List Char)
  | '_' :: c :: rest =>
    if isDigit c then (moreDigits isDigit rest).map fun (ds, rest) => (c :: ds, rest) else none
  | ['_'] => none
  | c :: rest =>
    if isDigit c then (moreDigits isDigit rest).map fun (ds, rest) => (c :: ds, rest)
    else some ([], c :: rest)
  | [] => some ([], [])

/-- At least one digit. -/
def digits (isDigit : Char → Bool) : List Char → Option (List Char × List Char)
  | c :: rest =>
    if isDigit c then (moreDigits isDigit rest).map fun (ds, rest) => (c :: ds, rest) else none
  | [] => none

/-- A zero, or digits that do not begin with one. -/
def wholePart : List Char → Option (List Char × List Char)
  | '0' :: rest => some (['0'], rest)
  | cs => digits Char.isDigit cs

/-- The sign of a number, and what follows. -/
def sign : List Char → Bool × List Char
  | '+' :: rest => (false, rest)
  | '-' :: rest => (true, rest)
  | rest => (false, rest)

def valueOf (base : Nat) (ds : List Char) : Nat :=
  ds.foldl (fun n c => n * base + (Json.hexValue c).getD 0) 0

/-- A whole number, if it fits 64 bits. -/
def wordInt (n : Int) : Option Toml := 
  if -0x8000000000000000 ≤ n && n < 0x8000000000000000 then some (.int n) else none

/-- The digits of a base other than ten and what follows them. -/
def basedInt (base : Nat) (cs : List Char) : Option (Toml × List Char) := do
  let isDigit (c : Char) : Bool := (Json.hexValue c).any (· < base)
  let (ds, rest) ← digits isDigit cs
  pure (← wordInt (valueOf base ds), rest)

/-- Whether a decimal number is too large for a float. -/
def overflows (significand : Nat) (exponent : Int) : Bool :=
  let magnitude := exponent + (Nat.toDigits 10 significand).length
  significand != 0 &&
    (400 < magnitude ||
      (-400 < magnitude &&
        !(if exponent < 0 then Float.ofScientific significand true exponent.natAbs
          else Float.ofScientific significand false exponent.natAbs).isFinite))

/-- The exponent of a float, after its letter. -/
def exponent (cs : List Char) : Option (Int × List Char) := do
  let (negative, rest) := sign cs
  let (ds, rest) ← digits Char.isDigit rest
  let n : Int := valueOf 10 ds
  pure (if negative then -n else n, rest)

/-- The exponent where one begins, or none. -/
def optionalExponent : List Char → Option (Int × List Char)
  | 'e' :: rest => exponent rest
  | 'E' :: rest => exponent rest
  | rest => some (0, rest)

/-- A number in base ten after its sign. A float that is too large is refused, unless it is
negative. -/
def decimal (negative : Bool) (cs : List Char) : Option (Toml × List Char) := do
  let (ds, rest) ← wholePart cs
  let float (fraction : List Char) (rest : List Char) : Option (Toml × List Char) := do
    let (e, rest) ← optionalExponent rest
    if !negative && overflows (valueOf 10 (ds ++ fraction)) (e - fraction.length) then none
    else pure (.float, rest)
  match rest with
  | '.' :: rest => do
    let (fraction, rest) ← digits Char.isDigit rest
    float fraction rest
  | 'e' :: _ => float [] rest
  | 'E' :: _ => float [] rest
  | _ => do
    let n : Int := valueOf 10 ds
    pure (← wordInt (if negative then -n else n), rest)

/-- The text after a word. -/
def afterWord? (word : String) (cs : List Char) : Option (List Char) := Json.afterWord word cs

/-- A number. -/
def number (cs : List Char) : Option (Toml × List Char) :=
  match cs with
  | '0' :: 'x' :: rest => basedInt 16 rest
  | '0' :: 'o' :: rest => basedInt 8 rest
  | '0' :: 'b' :: rest => basedInt 2 rest
  | _ =>
    let (negative, rest) := sign cs
    match afterWord? "inf" rest, afterWord? "nan" rest with
    | some rest, _ => some (.float, rest)
    | none, some rest => some (.float, rest)
    | none, none => decimal negative rest

/-! ### Dates and times -/

/-- The number of exactly `count` digits. -/
def fixedDigits (count : Nat) (cs : List Char) : Option (Nat × List Char) :=
  let ds := (cs.take count).takeWhile Char.isDigit
  if ds.length == count then some (valueOf 10 ds, cs.drop count) else none

/-- A number of two digits between two bounds. -/
def twoDigits (low high : Nat) (cs : List Char) : Option (Nat × List Char) := do
  let (n, rest) ← fixedDigits 2 cs
  if low ≤ n && n ≤ high then pure (n, rest) else none

/-- The text after one given character. -/
def after? (c : Char) : List Char → Option (List Char)
  | d :: rest => if d == c then some rest else none
  | [] => none

/-- The text after a date. -/
def date? (cs : List Char) : Option (List Char) := do
  let (year, rest) ← fixedDigits 4 cs
  let rest ← after? '-' rest
  let (month, rest) ← twoDigits 1 12 rest
  let rest ← after? '-' rest
  let (day, rest) ← twoDigits 1 31 rest
  if (Date.mk year month day).isValid then pure rest else none

/-- The text after a fraction of a second, where one begins. -/
def skipFraction : List Char → List Char
  | '.' :: c :: rest => if c.isDigit then rest.dropWhile Char.isDigit else '.' :: c :: rest
  | cs => cs

/-- The text after a time of the day. -/
def clock? (cs : List Char) : Option (List Char) := do
  let (_, rest) ← twoDigits 0 23 cs
  let rest ← after? ':' rest
  let (_, rest) ← twoDigits 0 59 rest
  let rest ← after? ':' rest
  let (_, rest) ← twoDigits 0 60 rest
  pure (skipFraction rest)

/-- The text after an offset from UTC, where one begins. -/
def skipOffset (cs : List Char) : List Char :=
  let amount (rest : List Char) : Option (List Char) := do
    let (_, rest) ← twoDigits 0 23 rest
    let rest ← after? ':' rest
    let (_, rest) ← twoDigits 0 59 rest
    pure rest
  match cs with
  | 'Z' :: rest => rest
  | 'z' :: rest => rest
  | '+' :: rest => (amount rest).getD cs
  | '-' :: rest => (amount rest).getD cs
  | _ => cs

/-- The text after the time of a date, where one follows. -/
def skipClock : List Char → List Char
  | c :: rest =>
    if c == 'T' || c == 't' || c == ' ' then ((clock? rest).map skipOffset).getD (c :: rest)
    else c :: rest
  | [] => []

/-- The text after a date, a time or both. -/
def moment? (cs : List Char) : Option (List Char) :=
  match date? cs with
  | some rest => some (skipClock rest)
  | none => clock? cs

end CodeCoach.Toml
