import CodeCoach.Toml.Scalar

/-!
# Reading TOML

A document is a list of sections.  The first has no header, each other one has the header of a table
or of one more table of an array; the lines after it give the fields of that table.

* `Toml.value`, a value, and `Toml.keyPath`, a key with its dots;
* `Toml.sections`, the sections of a text;
* `Toml.parse?`, the fields of a document.
-/

namespace CodeCoach.Toml

/-- The most parts of a key, and the most levels of arrays and braces; both are not reached. -/
def depthLimit : Nat := 80

/-! ### Keys -/

def isBareKey (c : Char) : Bool := c.isAlphanum || c == '_' || c == '-'

/-- One part of a key. -/
def simpleKey : List Char → Option (String × List Char)
  | [] => none
  | c :: rest =>
    if c == '\x22' || c == '\x27' then shortString c [] (rest.length + 1) rest
    else
      let name := (c :: rest).takeWhile isBareKey
      if name.isEmpty then none
      else some (String.ofList name, (c :: rest).dropWhile isBareKey)

/-- The parts of a key, with blanks around each. -/
def keyParts : Nat → List Char → Option (List String × List Char)
  | 0, _ => none
  | fuel + 1, cs =>
    match simpleKey (skipSpace cs) with
    | none => none
    | some (name, rest) =>
      match skipSpace rest with
      | '.' :: rest => (keyParts fuel rest).map fun (names, rest) => (name :: names, rest)
      | rest => some ([name], rest)

/-- The parts of a key: all but the last, and the last. -/
def keyPath (cs : List Char) : Option ((List String × String) × List Char) := do
  let (names, rest) ← keyParts cs.length cs
  let last ← names.getLast?
  if names.length < depthLimit then pure ((names.dropLast, last), rest) else none

/-! ### Values -/

/-- A value that has no parts. -/
def scalar : List Char → Option (Toml × List Char)
  | [] => none
  | c :: rest =>
    if c == '\x22' || c == '\x27' then (string c rest).map fun (s, rest) => (.str s, rest)
    else if c == 't' then (afterWord? "rue" rest).map fun rest => (.bool true, rest)
    else if c == 'f' then (afterWord? "alse" rest).map fun rest => (.bool false, rest)
    else
      match moment? (c :: rest) with
      | some rest => some (.time, rest)
      | none => number (c :: rest)

mutual

/-- A value; `depth` counts the arrays and braces around it. -/
def value (depth : Nat) : Nat → List Char → Option (Toml × List Char)
  | 0, _ => none
  | fuel + 1, cs =>
    match cs with
    | '[' :: rest => if depth + 1 < depthLimit then items (depth + 1) [] fuel rest else none
    | '\x7b' :: rest =>
      if depth + 1 < depthLimit then
        match skipSpace rest with
        | '\x7d' :: rest => some (.table .braces [], rest)
        | rest => fields (depth + 1) [] fuel rest
      else none
    | _ => scalar cs

/-- The items of an array up to its bracket, from the next one on; a comma may end them. -/
def items (depth : Nat) (read : List Toml) : Nat → List Char → Option (Toml × List Char)
  | 0, _ => none
  | fuel + 1, cs =>
    match skipLinesAndComments cs.length cs with
    | none => none
    | some (']' :: rest) => some (.arr read.reverse, rest)
    | some rest =>
      match value depth fuel rest with
      | none => none
      | some (v, rest) =>
        match skipLinesAndComments rest.length rest with
        | some (']' :: rest) => some (.arr (v :: read).reverse, rest)
        | some (',' :: rest) => items depth (v :: read) fuel rest
        | _ => none

/-- The fields in braces, from the next one on, of which there has to be one. -/
def fields (depth : Nat) (read : Fields) : Nat → List Char → Option (Toml × List Char)
  | 0, _ => none
  | fuel + 1, cs =>
    match keyPath cs with
    | some ((path, key), '=' :: rest) =>
      match value depth fuel (skipSpace rest) with
      | none => none
      | some (v, rest) =>
        match addAt path key v .header read with
        | none => none
        | some read =>
          match skipSpace rest with
          | '\x7d' :: rest => some (.table .braces read, rest)
          | ',' :: rest => fields depth read fuel rest
          | _ => none
    | _ => none

end

/-! ### Sections -/

/-- What a header announces. -/
inductive Header
  /-- The lines before any header. -/
  | top
  | table (path : List String) (key : String)
  /-- One more table of an array. -/
  | item (path : List String) (key : String)
  deriving Repr

/-- A field by its path of keys. -/
structure Entry where
  path : List String
  key : String
  value : Toml

/-- A header and the fields after it. -/
structure Section where
  header : Header
  entries : List Entry

/-- A header, and the text after its line. -/
def header : List Char → Option (Header × List Char)
  | '[' :: '[' :: rest =>
    match keyPath rest with
    | some ((path, key), ']' :: ']' :: rest) => (lineEnd? rest).map fun rest => (.item path key, rest)
    | _ => none
  | '[' :: rest =>
    match keyPath rest with
    | some ((path, key), ']' :: rest) => (lineEnd? rest).map fun rest => (.table path key, rest)
    | _ => none
  | _ => none

/-- A field, and the text after its line. -/
def entry (cs : List Char) : Option (Entry × List Char) :=
  match keyPath cs with
  | some ((path, key), '=' :: rest) => do
    let (v, rest) ← value 0 (rest.length + 1) (skipSpace rest)
    (lineEnd? rest).map fun rest => (⟨path, key, v⟩, rest)
  | _ => none

/-- The sections of a text from the one under way on, of which `read` holds the entries so far in
reverse. -/
def sections (under : Header) (read : List Entry) : Nat → List Char → Option (List Section)
  | 0, _ => none
  | fuel + 1, cs =>
    match skipSpace cs with
    | [] => some [⟨under, read.reverse⟩]
    | '#' :: rest => (lineEnd? ('#' :: rest)).bind (sections under read fuel)
    | '[' :: rest =>
      match header ('[' :: rest) with
      | none => none
      | some (next, rest) =>
        (sections next [] fuel rest).map fun others => ⟨under, read.reverse⟩ :: others
    | '\n' :: rest => sections under read fuel rest
    | '\r' :: rest => (newline? ('\r' :: rest)).bind (sections under read fuel)
    | rest =>
      match entry rest with
      | none => none
      | some (e, rest) => sections under (e :: read) fuel rest

/-! ### Documents -/

/-- Adds the entries of a section to the fields of its table. -/
def addEntries (entries : List Entry) (fields : Fields) : Option Fields :=
  entries.foldlM (fun fields e => addAt e.path e.key e.value .header fields) fields

/-- Adds a section to a document. The table of a header may be there only if the header of a table
within has implied it. -/
def addSection (document : Fields) (s : Section) : Option Fields :=
  match s.header with
  | .top => addEntries s.entries document
  | .table path key =>
    change .implied (fun _ fields =>
      match get? fields key with
      | none => (addEntries s.entries []).map fun inner => put key (.table .header inner) fields
      | some (.table .implied inner) =>
        (addEntries s.entries inner).map fun inner => put key (.table .header inner) fields
      | some _ => none) path .header document
  | .item path key =>
    change .implied (fun _ fields =>
      match get? fields key with
      | none => (addEntries s.entries []).map fun inner => put key (.tables [inner]) fields
      | some (.tables items) =>
        (addEntries s.entries []).map fun inner => put key (.tables (items ++ [inner])) fields
      | some _ => none) path .header document

/-- The text without the mark of its byte order. -/
def dropMark : List Char → List Char
  | c :: rest => if c.toNat == 0xFEFF then rest else c :: rest
  | [] => []

/-- The fields of a document. -/
def parse? (s : String) : Option Fields := do
  let cs := dropMark s.toList
  (← sections .top [] (cs.length + 1) cs).foldlM addSection []

end CodeCoach.Toml
