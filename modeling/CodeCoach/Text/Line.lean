import CodeCoach.Text.Blank

/-!
# Lines of a text, and the search for fixed words in a line

* `lines`, a text cut at its line feeds: one carriage return before a line feed belongs to the
  terminator, and a text that ends in a line feed has no empty line after it;
* `contains`, `startsWith`, for fixed words;
* `replaceAll`, for single characters.
-/

namespace CodeCoach.Text

/-- A line is a list of characters without a line feed. -/
abbrev Line := List Char

/-- A line without the carriage return that ends it, if one does. -/
def dropReturn (l : Line) : Line :=
  match l.reverse with
  | '\r' :: rest => rest.reverse
  | _ => l

/-- Cuts a text at its line feeds; `unfinished` holds the characters of the line under way, in
reverse. Only a line that a line feed ends loses a carriage return. -/
def cutLines (unfinished : List Char) : List Char → List Line
  | [] => if unfinished.isEmpty then [] else [unfinished.reverse]
  | '\n' :: rest => dropReturn unfinished.reverse :: cutLines [] rest
  | c :: rest => cutLines (c :: unfinished) rest

/-- The lines of a text. -/
def lines (cs : List Char) : List Line := cutLines [] cs

/-- The lines of a string. -/
def linesOf (s : String) : List Line := lines s.toList

/-- Whether `word` begins the text. -/
def startsWith (word : String) (cs : List Char) : Bool := word.toList.isPrefixOf cs

/-- Whether the characters of `word` occur in the text, one directly after the other. -/
def containsChars (word : List Char) : List Char → Bool
  | [] => word.isEmpty
  | c :: cs => word.isPrefixOf (c :: cs) || containsChars word cs

/-- Whether `word` occurs in the text. -/
def contains (word : String) (cs : List Char) : Bool := containsChars word.toList cs

/-- Puts `new` for every `old` of the text. -/
def replaceAll (old : Char) (new : List Char) (cs : List Char) : List Char :=
  cs.flatMap fun c => if c == old then new else [c]

/-- The number of bytes of a text in UTF-8. -/
def byteLength : List Char → Nat
  | [] => 0
  | c :: rest => c.utf8Size + byteLength rest

theorem byteLength_append (a b : List Char) :
    byteLength (a ++ b) = byteLength a + byteLength b := by
  induction a with
  | nil => simp [byteLength]
  | cons c a ih => simp [byteLength, ih]; omega

theorem byteLength_spaces (n : Nat) : byteLength (List.replicate n ' ') = n := by
  induction n with
  | zero => rfl
  | succ n ih =>
    simp only [byteLength, List.replicate_succ] at ih ⊢
    rw [ih]
    simp [Char.utf8Size]
    omega

end CodeCoach.Text
