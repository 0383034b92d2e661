import CodeCoach.Table

/-!
# Arguments

The arguments of a command line are read in order.  An argument is a word, a long switch
`--name` or `--name=value`, some letters behind one dash, or the separator `--`, after which all
arguments are words.

* `Argument`, the form of an argument;
* `Switch`, `Level`, what may be given, and `Level.read`, what was given;
* `Stop`, why reading ends early.

A switch is given once at most on its level.  The value of a switch that takes one is the next
argument, unless it follows an equals sign.
-/

namespace CodeCoach.CommandLine

/-- Why a command line is not carried out. -/
inductive Stop
  /-- Help is asked for. -/
  | help
  /-- The version is asked for. -/
  | version
  /-- The arguments make no sense. -/
  | misuse
  deriving DecidableEq, Repr

/-! ### Forms -/

/-- The form of an argument. -/
inductive Argument
  | separator
  | long (name : String) (value : Option String)
  | short (letters : List Char)
  | word
  deriving DecidableEq, Repr

namespace Argument

/-- The text behind two dashes, cut at its first equals sign. -/
def ofLong (cs : List Char) : Argument :=
  let name := String.ofList (cs.takeWhile (· != '='))
  match cs.dropWhile (· != '=') with
  | [] => .long name none
  | _ :: value => .long name (some (String.ofList value))

def ofChars : List Char → Argument
  | ['-', '-'] => .separator
  | '-' :: '-' :: rest => ofLong rest
  | ['-'] => .word
  | '-' :: letters => .short letters
  | _ => .word

def ofString (s : String) : Argument := ofChars s.toList

end Argument

/-! ### What may be given -/

/-- What a switch does. -/
inductive Effect
  | stop (reason : Stop)
  /-- It is on or off. -/
  | mark
  /-- It takes a text. -/
  | text
  /-- It takes a path, which has at least one character. -/
  | path
  deriving DecidableEq, Repr

/-- A named argument. -/
structure Switch where
  name : String
  letter : Option Char
  effect : Effect
  deriving DecidableEq, Repr

/-- What words are good for. -/
inductive Words
  | nothing
  /-- One word is a path. -/
  | path
  /-- The first word ends the level. -/
  | command
  deriving DecidableEq, Repr

/-- The arguments before a command, or those behind it. -/
structure Level where
  switches : List Switch
  words : Words
  deriving DecidableEq, Repr

/-! ### What was given -/

/-- The values of the switches that were given, and the word. Switches without a value have the
empty text. -/
structure Given where
  values : Table String String
  word : Option String
  deriving DecidableEq, Repr

namespace Given

def empty : Given := ⟨.empty, none⟩

/-- The value of a switch. -/
def value? (g : Given) (name : String) : Option String := g.values.get? name

/-- Whether a switch was given. -/
def has (g : Given) (name : String) : Bool := (g.value? name).isSome

/-- Takes in the value of a switch. -/
def add (g : Given) (name value : String) : Except Stop Given :=
  if g.has name then .error .misuse else .ok { g with values := g.values.set name value }

end Given

namespace Switch

/-- Whether the switch needs a value. -/
def wantsValue (s : Switch) : Bool := s.effect == .text || s.effect == .path

/-- Takes in the switch without a value. -/
def give (s : Switch) (g : Given) : Except Stop Given :=
  match s.effect with
  | .stop reason => .error reason
  | .mark => g.add s.name ""
  | _ => .error .misuse

/-- Whether the switch takes a text for its value. -/
def accepts (s : Switch) (value : String) : Bool :=
  match s.effect with
  | .text => true
  | .path => !value.isEmpty
  | _ => false

/-- Takes in the switch with a value. -/
def giveValue (s : Switch) (g : Given) (value : String) : Except Stop Given :=
  if s.accepts value then g.add s.name value else .error .misuse

end Switch

namespace Level

/-- The switch with a name. -/
def named? (l : Level) (name : String) : Option Switch := l.switches.find? (·.name == name)

/-- The switch with a letter. -/
def lettered? (l : Level) (c : Char) : Option Switch := l.switches.find? (·.letter == some c)

/-- Takes in the switches with some letters. -/
def readLetters (l : Level) (g : Given) : List Char → Except Stop Given
  | [] => .ok g
  | c :: rest =>
    match l.lettered? c with
    | none => .error .misuse
    | some s =>
      match s.give g with
      | .error stop => .error stop
      | .ok g => readLetters l g rest

/-- Takes in a word. -/
def readWord (l : Level) (g : Given) (word : String) : Except Stop Given :=
  if l.words == .path && g.word.isNone && !word.isEmpty then .ok { g with word := some word }
  else .error .misuse

/-- Takes in words. -/
def readWords (l : Level) (g : Given) : List String → Except Stop Given
  | [] => .ok g
  | word :: rest =>
    match l.readWord g word with
    | .error stop => .error stop
    | .ok g => readWords l g rest

/-- Takes in arguments. Returns also those from the word on that ends the level. -/
def read (l : Level) (g : Given) : List String → Except Stop (Given × List String)
  | [] => .ok (g, [])
  | arg :: rest =>
    match Argument.ofString arg with
    | .separator =>
      match l.readWords g rest with
      | .error stop => .error stop
      | .ok g => .ok (g, [])
    | .short letters =>
      match l.readLetters g letters with
      | .error stop => .error stop
      | .ok g => read l g rest
    | .word =>
      if l.words == .command then .ok (g, arg :: rest)
      else
        match l.readWord g arg with
        | .error stop => .error stop
        | .ok g => read l g rest
    | .long name (some value) =>
      match l.named? name with
      | none => .error .misuse
      | some s =>
        match s.giveValue g value with
        | .error stop => .error stop
        | .ok g => read l g rest
    | .long name none =>
      match l.named? name with
      | none => .error .misuse
      | some s =>
        if s.wantsValue then
          match rest with
          | [] => .error .misuse
          | value :: rest =>
            if Argument.ofString value != .word then .error .misuse
            else
              match s.giveValue g value with
              | .error stop => .error stop
              | .ok g => read l g rest
        else
          match s.give g with
          | .error stop => .error stop
          | .ok g => read l g rest

end Level

end CodeCoach.CommandLine
