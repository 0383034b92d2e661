import CodeCoach.Pattern
import CodeCoach.Review.Finding
import CodeCoach.Review.Literal

/-!
# Rules for markup and templates

The rules speak in this order on each line:

1. an image without alternative text, one accessibility issue for each tag;
2. a button with neither an accessible label nor visible text, one issue for each tag;
3. an inline style attribute.

A button's text is looked for up to its closing tag on the same line, and on the next line when
the opening tag ends the line.
-/

namespace CodeCoach.Review.Markup

open Text Pattern

/-! ### Patterns -/

/-- The part of a tag before its closing bracket. -/
def insideTag : Pattern := many (· != '>')

def imageTag : Pattern := inOrder [wordAnyCase "<img", edge, insideTag]

/-- The start of an attribute: the start of the text, a blank or a colon. -/
def attributeStart : Pattern := either atStart (one fun c => isBlank c || c == ':')

def altAttribute : Pattern := inOrder [attributeStart, wordAnyCase "alt", blanks, char '=']

def buttonName : Pattern := both (wordAnyCase "<button") edge

def buttonOpen : Pattern := inOrder [buttonName, insideTag, char '>']

def buttonClose : Pattern := inOrder [wordAnyCase "</button", blanks, char '>']

def ariaLabel : Pattern :=
  inOrder [edge, wordAnyCase "aria-label", optional (wordAnyCase "ledby"), blanks, char '=']

def inlineStyle : Pattern :=
  inOrder [attributeStart, wordAnyCase "style", blanks, char '=', blanks,
    one fun c => c == doubleQuote || c == singleQuote || c == '\x7b']

/-! ### Rules -/

def imageWithoutAlt (line : Line) (m : Match) : Option Finding :=
  if altAttribute.occursIn m.text then none
  else
    some
      { kind := .accessibility
        severity := .warning
        message := "Image is missing alt text for screen readers"
        remedy := some
          "Add a descriptive alt attribute, or alt=\"\" for purely decorative images"
        column := some (columnOf line m.start.offset) }

/-- A text without the tags in it, where `inside` says whether it begins within one. A tag goes up
to the next closing bracket, or to the end of the text. -/
def withoutTags (inside : Bool) : List Char → List Char
  | [] => []
  | c :: rest =>
    if inside then withoutTags (c != '>') rest
    else if c == '<' then withoutTags true rest
    else c :: withoutTags false rest

/-- The attributes of a button, from its opening tag: what stands between the seven characters of
`<button` and the closing bracket. -/
def buttonAttributes (tag : List Char) : List Char := (tag.drop 7).dropLast

/-- The text up to the closing tag of a button, if there is one. -/
def upToClose (cs : List Char) : Option (List Char) :=
  (buttonClose.find cs).map fun m => cs.take (cs.length - m.start.rest.length)

/-- What counts as the content of a button, given the text after its opening tag and the following
lines. The next line is looked at only when the opening tag ends its own. -/
def buttonContent (after : List Char) (rest : List Line) : List Char :=
  match upToClose after with
  | some inner => inner
  | none =>
    if isAllBlank after then
      match rest with
      | [] => []
      | next :: _ => (upToClose next).getD next
    else after

/-- Whether a button shows any text outside its tags. -/
def hasVisibleText (after : List Char) (rest : List Line) : Bool :=
  !isAllBlank (withoutTags false (buttonContent after rest))

def namelessButton (line : Line) (rest : List Line) (m : Match) : Option Finding :=
  if ariaLabel.occursIn (buttonAttributes m.text) || hasVisibleText m.stop.rest rest then none
  else
    some
      { kind := .accessibility
        severity := .info
        message := "Button has no accessible name"
        remedy := some "Give the button visible text or an aria-label"
        column := some (columnOf line m.start.offset) }

def styleAttribute (line : Line) : Option Finding :=
  (inlineStyle.find line).map fun m =>
    { kind := .style
      severity := .info
      message := "Inline style attribute"
      remedy := some "Move the declarations into a stylesheet class"
      column := some (columnOf line m.start.offset) }

/-- The rules in their order. -/
def rules : RuleSet := fun line rest =>
  (imageTag.findAll line).filterMap (imageWithoutAlt line) ++
    (buttonOpen.findAll line).filterMap (namelessButton line rest) ++
    (styleAttribute line).toList

/-- The issues of a document's lines. -/
def issues (path : String) (lines : List Line) : List Issue := overLines rules path 0 lines

end CodeCoach.Review.Markup
