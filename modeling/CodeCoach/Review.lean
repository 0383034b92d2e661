import CodeCoach.Review.Family
import CodeCoach.Review.Generic
import CodeCoach.Review.JavaScript
import CodeCoach.Review.Markup
import CodeCoach.Review.Python

/-!
# Review of a document

A review is a function of the text, the language tag and the path.  It lists the issues line by
line, and within a line in the order of the rules of the language family.
-/

namespace CodeCoach.Review

open Text

/-- The issues of lines under the rules of a family. -/
def Family.issues (path : String) (lines : List Line) : Family → List Issue
  | javaScript => JavaScript.issues path lines
  | python => Python.issues path lines
  | markup => Markup.issues path lines
  | generic => Generic.issues path lines

/-- The issues of a document. -/
def ofDocument (d : Document) : List Issue :=
  (Family.ofTag d.languageTag).issues d.path (linesOf d.text)

end CodeCoach.Review
