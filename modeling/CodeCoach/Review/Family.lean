import CodeCoach.Text.Blank
import CodeCoach.Text.Case

/-!
# Language families

The language tag of a document selects one of four families of rules. Tags are compared without
the blanks around them and without regard to ASCII case; every other tag is generic.
-/

namespace CodeCoach.Review

/-- A set of rules. -/
inductive Family
  | javaScript
  | python
  | markup
  | generic
  deriving DecidableEq, Repr

namespace Family

def name : Family → String
  | javaScript => "javascript"
  | python => "python"
  | markup => "markup"
  | generic => "generic"

/-- The tags of each family but the generic one. -/
def tags : Family → List String
  | javaScript => ["javascript", "typescript", "javascriptreact", "typescriptreact", "js", "ts",
      "jsx", "tsx", "mjs", "cjs"]
  | python => ["python", "py"]
  | markup => ["html", "htm", "xhtml", "vue", "svelte", "handlebars", "hbs", "jinja",
      "django-html", "erb", "astro"]
  | generic => []

/-- The family of a tag. -/
def ofTag (tag : String) : Family :=
  let plain := Text.lowerAscii (Text.trimString tag)
  ([javaScript, python, markup].find? fun f => f.tags.contains plain).getD generic

end Family

end CodeCoach.Review
