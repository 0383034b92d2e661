import CodeCoach.Pattern
import CodeCoach.Review.Finding
import CodeCoach.Review.Literal
import CodeCoach.Review.NestedLoop

/-!
# Rules for JavaScript and TypeScript

On each line that is not a comment the rules speak in this order:

1. a chain of property accesses without a guard, a bug;
2. a query built by concatenation, a security issue;
3. a sink that runs injected content, a security issue;
4. debug logging, outside test files;
5. a nested loop;
6. a promise chain in a file that never says `async`.

All rules but the second look at the line with its string literals masked.
-/

namespace CodeCoach.Review.JavaScript

open Text Pattern

/-! ### Patterns -/

/-- A character that may begin an identifier. -/
def isIdentStart (c : Char) : Bool := c.isAlpha || c == '_' || c == '$'

/-- A character that may continue an identifier. -/
def isIdentPart (c : Char) : Bool := isWord c || c == '$'

def identifier : Pattern := both (one isIdentStart) (many isIdentPart)

/-- One link of a property chain. -/
def link : Pattern := both (char '.') identifier

/-- An identifier with at least two links. -/
def propertyChain : Pattern := inOrder [edge, identifier, link, link, repeated link]

/-- An assignment to a query variable of a text that is concatenated or interpolated. -/
def queryConcatenation : Pattern :=
  let quote := one fun c => c == doubleQuote || c == singleQuote
  inOrder [edge, many isWord, anyOf [wordAnyCase "query", wordAnyCase "sql"], many isWord, blanks,
    optional (char '+'), char '=', blanks,
    anyOf [
      inOrder [quote, anything, quote, blanks, char '+'],
      inOrder [anything, char '+', blanks, quote],
      inOrder [char backtick, many (· != backtick), word "$\x7b"]]]

def innerHtml : Pattern :=
  inOrder [word ".innerHTML", blanks, char '=', either (one (· != '=')) atEnd]

def documentWrite : Pattern :=
  inOrder [edge, word "document.write", optional (word "ln"), blanks, char '(']

def evalCall : Pattern := inOrder [edge, word "eval", blanks, char '(']

def debugLog : Pattern :=
  inOrder [edge, word "console.", anyOf [word "log", word "debug", word "info", word "trace"],
    blanks, char '(']

def forLoop : Pattern := inOrder [edge, word "for", blanks, char '(']

def promiseChain : Pattern :=
  inOrder [char '.', anyOf [word "then", word "catch"], blanks, char '(']

def asyncKeyword : Pattern := inOrder [edge, word "async", edge]

/-! ### Word lists -/

/-- Roots of chains that are globals of the platform and never null. -/
def globalRoots : List String :=
  ["console", "Math", "JSON", "Object", "Array", "Number", "String", "Promise", "Date", "Symbol",
    "Reflect", "document", "window", "globalThis", "navigator", "location", "process", "module",
    "exports", "require"]

/-- Words that say that a line already guards against null. -/
def nullGuards : List String := ["?.", "&&", "!= null", "!== null", "!== undefined", "typeof "]

/-- Parts of the paths of test files. -/
def testMarkers : List String := [".test.", ".spec.", "/test/", "/tests/", "__tests__"]

/-- Whether a path looks like that of a test file; backslashes count as slashes. -/
def isTestPath (path : String) : Bool :=
  let plain := replaceAll backslash ['/'] path.toList
  testMarkers.any fun marker => contains marker plain

/-- Whether a masked line is a comment. -/
def isComment (code : Line) : Bool :=
  let t := trimStart code
  startsWith "//" t || startsWith "/*" t || startsWith "*" t

/-- Whether a masked line imports or exports modules. -/
def isModuleLine (code : Line) : Bool :=
  let t := trimStart code
  startsWith "import " t || startsWith "export * " t || contains "require(" code

/-! ### Rules -/

/-- The root of a chain, up to its first dot. -/
def chainRoot (chain : List Char) : List Char := chain.takeWhile (· != '.')

/-- The chain with a question mark before each dot. -/
def guarded (chain : List Char) : List Char := replaceAll '.' ['?', '.'] chain

/-- The first property chain of a masked line whose root is no global. -/
def unguardedChain (code : Line) : Option Match :=
  if nullGuards.any (fun g => contains g code) || isModuleLine code then none
  else
    (propertyChain.findAll code).find? fun m =>
      !globalRoots.contains (String.ofList (chainRoot m.text))

def unguardedAccess (line code : Line) : Option Finding :=
  (unguardedChain code).map fun m =>
    { kind := .bug
      severity := .warning
      message := "Unguarded property access `" ++ String.ofList m.text ++
        "` may throw if a link is null or undefined"
      remedy := some ("Use optional chaining: `" ++ String.ofList (guarded m.text) ++ "`")
      column := some (columnOf line m.start.offset) }

/-- The only rule that reads the line with its literals. -/
def concatenatedQuery (line : Line) : Option Finding :=
  if !contains "==" line && queryConcatenation.occursIn line then
    some
      { kind := .security
        severity := .critical
        message := "Possible SQL injection: query built by string concatenation"
        remedy := some ("Use a parameterized query and pass values separately, e.g. " ++
          "db.query(\"SELECT * FROM t WHERE id = ?\", [id])") }
  else none

/-- The sinks with their names and remedies, in order of precedence. -/
def sinks : List (Pattern × String × String) :=
  [(innerHtml, "innerHTML assignment", "Assign textContent, or sanitize the HTML first"),
    (documentWrite, "document.write", "Build nodes with createElement and appendChild"),
    (evalCall, "eval", "Parse data with JSON.parse or use an explicit dispatch table")]

/-- The first sink of the list that occurs. -/
def dangerousSink (line code : Line) : Option Finding :=
  sinks.findSome? fun (pattern, sink, remedy) =>
    (pattern.find code).map fun m =>
      { kind := .security
        severity := .warning
        message := "Dangerous sink `" ++ sink ++ "` can execute injected content"
        remedy := some remedy
        column := some (columnOf line m.start.offset) }

def debugLogging (testFile : Bool) (line code : Line) : Option Finding :=
  if testFile then none
  else
    (debugLog.find code).map fun m =>
      { kind := .style
        severity := .info
        message := "Debug logging left in production code"
        remedy := some "Remove the console call or route it through a logger"
        column := some (columnOf line m.start.offset) }

/-- The following lines are masked only where the line itself opens a loop. -/
def nestedLoop (code : Line) (rest : List Line) : Option Finding :=
  let opens := forLoop.occursIn
  if opens code && nestedAt opens code ((rest.take lookahead).map mask) then
    some
      { kind := .performance
        severity := .warning
        message := "Nested loop detected: O(n²) work as inputs grow"
        remedy := some "Index the inner collection in a Map or Set before the outer loop" }
  else none

def promiseWithoutAsync (usesAsync : Bool) (code : Line) : Option Finding :=
  if !usesAsync && promiseChain.occursIn code then
    some
      { kind := .style
        severity := .info
        message := "Promise chain in a file that never uses async/await"
        remedy := some "Consider rewriting the chain with async/await and try/catch" }
  else none

/-- The rules in their order. -/
def rules (usesAsync testFile : Bool) : RuleSet := fun line rest =>
  let code := mask line
  if isComment code then []
  else
    (unguardedAccess line code).toList ++ (concatenatedQuery line).toList ++
      (dangerousSink line code).toList ++ (debugLogging testFile line code).toList ++
      (nestedLoop code rest).toList ++ (promiseWithoutAsync usesAsync code).toList

/-- Whether some line has the word `async` outside its string literals. -/
def usesAsync (lines : List Line) : Bool := lines.any fun line => asyncKeyword.occursIn (mask line)

/-- The issues of a document's lines. -/
def issues (path : String) (lines : List Line) : List Issue :=
  overLines (rules (usesAsync lines) (isTestPath path)) path 0 lines

end CodeCoach.Review.JavaScript
