import CodeCoach.CommandLine.Argument
import CodeCoach.Config

/-!
# Invocations

* `Subcommand`, what can be asked for, and `Verb`, the words for it;
* `Invocation`, a subcommand with the options that each of them may have;
* `Invocation.parse`, the invocation that arguments and environment make.

An option may be given before and behind the subcommand; the one behind counts, then the one before,
then the variable of the environment.
-/

namespace CodeCoach.CommandLine

/-- What can be asked for. -/
inductive Subcommand
  | analyze (file : String) (language personality : Option String) (asJson : Bool)
  | watch (directory : Option String)
  | stats (asJson : Bool)
  | patterns (asJson : Bool)
  | reset
  | personalities
  deriving DecidableEq, Repr

/-- The words for subcommands. -/
inductive Verb
  | analyze
  | watch
  | stats
  | patterns
  | reset
  | personalities
  deriving DecidableEq, Repr

/-- What is asked for, with its options. -/
structure Invocation where
  subcommand : Subcommand
  dataDir : Option String
  log : Option String
  logFile : Option String
  /-- Feedback is kept in memory only. -/
  ephemeral : Bool
  /-- Nothing is said that was not asked for. -/
  quiet : Bool
  deriving DecidableEq, Repr

/-! ### Levels -/

def dataDirSwitch : Switch := ⟨"data-dir", none, .path⟩

def logSwitch : Switch := ⟨"log", none, .text⟩

def logFileSwitch : Switch := ⟨"log-file", none, .path⟩

/-- The switches of all levels. -/
def commonSwitches : List Switch :=
  [dataDirSwitch, logSwitch, logFileSwitch, ⟨"ephemeral", none, .mark⟩,
    ⟨"quiet", some 'q', .mark⟩, ⟨"help", some 'h', .stop .help⟩]

/-- The arguments before the subcommand. -/
def outerLevel : Level where
  switches := commonSwitches ++ [⟨"version", some 'V', .stop .version⟩]
  words := .command

namespace Verb

def all : List Verb := [analyze, watch, stats, patterns, reset, personalities]

def name : Verb → String
  | analyze => "analyze"
  | watch => "watch"
  | stats => "stats"
  | patterns => "patterns"
  | reset => "reset"
  | personalities => "personalities"

def ofName? (s : String) : Option Verb := all.find? (·.name == s)

/-- The switches of the subcommand alone. -/
def switches : Verb → List Switch
  | analyze =>
    [⟨"language", none, .text⟩, ⟨"personality", none, .text⟩, ⟨"json", none, .mark⟩]
  | stats => [⟨"json", none, .mark⟩]
  | patterns => [⟨"json", none, .mark⟩]
  | _ => []

def words : Verb → Words
  | analyze => .path
  | watch => .path
  | _ => .nothing

/-- The arguments behind the subcommand. -/
def level (v : Verb) : Level := ⟨commonSwitches ++ v.switches, v.words⟩

/-- The subcommand with what was given behind it. Only an analysis cannot do without a word. -/
def subcommand? (v : Verb) (g : Given) : Option Subcommand :=
  match v with
  | analyze =>
    g.word.map fun file =>
      .analyze file (g.value? "language") (g.value? "personality") (g.has "json")
  | watch => some (.watch g.word)
  | stats => some (.stats (g.has "json"))
  | patterns => some (.patterns (g.has "json"))
  | reset => some .reset
  | personalities => some .personalities

end Verb

/-! ### Reading -/

/-- The variables that stand for common switches. -/
def switchVariables : List (Switch × String) :=
  [(dataDirSwitch, "CODEBUDDY_DATA_DIR"), (logSwitch, "CODEBUDDY_LOG"),
    (logFileSwitch, "CODEBUDDY_LOG_FILE")]

/-- Whether every switch takes the value of its variable, or was given on a level without it. -/
def acceptsVariables (env : Environment) (g : Given) : Bool :=
  switchVariables.all fun (s, name) => g.has s.name || (env.get? name).all s.accepts

/-- The value of a common switch: first the one behind the subcommand counts, then the one before
it, then the variable. -/
def layered (env : Environment) (outer inner : Given) (s : Switch) : Option String :=
  ((inner.value? s.name).or (outer.value? s.name)).or
    ((switchVariables.lookup s).bind fun name => env.get? name)

/-- Whether help can be had on some words: on one subcommand, or none. -/
def hasHelp : List String → Bool
  | [] => true
  | [name] => name == "help" || (Verb.ofName? name).isSome
  | _ => false

namespace Invocation

/-- What is asked of the configuration. -/
def request (i : Invocation) : ConfigRequest := ⟨i.dataDir, i.log, i.logFile⟩

/-- The invocation with a verb, from what was given before and behind it. -/
def ofGiven (env : Environment) (v : Verb) (outer inner : Given) : Except Stop Invocation :=
  if !acceptsVariables env inner || !acceptsVariables env outer then .error .misuse
  else
    match v.subcommand? inner with
    | none => .error .misuse
    | some subcommand =>
      .ok {
        subcommand
        dataDir := layered env outer inner dataDirSwitch
        log := layered env outer inner logSwitch
        logFile := layered env outer inner logFileSwitch
        ephemeral := inner.has "ephemeral" || outer.has "ephemeral"
        quiet := inner.has "quiet" || outer.has "quiet" }

/-- The invocation that arguments make. -/
def parse (env : Environment) (args : List String) : Except Stop Invocation := do
  let (outer, rest) ← outerLevel.read .empty args
  match rest with
  | [] => .error .misuse
  | name :: rest =>
    match Verb.ofName? name with
    | some v =>
      let (inner, _) ← v.level.read .empty rest
      ofGiven env v outer inner
    | none => if name == "help" && hasHelp rest then .error .help else .error .misuse

end Invocation

end CodeCoach.CommandLine
