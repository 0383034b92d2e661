import CodeCoach.Disk
import CodeCoach.Settings
import CodeCoach.Toml.Parser

/-!
# Configuration

Every option has the value of the highest layer that gives one: what the caller asks for, the
environment, the file `config.toml` of the data directory, the default.

* `ConfigFile`, what a file may give, and `ConfigFile.load?`; a file that cannot be read gives
  nothing at all;
* `Environment`, the variables of the environment;
* `Config`, all options, and `Config.resolve`.
-/

namespace CodeCoach

/-! ### The file -/

/-- What a configuration file gives. -/
structure ConfigFile where
  log : Option String
  logFormat : Option String
  logFile : Option String
  enhancerBase : Option String
  enhancerToken : Option String
  coach : Option Settings
  deriving DecidableEq, Repr

namespace Settings

/-- A source of the values of settings. -/
abbrev Source := Nat → String → Option Toml

/-- A setting that may be left out. -/
def given (source : Source) (position : Nat) (name : String) (dflt : α) (read : Toml → Option α) :
    Option α :=
  match source position name with
  | some v => read v
  | none => some dflt

/-- The settings of a source; each one that is left out has its default. -/
def ofSource? (source : Source) : Option Settings := do
  let d := Settings.default
  let proactive ← given source 0 "proactive_analysis_enabled" d.proactive Toml.bool?
  let frequency ←
    given source 1 "intervention_frequency" d.frequency (Toml.variant? Frequency.ofName?)
  let maxSuggestions ← given source 2 "max_suggestions_per_cycle" d.maxSuggestions Toml.nat?
  let personality ← given source 3 "active_personality" d.personality Toml.str?
  let enhance ← given source 4 "use_ai_enhancement" d.enhance Toml.bool?
  let cooldownSeconds ← given source 5 "cooldown_seconds" d.cooldownSeconds Toml.nat?
  let debounceMillis ← given source 6 "debounce_ms" d.debounceMillis Toml.nat?
  pure {
    proactive, frequency, maxSuggestions, personality, enhance, cooldownSeconds, debounceMillis }

/-- Settings are given by a table or by an array in their order. A time stands for a table that
gives none of them. -/
def ofToml? : Toml → Option Settings
  | .table _ fields => ofSource? fun _ name => Toml.get? fields name
  | .arr items => ofSource? fun position _ => items[position]?
  | .tables items =>
    ofSource? fun position _ => (items[position]?).map (Toml.table .header)
  | .time => some default
  | _ => none

end Settings

namespace ConfigFile

def empty : ConfigFile := ⟨none, none, none, none, none, none⟩

/-- A field that may be left out. -/
def given (fields : Toml.Fields) (name : String) (read : Toml → Option α) : Option (Option α) :=
  match Toml.get? fields name with
  | some v => (read v).map some
  | none => some none

def ofFields? (fields : Toml.Fields) : Option ConfigFile := do
  let log ← given fields "log" Toml.str?
  let logFormat ← given fields "log_format" Toml.str?
  let logFile ← given fields "log_file" Toml.str?
  let enhancerBase ← given fields "ai_base_url" Toml.str?
  let enhancerToken ← given fields "ai_token" Toml.str?
  let coach ← given fields "coach" Settings.ofToml?
  pure { log, logFormat, logFile, enhancerBase, enhancerToken, coach }

/-- The configuration of a text. -/
def ofText? (text : String) : Option ConfigFile := (Toml.parse? text).bind ofFields?

/-- The configuration file of a data directory, if there is one that can be read. -/
def load? (disk : Disk) (dataDir : String) : Option ConfigFile :=
  match disk.readText (Path.join dataDir "config.toml") with
  | .ok text => ofText? text
  | .error _ => none

end ConfigFile

/-! ### The environment -/

/-- Variables and their values. -/
abbrev Environment := Table String String

namespace Environment

/-- The value of a variable, unless it is empty. -/
def nonempty? (env : Environment) (name : String) : Option String :=
  (env.get? name).filter fun v => !v.isEmpty

end Environment

/-! ### All layers -/

/-- All options. -/
structure Config where
  dataDir : String
  log : String
  logFormat : String
  logFile : Option String
  enhancerBase : String
  enhancerToken : Option String
  coach : Settings
  deriving DecidableEq, Repr

/-- What the caller asks for. -/
structure ConfigRequest where
  dataDir : Option String
  log : Option String
  logFile : Option String
  deriving DecidableEq, Repr

namespace Config

def defaultEnhancerBase : String := "http://127.0.0.1:8787"

/-- The data directory of a user who asks for none. -/
def defaultDataDir (env : Environment) : String :=
  match env.get? "XDG_DATA_HOME", env.get? "HOME" with
  | some base, _ => Path.join base "codebuddy"
  | none, some home => Path.join (Path.join (Path.join home ".local") "share") "codebuddy"
  | none, none => ".codebuddy"

/-- The settings of a file with the personality of the environment, in normal form. -/
def resolveSettings (env : Environment) (coach : Option Settings) : Settings :=
  let settings := coach.getD .default
  let settings :=
    match env.nonempty? "CODEBUDDY_PERSONALITY" with
    | some id => { settings with personality := id }
    | none => settings
  settings.normalized

/-- The data directory of a request. -/
def chosenDataDir (env : Environment) (request : ConfigRequest) : String :=
  request.dataDir.getD (defaultDataDir env)

/-- The options that the layers give. -/
def resolve (disk : Disk) (env : Environment) (request : ConfigRequest) : Config :=
  let dataDir := chosenDataDir env request
  let file := (ConfigFile.load? disk dataDir).getD .empty
  { dataDir := dataDir
    log := (request.log.or file.log).getD "info"
    logFormat := ((env.nonempty? "CODEBUDDY_LOG_FORMAT").or file.logFormat).getD "pretty"
    logFile := request.logFile.or file.logFile
    enhancerBase :=
      ((env.nonempty? "CODEBUDDY_AI_URL").or file.enhancerBase).getD defaultEnhancerBase
    enhancerToken := (env.nonempty? "CODEBUDDY_AI_TOKEN").or file.enhancerToken
    coach := resolveSettings env file.coach }

/-- The folder in which feedback is kept. -/
def feedbackDir (c : Config) : String := Path.join c.dataDir "feedback"

end Config

end CodeCoach
