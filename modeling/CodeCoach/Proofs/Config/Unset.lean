import CodeCoach.Config
import CodeCoach.Proofs.Path
import Mathlib.Data.Option.Basic

/-!
# Empty variables

An empty variable of the environment counts as one that is not set, but not where it gives the place
of the data directory.

* `Environment.nonempty?_set_empty`, which says so of the variables that give options;
* `Config.chosenDataDir_set_empty_iff`, of those that give the data directory;
* `Config.empty_as_unset_iff`: when the configuration is that without the variable.
-/

namespace CodeCoach

/-- Options do not see an empty variable. -/
theorem Environment.nonempty?_set_empty (env : Environment) (name other : String) :
    Environment.nonempty? (env.set name "") other = Environment.nonempty? (env.erase name) other := by
  unfold Environment.nonempty?
  rw [Table.get?_set, Table.get?_erase]
  by_cases h : other = name
  · simp [h]
  · simp [h]

namespace Config

variable {env env' : Environment} {request : ConfigRequest}

/-- A path in a base has a slash. -/
theorem mem_slash_join {base other : String} (hbase : base ≠ "")
    (hother : Path.isAbsolute other = false) : '/' ∈ (Path.join base other).toList := by
  rw [Path.join, String.toList_ofList, Path.joined_of_relative hother]
  have hne : base.toList ≠ [] := by simpa using hbase
  rcases Path.asBase_of_ne hne with ⟨hpart, cs, hcs⟩ | hpart
  · rw [hpart, hcs]
    simp
  · rw [hpart]
    simp

theorem join_ne_empty {base other : String} (hother : other ≠ "") : Path.join base other ≠ "" := by
  have hlist : other.toList ≠ [] := by simpa using hother
  rw [Path.join, Path.joined, ne_eq, String.ofList_eq_empty_iff]
  split
  · exact hlist
  · simp [hother]

/-- The environment gives options by its variables that are not empty, and the data directory. -/
theorem resolve_congr (disk : Disk) (hdir : chosenDataDir env request = chosenDataDir env' request)
    (hoptions : ∀ name, env.nonempty? name = env'.nonempty? name) :
    resolve disk env request = resolve disk env' request := by
  unfold resolve resolveSettings
  simp only [hdir, hoptions]

theorem defaultDataDir_of_base {base : String} (h : env.get? "XDG_DATA_HOME" = some base) :
    defaultDataDir env = Path.join base "codebuddy" := by
  rw [defaultDataDir, h]

/-- Without a base the data directory is not in the working directory under its own name. -/
theorem defaultDataDir_ne (h : env.get? "XDG_DATA_HOME" = none) :
    defaultDataDir env ≠ "codebuddy" := by
  rw [defaultDataDir, h]
  cases env.get? "HOME" with
  | none => decide
  | some home =>
    intro heq
    have hshare : Path.join (Path.join home ".local") "share" ≠ "" := join_ne_empty (by decide)
    have hslash := mem_slash_join hshare (show Path.isAbsolute "codebuddy" = false by decide)
    rw [show Path.join (Path.join (Path.join home ".local") "share") "codebuddy" = _ from heq] at hslash
    exact absurd hslash (by decide)

/-- The data directory is the same with an empty variable as without it only where the variable is
not looked at. -/
theorem chosenDataDir_set_empty_iff (env : Environment) (request : ConfigRequest) (name : String) :
    chosenDataDir (env.set name "") request = chosenDataDir (env.erase name) request ↔
      request.dataDir.isSome ∨
        (name ≠ "XDG_DATA_HOME" ∧ (name = "HOME" → (env.get? "XDG_DATA_HOME").isSome)) := by
  unfold chosenDataDir
  cases request.dataDir with
  | some dir => simp
  | none =>
    simp only [Option.getD_none, Option.isSome_none, Bool.false_eq_true, false_or]
    by_cases hbase : name = "XDG_DATA_HOME"
    · subst hbase
      have hset : (env.set "XDG_DATA_HOME" "").get? "XDG_DATA_HOME" = some "" := by
        rw [Table.get?_set, if_pos rfl]
      have herase : (env.erase "XDG_DATA_HOME").get? "XDG_DATA_HOME" = none := by
        rw [Table.get?_erase, if_pos rfl]
      have hempty : defaultDataDir (env.set "XDG_DATA_HOME" "") = "codebuddy" :=
        defaultDataDir_of_base hset
      have hunset : defaultDataDir (env.erase "XDG_DATA_HOME") ≠ "codebuddy" :=
        defaultDataDir_ne herase
      rw [hempty]
      simpa using Ne.symm hunset
    · have hother : "XDG_DATA_HOME" ≠ name := Ne.symm hbase
      unfold defaultDataDir
      simp only [Table.get?_set, Table.get?_erase, if_neg hother]
      by_cases hhome : name = "HOME"
      · subst hhome
        cases env.get? "XDG_DATA_HOME" with
        | some base => simp
        | none => simp; decide
      · simp [hbase, hhome, Ne.symm hhome]

/-- **An empty variable counts as one that is not set,** whichever it is, for every disk, environment
and request, but for the place of the data directory: where none is asked for, an empty
`XDG_DATA_HOME` gives another one, and so does an empty `HOME` where `XDG_DATA_HOME` is not set. -/
theorem empty_as_unset_iff (disk : Disk) (env : Environment) (request : ConfigRequest)
    (name : String) :
    let empty := resolve disk (env.set name "") request
    let unset := resolve disk (env.erase name) request
    (empty = unset ↔ empty.dataDir = unset.dataDir) ∧
    (empty.dataDir = unset.dataDir ↔ request.dataDir.isSome ∨
      (name ≠ "XDG_DATA_HOME" ∧ (name = "HOME" → (env.get? "XDG_DATA_HOME").isSome))) := by
  intro empty unset
  refine ⟨⟨congrArg dataDir, fun hdir => ?_⟩, chosenDataDir_set_empty_iff env request name⟩
  exact resolve_congr disk hdir (Environment.nonempty?_set_empty env name)

/-- With an empty base the file of the user's data directory is not looked at. -/
theorem empty_base_not_as_unset :
    let disk : Disk := {
      nodes := ⟨[([['h']], .directory), ([['h'], ".local".toList], .directory),
        ([['h'], ".local".toList, "share".toList], .directory),
        ([['h'], ".local".toList, "share".toList, "codebuddy".toList], .directory),
        ([['h'], ".local".toList, "share".toList, "codebuddy".toList, "config.toml".toList],
          .file (.text "log = \"debug\"\n"))]⟩
      workingDirectory := [] }
    let env : Environment := ⟨[("HOME", "h")]⟩
    let empty := resolve disk (env.set "XDG_DATA_HOME" "") ⟨none, none, none⟩
    let unset := resolve disk (env.erase "XDG_DATA_HOME") ⟨none, none, none⟩
    (empty.dataDir, empty.log) = ("codebuddy", "info") ∧
      (unset.dataDir, unset.log) = ("h/.local/share/codebuddy", "debug") := by
  decide +kernel

end Config

end CodeCoach
