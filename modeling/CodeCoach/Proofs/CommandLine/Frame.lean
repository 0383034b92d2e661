import CodeCoach.CommandLine
import CodeCoach.Proofs.FeedbackStore.Emptied
import CodeCoach.Proofs.Session.Request

/-!
# What command lines write

Where no log is kept, only a watch and a reset that is not in memory change a disk.

* `Session.store_request`, `Coach.store_analyze`: a review learns nothing;
* `CommandLine.Invocation.carryOut_of_readsOnly`, `carryOut_of_reset` and `carryOut_watch`, which say
  what comes of each invocation, and `carryOut_of_report`: what is reported is what is stored;
* `CommandLine.Call`, a run with all that it is given, and `CommandLine.after`, the disk after several
  of them;
* `CommandLine.steady_after`: runs leave an empty store empty;
* `CommandLine.resets_alone_write`, what a sequence of runs may do to a disk.
-/

namespace CodeCoach

/-! ### Reviews -/

theorem Engine.store_run_goOn (e : Engine) (path : String) (answers : List Answer) :
    (e.run (answers.map (.goOn path))).store = e.store := by
  induction answers generalizing e with
  | nil => rfl
  | cons a answers ih => exact (ih (e.goOn path a)).trans (e.store_goOn path a)

/-- A request learns nothing. -/
theorem Session.store_request {s : Session} (hgate : s.gate = none) (d : Document)
    (trigger : Trigger) (now : Instant) :
    (s.request d trigger now).2.engine.store = s.engine.store := by
  have hstart := s.engine.store_start d trigger now
  rcases heq : s.engine.start d trigger now with ⟨_ | reason, begun⟩
  · obtain ⟨answers, _, -, hrequest⟩ := request_of_admitted hgate (congrArg Prod.fst heq)
    rw [hrequest]
    exact (Engine.store_run_goOn _ d.path answers).trans hstart
  · rw [heq] at hstart
    unfold request
    rw [heq]
    exact hstart

theorem Coach.store_analyze {s : Session} (hgate : s.gate = none) (path : String)
    (language personality : Option String) (asJson : Bool) :
    (analyze s path language personality asJson).2.engine.store = s.engine.store := by
  unfold analyze
  cases hset : withPersonality s personality with
  | error e => rfl
  | ok s' =>
    -- The personality is one of the settings.
    have hsame : s'.engine.store = s.engine.store ∧ s'.gate = none := by
      unfold withPersonality at hset
      split at hset
      · obtain rfl := Except.ok.inj hset
        exact ⟨rfl, hgate⟩
      · split at hset
        · cases hset
        · obtain rfl := Except.ok.inj hset
          exact ⟨rfl, hgate⟩
    cases hload : document s' path language with
    | error e => simpa only [hload] using hsame.1
    | ok d =>
      simp only [hload]
      exact (Session.store_request hsame.2 d .onDemand s'.engine.clock).trans hsame.1

namespace CommandLine

open FeedbackStore (EmptyAt Empties Steady stored)
open Folder (directoryPart)

/-! ### Resets and crash reports -/

theorem store_build (d : Disk) (config : Config) (ephemeral : Bool) (ids : Nat → String)
    (clock : Instant) :
    (Coach.build d config ephemeral ids clock).engine.store =
      .load ⟨d, if ephemeral then .memory .empty .none else .folder config.feedbackDir⟩ := rfl

theorem disk_reset (s : Session) (quiet : Bool) :
    (reset s quiet).2 = s.engine.store.reset.2.storage.disk := by
  unfold reset
  rcases s.engine.store.reset with ⟨_ | _, store⟩ <;> rfl

theorem ok_of_code (s : Session) (quiet : Bool) (h : (reset s quiet).1.code = 0) :
    s.engine.store.reset.1 = .ok () := by
  unfold reset at h
  rcases hreset : s.engine.store.reset with ⟨e | ⟨⟩, store⟩
  · rw [hreset] at h
    cases h
  · rfl

/-- The report of a crash is no file of a store. -/
theorem steady_dropCrashReport (a : Address) (d : Disk) (dataDir : String) :
    Steady a d (dropCrashReport d dataDir) := by
  have hname : ∀ key, Folder.fileName key ≠ "crash.log".toList := by
    intro key e
    have hlast := congrArg List.getLast? e
    simp [Folder.fileName] at hlast
  have hpath : (crashPath dataDir).toList = directoryPart dataDir ++ "crash.log".toList :=
    Folder.toList_join (by decide) dataDir
  unfold dropCrashReport
  split
  · unfold Disk.remove
    split
    · next address content hfollow =>
      rw [Disk.follow, hpath] at hfollow
      obtain ⟨-, b, -, htarget⟩ := Disk.leads_of_followChars (Folder.isDirectoryPart dataDir)
        (by decide) ⟨by decide, by decide, by decide, by decide⟩ hfollow
      obtain ⟨rfl, hnode⟩ := Disk.target_eq_present.1 htarget.symm
      exact FeedbackStore.steady_clear hname (by rw [hnode]; exact fun e => by cases e)
    · exact .refl a d
  · exact .refl a d

/-! ### Invocations -/

/-- What is reported of what was learned. -/
def Subcommand.report? (l : Learning) : Subcommand → Option String
  | .stats asJson => some (if asJson then Report.statsJson l.stats else Report.stats l.stats)
  | .patterns asJson => some (if asJson then Report.patternsJson l else Report.patterns l)
  | _ => none

namespace Invocation

/-- An invocation that is no watch, and no reset but one of a store in memory. -/
def ReadsOnly (i : Invocation) : Prop :=
  match i.subcommand with
  | .watch _ => False
  | .reset => i.ephemeral = true
  | _ => True

/-- Where an invocation keeps feedback. -/
def medium (i : Invocation) (config : Config) : Medium :=
  if i.ephemeral then .memory .empty .none else .folder config.feedbackDir

variable {i : Invocation} {d : Disk} {config : Config} {ids : Nat → String} {clock : Instant}

theorem medium_of_ephemeral (h : i.ephemeral = true) : i.medium config = .memory .empty .none :=
  if_pos h

theorem medium_of_not_ephemeral (h : i.ephemeral = false) :
    i.medium config = .folder config.feedbackDir := by
  rw [medium, h]
  rfl

theorem readsOnly_or (i : Invocation) :
    i.ReadsOnly ∨ (i.subcommand = .reset ∧ i.ephemeral = false) ∨
      ∃ directory, i.subcommand = .watch directory := by
  unfold ReadsOnly
  cases i.subcommand with
  | watch directory => exact .inr (.inr ⟨directory, rfl⟩)
  | reset =>
    cases i.ephemeral with
    | true => exact .inl rfl
    | false => exact .inr (.inl ⟨rfl, rfl⟩)
  | _ => exact .inl trivial

/-- A report is of what is stored, and changes nothing. -/
theorem carryOut_of_report {text : String}
    (h : i.subcommand.report? (stored ⟨d, i.medium config⟩) = some text) :
    i.carryOut d config ids clock = .ended (.ok text) d := by
  unfold carryOut
  cases hsub : i.subcommand with
  | stats asJson =>
    rw [hsub] at h
    obtain rfl := Option.some.inj h
    rfl
  | patterns asJson =>
    rw [hsub] at h
    obtain rfl := Option.some.inj h
    rfl
  | _ =>
    rw [hsub] at h
    cases h

theorem carryOut_of_reset (h : i.subcommand = .reset) :
    i.carryOut d config ids clock =
      .ended (reset (Coach.build d config i.ephemeral ids clock) i.quiet).1
        (FeedbackStore.load ⟨d, i.medium config⟩).reset.2.storage.disk := by
  have hdisk := disk_reset (Coach.build d config i.ephemeral ids clock) i.quiet
  rw [store_build, ← medium] at hdisk
  rw [← hdisk]
  unfold carryOut
  rw [h]

/-- An invocation that only reads ends with the disk that it found. -/
theorem carryOut_of_readsOnly (h : i.ReadsOnly) :
    ∃ finish, i.carryOut d config ids clock = .ended finish d := by
  unfold ReadsOnly at h
  cases hsub : i.subcommand with
  | watch directory =>
    rw [hsub] at h
    exact h.elim
  | reset =>
    rw [hsub] at h
    rw [carryOut_of_reset hsub, medium_of_ephemeral h, FeedbackStore.reset_eq]
    exact ⟨_, congrArg _ (Storage.disk_setAll_memory d .empty .none _)⟩
  | analyze file language personality asJson =>
    have hstore := Coach.store_analyze (s := Coach.build d config i.ephemeral ids clock) rfl file
      language personality asJson
    unfold carryOut
    rw [hsub]
    exact ⟨_, congrArg (fun store => Course.ended _ store.storage.disk) hstore⟩
  | _ =>
    unfold carryOut
    rw [hsub]
    exact ⟨_, rfl⟩

/-- A reset ends well only if all could be written. -/
theorem reset_of_code {finish : Finish} {e : Disk} (h : i.subcommand = .reset)
    (hended : i.carryOut d config ids clock = .ended finish e) (hcode : finish.code = 0) :
    (FeedbackStore.load ⟨d, i.medium config⟩).reset.1 = .ok () := by
  rw [carryOut_of_reset h] at hended
  obtain ⟨rfl, -⟩ := Course.ended.inj hended
  have hok := ok_of_code (Coach.build d config i.ephemeral ids clock) i.quiet hcode
  rwa [store_build, ← medium] at hok

/-- A watch does not get further than the report of a crash, or goes on from there. -/
theorem carryOut_watch {directory : Option String} (h : i.subcommand = .watch directory) :
    (∃ finish, i.carryOut d config ids clock = .ended finish (dropCrashReport d config.dataDir)) ∨
      ∃ place s, i.carryOut d config ids clock = .watching place s ∧
        s.engine.store.storage.disk = dropCrashReport d config.dataDir := by
  unfold carryOut watch
  rw [h]
  simp only
  split
  · exact .inl ⟨_, rfl⟩
  · exact .inr ⟨_, _, rfl, rfl⟩

end Invocation

/-! ### Runs -/

/-- The end of a run that does not go on. -/
def Course.finish? : Course → Option Finish
  | .ended finish _ => some finish
  | .watching _ _ => none

theorem Course.exists_ended {course : Course} {n : Nat}
    (h : course.finish?.map Finish.code = some n) :
    ∃ finish e, course = .ended finish e ∧ finish.code = n := by
  cases course with
  | ended finish e => exact ⟨finish, e, rfl, Option.some.inj h⟩
  | watching directory s => cases h

/-- A run with all that it is given. -/
structure Call where
  env : Environment
  args : List String
  workingDirectory : Address
  ids : Nat → String
  clock : Instant
  /-- The disk that a watch leaves in the end, when it began with a session. -/
  leaves : Session → Disk

namespace Call

variable {c : Call} {i : Invocation} {d : Disk} {a : Address}

/-- What the arguments ask for. -/
def Asks (c : Call) (i : Invocation) : Prop := Invocation.parse c.env c.args = .ok i

/-- A disk as the run finds it. -/
def disk (c : Call) (d : Disk) : Disk := { d with workingDirectory := c.workingDirectory }

def config (c : Call) (d : Disk) (i : Invocation) : Config :=
  Config.resolve (c.disk d) c.env i.request

def course (c : Call) (d : Disk) : Course := run (c.disk d) c.env c.ids c.clock c.args

/-- The disk after the run. -/
def after (c : Call) (d : Disk) : Disk :=
  match c.course d with
  | .ended _ e => e
  | .watching _ s => c.leaves s

/-- The log has no file. -/
def Unlogged (c : Call) (d : Disk) : Prop := ∀ i, c.Asks i → (c.config d i).logFile = none

instance (c : Call) (d : Disk) : Decidable (c.Unlogged d) :=
  match h : Invocation.parse c.env c.args with
  | .error _ => isTrue fun i hi => by
    rw [Asks, h] at hi
    cases hi
  | .ok i => decidable_of_iff ((c.config d i).logFile = none)
    ⟨fun hlog j hj => by
      rw [Asks, h] at hj
      rwa [← Except.ok.inj hj], fun hlog => hlog i h⟩

/-- Whatever is asked for, it only reads. -/
def ReadsOnly (c : Call) : Prop := ∀ i, c.Asks i → i.ReadsOnly

/-- If it is a watch, it loses no directory, and leaves an empty store in one of them empty. -/
def Spares (c : Call) (a : Address) : Prop :=
  ∀ i directory, c.Asks i → i.subcommand = .watch directory →
    ∀ s : Session, Steady a s.engine.store.storage.disk (c.leaves s)

theorem steady_disk (a : Address) (c : Call) (d : Disk) : Steady a d (c.disk d) :=
  ⟨fun _ h => h, fun h => h⟩

theorem course_of_asks (hlog : c.Unlogged d) (h : c.Asks i) :
    c.course d = i.carryOut (c.disk d) (c.config d i) c.ids c.clock := by
  have hnone := hlog i h
  unfold course run Invocation.run Invocation.prepareLog
  unfold Asks at h
  unfold config at hnone
  simp only [h, hnone]
  rfl

theorem course_of_readsOnly (hlog : c.Unlogged d) (h : c.ReadsOnly) :
    ∃ finish, c.course d = .ended finish (c.disk d) := by
  cases hparse : Invocation.parse c.env c.args with
  | error stop => exact ⟨stop.finish, by rw [course, run, hparse]⟩
  | ok i =>
    rw [course_of_asks hlog hparse]
    exact Invocation.carryOut_of_readsOnly (h i hparse)

theorem after_of_ended {finish : Finish} {e : Disk} (h : c.course d = .ended finish e) :
    c.after d = e := by
  rw [after, h]

/-- A run leaves an empty store empty. -/
theorem steady_after (hlog : c.Unlogged d) (hspares : c.Spares a) : Steady a d (c.after d) := by
  have hdisk := steady_disk a c d
  by_cases hreads : c.ReadsOnly
  · obtain ⟨finish, hcourse⟩ := course_of_readsOnly hlog hreads
    rw [after_of_ended hcourse]
    exact hdisk
  unfold ReadsOnly at hreads
  push Not at hreads
  obtain ⟨i, hasks, hi⟩ := hreads
  have hcourse := course_of_asks hlog hasks
  rcases i.readsOnly_or with h | ⟨hreset, -⟩ | ⟨directory, hwatch⟩
  · exact absurd h hi
  · rw [Invocation.carryOut_of_reset hreset] at hcourse
    rw [after_of_ended hcourse]
    exact hdisk.trans
      (FeedbackStore.steady_reset a (.load ⟨c.disk d, i.medium (c.config d i)⟩))
  · rcases Invocation.carryOut_watch hwatch with ⟨finish, hended⟩ | ⟨place, s, hwatching, hs⟩
    · rw [hended] at hcourse
      rw [after_of_ended hcourse]
      exact hdisk.trans (steady_dropCrashReport a _ _)
    · rw [hwatching] at hcourse
      have hleaves := hspares i directory hasks hwatch s
      rw [hs] at hleaves
      rw [after, hcourse]
      exact (hdisk.trans (steady_dropCrashReport a _ _)).trans hleaves

end Call

/-! ### Sequences of runs -/

/-- The disk after several runs. -/
def after (d : Disk) (calls : List Call) : Disk := calls.foldl (fun d c => c.after d) d

/-- None of several runs has a file for its log. -/
def Unlogged (d : Disk) : List Call → Prop
  | [] => True
  | c :: calls => c.Unlogged d ∧ Unlogged (c.after d) calls

instance decidableUnlogged : (d : Disk) → (calls : List Call) → Decidable (Unlogged d calls)
  | _, [] => isTrue trivial
  | d, c :: calls =>
    have := decidableUnlogged (c.after d) calls
    inferInstanceAs (Decidable (c.Unlogged d ∧ Unlogged (c.after d) calls))

variable {d : Disk} {a : Address}

theorem after_concat (d : Disk) (calls : List Call) (c : Call) :
    after d (calls ++ [c]) = c.after (after d calls) :=
  List.foldl_concat _ _ _ _

theorem unlogged_append {calls more : List Call} :
    Unlogged d (calls ++ more) ↔ Unlogged d calls ∧ Unlogged (after d calls) more := by
  induction calls generalizing d with
  | nil => simp [Unlogged, after]
  | cons c calls ih =>
    rw [List.cons_append, Unlogged, Unlogged, ih, and_assoc]
    rfl

theorem steady_after {calls : List Call} (hlog : Unlogged d calls)
    (hspares : ∀ c ∈ calls, c.Spares a) : Steady a d (after d calls) := by
  induction calls generalizing d with
  | nil => exact .refl a d
  | cons c calls ih =>
    have hfirst := Call.steady_after hlog.1 (hspares c (by simp))
    exact hfirst.trans (ih hlog.2 fun c' hc => hspares c' (by simp [hc]))

/-- A reset that ends well empties its folder. -/
theorem Call.empties_of_reset {c : Call} {i : Invocation} {finish : Finish} {e : Disk}
    (hlog : c.Unlogged d) (hasks : c.Asks i) (hreset : i.subcommand = .reset)
    (hkept : i.ephemeral = false) (hended : c.course d = .ended finish e)
    (hcode : finish.code = 0) : ∃ a, Empties (c.config d i).feedbackDir a (c.disk d) e := by
  rw [course_of_asks hlog hasks] at hended
  have hok := Invocation.reset_of_code hreset hended hcode
  rw [Invocation.carryOut_of_reset hreset] at hended
  rw [← (Course.ended.inj hended).2]
  exact FeedbackStore.empties_reset (Invocation.medium_of_not_ephemeral hkept) hok

/-- A report is empty where nothing is stored. -/
theorem Call.course_of_report {c : Call} {i : Invocation} {text : String} (hlog : c.Unlogged d)
    (hasks : c.Asks i) (htext : i.subcommand.report? .empty = some text)
    (hempty : EmptyAt d a)
    (hfolder : i.ephemeral = true ∨ (c.disk d).Leads (directoryPart (c.config d i).feedbackDir) a) :
    c.course d = .ended (.ok text) (c.disk d) := by
  have hstored : stored ⟨c.disk d, i.medium (c.config d i)⟩ = .empty := by
    cases hmemory : i.ephemeral with
    | true =>
      rw [Invocation.medium_of_ephemeral hmemory]
      exact FeedbackStore.stored_memory _
    | false =>
      rw [hmemory] at hfolder
      rw [Invocation.medium_of_not_ephemeral hmemory]
      exact FeedbackStore.stored_of_emptyAt ((steady_disk a c d).empty hempty)
        (hfolder.resolve_left Bool.false_ne_true)
  rw [course_of_asks hlog hasks]
  exact Invocation.carryOut_of_report (by rw [hstored, htext])

/-- **Of all runs without a log, resets and watches alone write.** In a sequence of runs of which none
has a file for its log:

* an analysis, a report and a list of personalities leave the disk as they find it, as does all that
  is no watch and keeps feedback in memory;
* a reset of a store in a folder, if it ends well, makes the directory if need be, writes the three
  files of an empty store there, and changes nothing else;
* from then on, as long as no watch writes feedback to that directory, a report is that of nothing
  learned if it is of the same data directory, by whatever path, or of a store in memory. -/
theorem resets_alone_write {before later : List Call} {c : Call}
    (hlog : Unlogged d (before ++ c :: later)) :
    let found := c.disk (after d before)
    (c.ReadsOnly → ∃ finish, c.course (after d before) = .ended finish found) ∧
    ∀ i finish e, c.Asks i → i.subcommand = .reset → i.ephemeral = false →
      c.course (after d before) = .ended finish e → finish.code = 0 →
      ∃ a, Empties (c.config (after d before) i).feedbackDir a found e ∧
        ∀ between last rest j text, later = between ++ last :: rest →
          (∀ w ∈ between, w.Spares a) →
          last.Asks j → j.subcommand.report? .empty = some text →
          (j.ephemeral = true ∨
            (last.workingDirectory = c.workingDirectory ∧
              Config.chosenDataDir last.env j.request = Config.chosenDataDir c.env i.request) ∨
            (last.disk (after e between)).Leads
              (directoryPart (last.config (after e between) j).feedbackDir) a) →
          last.course (after e between) = .ended (.ok text) (last.disk (after e between)) := by
  intro found
  rw [unlogged_append, Unlogged] at hlog
  obtain ⟨-, hown, hlater⟩ := hlog
  refine ⟨Call.course_of_readsOnly hown, fun i finish e hasks hreset hkept hended hcode => ?_⟩
  obtain ⟨a, hempties⟩ := Call.empties_of_reset hown hasks hreset hkept hended hcode
  refine ⟨a, hempties, fun between last rest j text hsplit hspares hlast htext hshares => ?_⟩
  rw [Call.after_of_ended hended, hsplit, unlogged_append, Unlogged] at hlater
  obtain ⟨hbetween, hlog, -⟩ := hlater
  have hsteady := steady_after hbetween hspares
  refine Call.course_of_report hlog hlast htext (hsteady.empty hempties.emptyAt) ?_
  refine hshares.imp id fun h => h.elim (fun hsame => ?_) id
  -- The same path leads to the same directory, since no directory is lost.
  obtain ⟨hplace, hdir⟩ := hsame
  have hfolder : (last.config (after e between) j).feedbackDir =
      (c.config (after d before) i).feedbackDir :=
    congrArg (Path.join · "feedback") hdir
  have hkeeps : Disk.KeepsDirectories e (last.disk (after e between)) :=
    ⟨hsteady.directory, hplace.trans hempties.workingDirectory.symm⟩
  rw [hfolder]
  exact hkeeps.leads hempties.leads

/-- A file, and the directory of a store with a history of one feedback. -/
def sampleDisk : Disk where
  nodes := ⟨[([['d']], .directory), ([['d'], "feedback".toList], .directory),
    ([['d'], "feedback".toList, "feedback_history.json".toList],
      .file (.text "[[\"a\", \"accepted\", null, \"2020-01-01T00:00:00Z\", \"bug\", \"k\"]]")),
    ([['f']], .file (.text "TODO"))]⟩
  workingDirectory := []

/-- A run with a data directory. A watch reviews the file, and the suggestion is accepted. -/
def sampleCall (args : List String) : Call where
  env := .empty
  args := "--data-dir" :: args
  workingDirectory := []
  ids := fun n => String.ofList (List.replicate (n + 1) 'x')
  clock := ⟨0, 0⟩
  leaves := fun s =>
    let reviewed := (Coach.runLine s "review f").2
    (Coach.runLine reviewed "accept x").2.engine.store.storage.disk

/-- The end of a run after others. -/
def finishAfter (before : List Call) (c : Call) : Option Finish :=
  (c.course (after sampleDisk before)).finish?

/-- After an analysis of a file that is not there, a reset of the store, and a report. -/
theorem resets_alone_write_sample :
    Unlogged sampleDisk
        ([sampleCall ["d", "analyze", "g"]] ++ sampleCall ["d", "reset"] ::
          [sampleCall ["d", "stats"]]) ∧
      (finishAfter [sampleCall ["d", "analyze", "g"]] (sampleCall ["d", "reset"])).map Finish.code =
        some 0 ∧
      (finishAfter ([sampleCall ["d", "analyze", "g"]] ++ [sampleCall ["d", "reset"]])
          (sampleCall ["d", "stats"])).map Finish.output =
        some (Report.stats Learning.empty.stats) := by
  have hlog : Unlogged sampleDisk
      ([sampleCall ["d", "analyze", "g"]] ++ sampleCall ["d", "reset"] ::
        [sampleCall ["d", "stats"]]) := by
    decide +kernel
  have hcode : (finishAfter [sampleCall ["d", "analyze", "g"]]
      (sampleCall ["d", "reset"])).map Finish.code = some 0 := by
    decide +kernel
  have hreset : (sampleCall ["d", "reset"]).Asks ⟨.reset, some "d", none, none, false, false⟩ := by
    unfold Call.Asks
    decide +kernel
  have hreport : (sampleCall ["d", "stats"]).Asks
      ⟨.stats false, some "d", none, none, false, false⟩ := by
    unfold Call.Asks
    decide +kernel
  obtain ⟨finish, e, hended, hzero⟩ := Course.exists_ended hcode
  obtain ⟨a, -, hlater⟩ := (resets_alone_write hlog).2 _ finish e hreset rfl rfl hended hzero
  have hcourse := hlater [] (sampleCall ["d", "stats"]) [] _ _ rfl (by simp) hreport rfl
    (.inr (.inl ⟨rfl, rfl⟩))
  have hafter : after sampleDisk ([sampleCall ["d", "analyze", "g"]] ++ [sampleCall ["d", "reset"]]) =
      e := by
    rw [after_concat]
    exact Call.after_of_ended hended
  refine ⟨hlog, hcode, ?_⟩
  rw [finishAfter, hafter]
  exact congrArg (fun course => course.finish?.map Finish.output) hcourse

/-- The other stores keep their feedback: after a reset in memory, one of another data directory, and
where a watch has taken in feedback since. -/
theorem resets_leave_other_stores :
    (Unlogged sampleDisk [sampleCall ["d", "--ephemeral", "reset"], sampleCall ["d", "stats"]] ∧
      (finishAfter [] (sampleCall ["d", "--ephemeral", "reset"])).map Finish.code = some 0 ∧
      (finishAfter [sampleCall ["d", "--ephemeral", "reset"]]
          (sampleCall ["d", "stats"])).map Finish.output ≠
        some (Report.stats Learning.empty.stats)) ∧
    (Unlogged sampleDisk [sampleCall ["e", "reset"], sampleCall ["d", "stats"]] ∧
      (finishAfter [] (sampleCall ["e", "reset"])).map Finish.code = some 0 ∧
      (finishAfter [sampleCall ["e", "reset"]] (sampleCall ["d", "stats"])).map Finish.output ≠
        some (Report.stats Learning.empty.stats)) ∧
    (Unlogged sampleDisk
        [sampleCall ["d", "reset"], sampleCall ["d", "watch", "d"], sampleCall ["d", "stats"]] ∧
      (finishAfter [] (sampleCall ["d", "reset"])).map Finish.code = some 0 ∧
      (finishAfter [sampleCall ["d", "reset"], sampleCall ["d", "watch", "d"]]
          (sampleCall ["d", "stats"])).map Finish.output ≠
        some (Report.stats Learning.empty.stats)) :=
  ⟨⟨by decide +kernel, by decide +kernel, by decide +kernel⟩,
    ⟨by decide +kernel, by decide +kernel, by decide +kernel⟩,
    by decide +kernel, by decide +kernel, by decide +kernel⟩

end CommandLine

end CodeCoach
