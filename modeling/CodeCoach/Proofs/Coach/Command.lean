import CodeCoach.Coach
import CodeCoach.Proofs.Text.Split
import Mathlib.Data.Bool.AllAny

/-!
# Commands as they are typed

A line is trimmed and cut at its first two blanks, before it is known what the command is.

* `Command.parts_append_cons`: the parts of a line that has a word before its first blank;
* `Command.parse_act`, `Command.parse_act_note`, `Command.parse_review`: what is typed for an
  action, with a note of any words, and for a review;
* `Command.parse_eq_nothing_iff`: the lines that say nothing;
* `Coach.commands_by_line`: a line has the effect of its action, and one that fails has none;
* `Coach.reviewed_by_line`: what is reviewed is the file of the first word.
-/

namespace CodeCoach

open Text (Tight isBlank isAllBlank)

namespace Command

variable {w rest : List Char} {x : Char}

/-! ### Parts -/

theorem cut_fst (cs : List Char) : (cut cs).1 = cs.takeWhile fun c => !isBlank c := by
  unfold cut
  split
  · next h =>
    rw [eq_comm, List.takeWhile_eq_self_iff]
    exact List.dropWhile_eq_nil_iff.1 h
  · rfl

theorem cut_word (hw : ∀ c ∈ w, isBlank c = false) : cut w = (w, none) := by
  have hdrop : w.dropWhile (fun c => !isBlank c) = [] :=
    List.dropWhile_eq_nil_iff.2 fun c hc => by simp [hw c hc]
  unfold cut
  rw [hdrop]

theorem cut_append_cons (hw : ∀ c ∈ w, isBlank c = false) (hx : isBlank x) (rest : List Char) :
    cut (w ++ x :: rest) = (w, some rest) := by
  have hpass : ∀ c ∈ w, (!isBlank c) = true := fun c hc => by simp [hw c hc]
  unfold cut
  rw [List.dropWhile_append_of_pos hpass, List.takeWhile_append_of_pos hpass]
  simp [hx]

theorem given?_of_tight (h : Tight w) (hne : w ≠ []) : given? w = some (String.ofList w) := by
  unfold given?
  rw [Text.trim_of_tight h]
  simp [hne]

/-- A line that has a word before its first blank, and something behind it. -/
theorem parts_append_cons (hw : ∀ c ∈ w, isBlank c = false) {line : String}
    (hline : Text.trim line.toList = w ++ ' ' :: rest) :
    parts line = (String.ofList w, given? (cut rest).1, (cut rest).2.bind given?) := by
  unfold parts
  rw [hline, cut_append_cons hw (by decide)]

theorem parts_fst (line : String) :
    (parts line).1 = String.ofList ((Text.trim line.toList).takeWhile fun c => !isBlank c) := by
  rw [← cut_fst]
  unfold parts
  split
  rename_i name rest hcut
  rw [hcut]
  cases rest <;> rfl

/-- A line without a first word is one of blanks. -/
theorem parts_fst_eq_empty_iff {line : String} :
    (parts line).1 = "" ↔ isAllBlank line.toList = true := by
  rw [parts_fst, ← Text.trim_eq_nil_iff, String.ofList_eq_empty_iff]
  cases htrim : Text.trim line.toList with
  | nil => simp
  | cons c rest =>
    have hc : isBlank c = false := (Text.tight_trim line.toList).head c (by rw [htrim]; rfl)
    simp [hc]

/-! ### Commands -/

theorem parse_eq_nothing_iff {line : String} :
    parse line = .ok .nothing ↔ isAllBlank line.toList = true := by
  rw [← parts_fst_eq_empty_iff]
  unfold parse
  obtain ⟨name, arg, note⟩ := parts line
  constructor
  · intro h
    split at h
    · next heq => exact congrArg Prod.fst heq
    all_goals cases h
  · rintro rfl
    rfl

/-- The word of the command for an action. -/
def verb : Action → String
  | .accepted => "accept"
  | .dismissed => "dismiss"
  | .modified => "modify"

theorem isBlank_of_mem_verb (action : Action) : ∀ c ∈ (verb action).toList, isBlank c = false := by
  cases action <;> exact List.all_iff_forall_prop.1 (by decide)

theorem parse_of_parts (action : Action) {line id : String} {note : Option String}
    (h : parts line = (verb action, some id, note)) :
    parse line = .ok (.act action id (if action = .accepted then none else note)) := by
  unfold parse
  rw [h]
  cases action <;> rfl

section Actions

variable {id note : String} (hid : ∀ c ∈ id.toList, isBlank c = false) (hne : id.toList ≠ [])

include hid hne

theorem trim_act (action : Action) :
    Text.trim (verb action ++ " " ++ id).toList = (verb action).toList ++ ' ' :: id.toList := by
  have hverb : (verb action).toList ≠ [] := by cases action <;> decide
  have htight := (Text.tight_of_forall_mem (isBlank_of_mem_verb action)).append_cons
    (Text.tight_of_forall_mem hid) hverb hne ' '
  simpa using Text.trim_of_tight htight

theorem trim_act_note (action : Action) (hnote : Tight note.toList) (hne' : note.toList ≠ []) :
    Text.trim (verb action ++ " " ++ id ++ " " ++ note).toList =
      (verb action).toList ++ ' ' :: (id.toList ++ ' ' :: note.toList) := by
  have hverb : (verb action).toList ≠ [] := by cases action <;> decide
  have htight := (Text.tight_of_forall_mem (isBlank_of_mem_verb action)).append_cons
    ((Text.tight_of_forall_mem hid).append_cons hnote hne hne' ' ') hverb (by simp) ' '
  simpa using Text.trim_of_tight htight

/-- An action without a note. A blank may follow. -/
theorem parse_act (action : Action) {line : String}
    (hline : Text.trim line.toList = (verb action).toList ++ ' ' :: id.toList) :
    parse line = .ok (.act action id none) := by
  have hgiven := given?_of_tight (Text.tight_of_forall_mem hid) hne
  have hparts := parts_append_cons (isBlank_of_mem_verb action) hline
  rw [cut_word hid, hgiven, String.ofList_toList, String.ofList_toList] at hparts
  rw [parse_of_parts action hparts]
  simp

/-- An action with a note, in which blanks are kept. -/
theorem parse_act_note (action : Action) (hnote : Tight note.toList) (hne' : note.toList ≠ []) :
    parse (verb action ++ " " ++ id ++ " " ++ note) =
      .ok (.act action id (if action = .accepted then none else some note)) := by
  have hgiven := given?_of_tight (Text.tight_of_forall_mem hid) hne
  have hgiven' := given?_of_tight hnote hne'
  have hparts := parts_append_cons (isBlank_of_mem_verb action)
    (trim_act_note hid hne action hnote hne')
  rw [cut_append_cons hid (by decide), hgiven, String.ofList_toList, String.ofList_toList,
    Option.bind_some, hgiven', String.ofList_toList] at hparts
  exact parse_of_parts action hparts

/-- An action with a note that may be empty, and is none then. -/
theorem parse_act_given (action : Action) (hnote : Tight note.toList) :
    parse (verb action ++ " " ++ id ++ " " ++ note) =
      .ok (.act action id (if action = .accepted ∨ note = "" then none else some note)) := by
  by_cases hempty : note = ""
  · subst hempty
    have hline : Text.trim (verb action ++ " " ++ id ++ " " ++ "").toList =
        (verb action).toList ++ ' ' :: id.toList := by
      have htrim := Text.trim_concat (x := ' ') (by decide) (verb action ++ " " ++ id).toList
      rw [trim_act hid hne] at htrim
      simpa using htrim
    rw [parse_act hid hne action hline]
    simp
  · rw [parse_act_note hid hne action hnote (by simpa using hempty)]
    simp [hempty]

end Actions

/-- A text up to its first blank. -/
def firstWord (text : String) : String :=
  String.ofList (text.toList.takeWhile fun c => !isBlank c)

theorem firstWord_eq_self {text : String} (h : ∀ c ∈ text.toList, isBlank c = false) :
    firstWord text = text := by
  have hall : text.toList.takeWhile (fun c => !isBlank c) = text.toList :=
    List.takeWhile_eq_self_iff.2 fun c hc => by simp [h c hc]
  rw [firstWord, hall, String.ofList_toList]

/-- A review is of the file whose path is the first word behind the command. -/
theorem parse_review {path : String} (hpath : Tight path.toList) (hne : path ≠ "") :
    parse ("review " ++ path) = .ok (.review (firstWord path)) := by
  have hreview : ∀ c ∈ "review".toList, isBlank c = false :=
    List.all_iff_forall_prop.1 (by decide)
  have hne : path.toList ≠ [] := by simpa using hne
  have htight := (Text.tight_of_forall_mem hreview).append_cons hpath (by decide) hne ' '
  have hline : Text.trim ("review " ++ path).toList = "review".toList ++ ' ' :: path.toList := by
    simpa using Text.trim_of_tight htight
  have hword : path.toList.takeWhile (fun c => !isBlank c) ≠ [] := by
    obtain ⟨c, rest, hcs⟩ := List.exists_cons_of_ne_nil hne
    have hc := hpath.head c (by rw [hcs]; rfl)
    simp [hcs, hc]
  have hgiven := given?_of_tight (Text.tight_of_forall_mem fun c hc => by
    simpa using List.mem_takeWhile_imp hc) hword
  have hparts := parts_append_cons hreview hline
  rw [cut_fst, hgiven] at hparts
  unfold parse
  rw [hparts]
  rfl

end Command

namespace Coach

/-- A line does to a session what an action does, and what it prints tells whether the action was
applied. -/
structure Reports (s : Session) (line : String) (action : Action) (id : String)
    (note : Option String) : Prop where
  result : (runLine s line).1.result = .ok ()
  state : (runLine s line).2 = { s with engine := (s.engine.act id action note).2 }
  text : (runLine s line).1.text = Report.line (action.name ++ " " ++ id) ↔
    (s.engine.act id action note).1 = true

theorem actText_eq_iff {action : Action} {id : String} {applied : Bool} :
    actText action id applied = Report.line (action.name ++ " " ++ id) ↔ applied = true := by
  unfold actText
  cases applied with
  | true => simp
  | false =>
    -- The word for an action does not begin as the other text does.
    simp only [Bool.false_eq_true, if_false, iff_false]
    intro h
    have hhead := congrArg (fun t : String => t.toList.head?) h
    cases action <;> simp [Report.line, Action.name] at hhead

theorem reports_of_parse {s : Session} {line id : String} {action : Action} {note : Option String}
    (h : Command.parse line = .ok (.act action id note)) : Reports s line action id note := by
  have hrun : runLine s line =
      (.ok (actText action id (s.engine.act id action note).1),
        { s with engine := (s.engine.act id action note).2 }) := by
    unfold runLine
    rw [h]
    rfl
  refine ⟨?_, ?_, ?_⟩
  · rw [hrun]
    rfl
  · rw [hrun]
  · rw [hrun]
    exact actText_eq_iff

/-- A command that fails prints nothing and changes nothing. -/
theorem of_run_error {s : Session} {c : Command} {e : RequestError}
    (h : (run s c).1.result = .error e) : (run s c).1.text = "" ∧ (run s c).2 = s := by
  cases c with
  | review path =>
    unfold run at h ⊢
    simp only at h ⊢
    cases hd : document s path none with
    | error e' => exact ⟨rfl, rfl⟩
    | ok d =>
      rw [hd] at h
      cases h
  | nothing => cases h
  | act action id note => cases h
  | active => cases h
  | stats => cases h

theorem of_runLine_error {s : Session} {line : String} {e : RequestError}
    (h : (runLine s line).1.result = .error e) :
    (runLine s line).1.text = "" ∧ (runLine s line).2 = s := by
  unfold runLine at h ⊢
  cases hparse : Command.parse line with
  | error e' => exact ⟨rfl, rfl⟩
  | ok c =>
    rw [hparse] at h
    exact of_run_error h

/-- **Lines of commands.** What is typed for an action has its effect, with the note as it is typed,
and what is printed tells whether the action was applied. A line that is not blank carries out a
command or fails, and one that fails prints nothing and changes nothing. -/
theorem commands_by_line (s : Session) :
    (∀ id note : String, id ≠ "" → (∀ c ∈ id.toList, isBlank c = false) → Tight note.toList →
      Reports s ("accept " ++ id) .accepted id none ∧
      Reports s ("dismiss " ++ id ++ " " ++ note) .dismissed id
        (if note = "" then none else some note) ∧
      Reports s ("modify " ++ id ++ " " ++ note) .modified id
        (if note = "" then none else some note)) ∧
    ∀ line : String,
      (isAllBlank line.toList = true → runLine s line = (.ok "", s)) ∧
      (isAllBlank line.toList = false →
        ((runLine s line).1.result = .ok () ∧
          ∃ c, c ≠ .nothing ∧ Command.parse line = .ok c ∧ runLine s line = run s c) ∨
        ∃ e, (runLine s line).1.result = .error e) ∧
      ∀ e, (runLine s line).1.result = .error e →
        (runLine s line).1.text = "" ∧ (runLine s line).2 = s := by
  refine ⟨fun id note hne hid hnote => ?_, fun line => ⟨fun hblank => ?_, fun hline => ?_, ?_⟩⟩
  · have hne : id.toList ≠ [] := by simpa using hne
    refine ⟨reports_of_parse ?_, reports_of_parse ?_, reports_of_parse ?_⟩
    · exact Command.parse_act hid hne .accepted (Command.trim_act hid hne .accepted)
    · simpa [Command.verb] using Command.parse_act_given hid hne .dismissed hnote
    · simpa [Command.verb] using Command.parse_act_given hid hne .modified hnote
  · unfold runLine
    rw [Command.parse_eq_nothing_iff.2 hblank]
    rfl
  · cases hresult : (runLine s line).1.result with
    | error e => exact .inr ⟨e, rfl⟩
    | ok _ =>
      refine .inl ⟨rfl, ?_⟩
      unfold runLine at hresult ⊢
      cases hparse : Command.parse line with
      | error e =>
        rw [hparse] at hresult
        cases hresult
      | ok c =>
        refine ⟨c, ?_, rfl, rfl⟩
        rintro rfl
        rw [Command.parse_eq_nothing_iff.1 hparse] at hline
        cases hline
  · intro e he
    exact of_runLine_error he

/-- A session with nothing in it, on a disk with one file. -/
def sample (path text : String) : Session :=
  .ofEngine (.fresh .default
    (.fresh ⟨⟨⟨[([path.toList], .file (.text text))]⟩, []⟩, .memory .empty .none⟩)
    (fun _ => "x") ⟨0, 0⟩) .identity none

theorem commands_by_line_spacedNote :
    Reports (sample "a.py" "") ("dismiss " ++ "x" ++ " " ++ "too  noisy") .dismissed "x"
      (some "too  noisy") := by
  have hid : ∀ c ∈ "x".toList, isBlank c = false := List.all_iff_forall_prop.1 (by decide)
  have hnote : Tight "too  noisy".toList := by
    refine ⟨fun c hc => ?_, fun c hc => ?_⟩
    · obtain rfl : 't' = c := by simpa using hc
      decide
    · obtain rfl : 'y' = c := by simpa using hc
      decide
  obtain ⟨hacts, -⟩ := commands_by_line (sample "a.py" "")
  exact (hacts "x" "too  noisy" (by decide) hid hnote).2.1

/-- A blank line is none of the commands, and does not fail. -/
theorem blank_line_neither_acts_nor_fails :
    Command.parse "" = .ok .nothing ∧ runLine (sample "a.py" "") "" = (.ok "", sample "a.py" "") :=
  ⟨rfl, rfl⟩

/-! ### Reviews -/

theorem run_review_of_load {s : Session} {path : String} {d : Document}
    (h : Workspace.load s.engine.store.storage.disk path none = .ok d) :
    run s (.review path) = (.ok (outcomeText path (s.review d).1), (s.review d).2) := by
  simp only [run, document, h]

/-- **Reviews by lines.** What is typed behind the command is cut at its first blank: the file of
that word is reviewed, or cannot be read. So it is the file of the path that was typed if the path
has no blank in it. -/
theorem reviewed_by_line (s : Session) {path : String} (hne : path ≠ "")
    (hpath : Tight path.toList) :
    (∀ d, Workspace.load s.engine.store.storage.disk (Command.firstWord path) none = .ok d →
      runLine s ("review " ++ path) =
        (.ok (outcomeText (Command.firstWord path) (s.review d).1), (s.review d).2)) ∧
    (∀ e, Workspace.load s.engine.store.storage.disk (Command.firstWord path) none = .error e →
      runLine s ("review " ++ path) = (.failed (.unreadable (Command.firstWord path) e), s)) ∧
    ((∀ c ∈ path.toList, isBlank c = false) →
      ∀ d, Workspace.load s.engine.store.storage.disk path none = .ok d →
        runLine s ("review " ++ path) =
          (.ok (outcomeText path (s.review d).1), (s.review d).2)) := by
  have hrun : runLine s ("review " ++ path) = run s (.review (Command.firstWord path)) := by
    unfold runLine
    rw [Command.parse_review hpath hne]
  refine ⟨fun d hd => ?_, fun e he => ?_, fun hword d hd => ?_⟩
  · rw [hrun, run_review_of_load hd]
  · rw [hrun]
    simp only [run, document, he]
  · rw [hrun, Command.firstWord_eq_self hword, run_review_of_load hd]

theorem reviewed_by_line_plainPath :
    let s := sample "a.py" "x = 1\n"
    let d : Document := ⟨"x = 1\n", "python", "a.py"⟩
    Workspace.load s.engine.store.storage.disk "a.py" none = .ok d ∧
      runLine s ("review " ++ "a.py") =
        (.ok (outcomeText "a.py" (s.review d).1), (s.review d).2) := by
  intro s d
  have hload : Workspace.load s.engine.store.storage.disk "a.py" none = .ok d := by rfl
  have hne : "a.py" ≠ "" := by decide
  have hword : ∀ c ∈ "a.py".toList, isBlank c = false := List.all_iff_forall_prop.1 (by decide)
  obtain ⟨-, -, hplain⟩ := reviewed_by_line s hne (Text.tight_of_forall_mem hword)
  exact ⟨hload, hplain hword d hload⟩

/-- A file is there and can be read, but its path has a blank: another file is looked for. -/
theorem spaced_path_not_reviewed :
    Workspace.load (sample "a b.py" "x = 1\n").engine.store.storage.disk "a b.py" none =
        .ok ⟨"x = 1\n", "python", "a b.py"⟩ ∧
      (runLine (sample "a b.py" "x = 1\n") "review a b.py").1.result =
        .error (.unreadable "a" .notFound) :=
  ⟨by rfl, by rfl⟩

end Coach

end CodeCoach
