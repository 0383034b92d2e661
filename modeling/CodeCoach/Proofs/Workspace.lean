import CodeCoach.Proofs.Path
import CodeCoach.Workspace

/-!
# Which files of a workspace are ignored

Whether a file is ignored is decided by the names in its path from the root on, as far as these are
texts: a name that is not valid UTF-8 is never the reason, even if it looks like that of a hidden file.

* `Workspace.IsIgnoredName`, the bytes of an ignored name;
* `Workspace.isIgnoredPath_joined_iff`: a path below a root is ignored for such a name;
* `Workspace.ignored_by_names`, with what follows for other roots, other spellings and longer paths;
* `Workspace.keeps_what_is_no_text`: a name that is no text, and a path that is not below the root.
-/

namespace CodeCoach.Workspace

open CodeCoach.Path

variable {root path : List UInt8}

/-- The name is valid UTF-8 and one of the ignored names, or one that starts with a dot and is longer
than that. -/
def IsIgnoredName (name : List UInt8) : Prop :=
  ∃ text : List Char, Text.bytes text = name ∧
    (String.ofList text ∈ ignoredNames ∨ (text.head? = some '.' ∧ 1 < text.length))

theorem isIgnoredName_iff {text : List Char} : isIgnoredName text = true ↔
    String.ofList text ∈ ignoredNames ∨ (text.head? = some '.' ∧ 1 < text.length) := by
  have hlength : text.head? = some '.' → (1 < Text.byteLength text ↔ 1 < text.length) := by
    intro hhead
    obtain ⟨rest, rfl⟩ := List.head?_eq_some_iff.1 hhead
    have hdot : Char.utf8Size '.' = 1 := rfl
    -- The dot is one byte, and any other character is at least one.
    cases rest with
    | nil => simp [Text.byteLength, hdot]
    | cons c rest =>
      have hpos := c.utf8Size_pos
      simp only [Text.byteLength, List.length_cons, hdot]
      omega
  simp only [isIgnoredName, Bool.or_eq_true, Bool.and_eq_true, List.contains_iff_mem, beq_iff_eq,
    decide_eq_true_eq]
  exact or_congr_right (and_congr_right hlength)

theorem isIgnoredComponent_normal_iff {name : List UInt8} :
    isIgnoredComponent (.normal name) = true ↔ IsIgnoredName name := by
  rw [isIgnoredComponent, Option.any_eq_true]
  exact exists_congr fun text => and_congr Text.ofBytes?_eq_some_iff isIgnoredName_iff

theorem isIgnoredPath_iff : isIgnoredPath root path = true ↔
    ∃ name, Component.normal name ∈ below root path ∧ IsIgnoredName name := by
  unfold isIgnoredPath
  rw [List.any_eq_true]
  constructor
  · rintro ⟨component, hmem, hignored⟩
    cases component with
    | normal name => exact ⟨name, hmem, isIgnoredComponent_normal_iff.1 hignored⟩
    | root | current | parent => cases hignored
  · rintro ⟨name, hmem, hignored⟩
    exact ⟨_, hmem, isIgnoredComponent_normal_iff.2 hignored⟩

theorem isIgnoredPath_joined_iff (hpath : isRooted path = false) (root : List UInt8) :
    isIgnoredPath root (joined root path) = true ↔ ∃ name, HasName path name ∧ IsIgnoredName name := by
  simp only [isIgnoredPath_iff, normal_mem_below_joined_iff hpath]

/-- **A path below a root is ignored for its own names**, as far as these are texts. The names in the
root do not count, nor does it matter how the path is spelled, and what is below an ignored path is
ignored. -/
theorem ignored_by_names (hpath : isRooted path = false) (root : List UInt8) :
    (isIgnoredPath root (joined root path) = true ↔
      ∃ name, HasName path name ∧ IsIgnoredName name) ∧
    (∀ other, isIgnoredPath other (joined other path) = isIgnoredPath root (joined root path)) ∧
    (∀ again, Respelled path again →
      isIgnoredPath root (joined root again) = isIgnoredPath root (joined root path)) ∧
    (∀ rest, isRooted rest = false → isIgnoredPath root (joined root path) = true →
      isIgnoredPath root (joined (joined root path) rest) = true) := by
  refine ⟨isIgnoredPath_joined_iff hpath root, fun other => ?_, fun again hagain => ?_,
    fun rest hrest h => ?_⟩
  · rw [Bool.eq_iff_iff, isIgnoredPath_joined_iff hpath, isIgnoredPath_joined_iff hpath]
  · simp only [Bool.eq_iff_iff, isIgnoredPath_joined_iff hpath,
      isIgnoredPath_joined_iff (hagain.isRooted_eq hpath), hagain.hasName_iff]
  · obtain ⟨name, hname, hignored⟩ := (isIgnoredPath_joined_iff hpath root).1 h
    rw [joined_joined hpath hrest, isIgnoredPath_joined_iff (isRooted_joined hpath hrest)]
    exact ⟨name, hname.joined hrest, hignored⟩

/-- A hidden directory in a root that is itself below hidden and ignored ones. -/
theorem ignored_by_names_hiddenRoot :
    let bytes := fun s : String => Text.bytes s.toList
    let root := bytes "/home/.me/build"
    let path := bytes "lib/.cache"
    isRooted path = false ∧ isRooted (bytes "a.js") = false ∧
    Respelled path (bytes "./lib/.cache/") ∧
    isIgnoredPath root (joined root path) = true ∧
    isIgnoredPath (bytes ".") (joined (bytes ".") path) = true ∧
    isIgnoredPath root (joined root (bytes "./lib/.cache/")) = true ∧
    isIgnoredPath root (joined (joined root path) (bytes "a.js")) = true := by
  intro bytes root path
  have hpath : isRooted path = false := by decide +kernel
  have hrest : isRooted (bytes "a.js") = false := by decide +kernel
  have hdotted : Respelled path ([] ++ PathUnit.dot :: PathUnit.slash :: path) :=
    .dot (.inl rfl) .same
  have hagain : Respelled path (bytes "./lib/.cache/") := hdotted.slash (by decide +kernel)
  have hname : HasName path (bytes ".cache") := hasName_iff.2 (by decide +kernel)
  obtain ⟨hiff, hother, hrespelled, hlater⟩ := ignored_by_names hpath root
  have hignored := hiff.2 ⟨_, hname, ".cache".toList, rfl, .inr (by decide)⟩
  exact ⟨hpath, hrest, hagain, hignored, (hother (bytes ".")).trans hignored,
    (hrespelled _ hagain).trans hignored, hlater _ hrest hignored⟩

/-- Not ignored are a file whose name starts with a dot but is not valid UTF-8, and a file below an
ignored directory that is not itself below the root. -/
theorem keeps_what_is_no_text :
    let hidden : List UInt8 := [0x2E, 0x63, 0x61, 0x63, 0x68, 0xE9]
    (HasName hidden hidden ∧ hidden.head? = some PathUnit.dot ∧ 1 < hidden.length ∧
      isIgnoredPath [] (joined [] hidden) = false) ∧
    isIgnored "a/.git/b" "a/.git" = true ∧ isIgnored "a/.git/b" "a/.git/b/c.js" = false := by
  intro hidden
  have hname : HasName hidden hidden := hasName_iff.2 (by decide +kernel)
  exact ⟨⟨hname, by decide +kernel, by decide, by decide +kernel⟩, by decide +kernel,
    by decide +kernel⟩

example : isIgnored "/home/.me/build" "/home/.me/build/src/./a.js" = false := by decide +kernel

end CodeCoach.Workspace
