import CodeCoach.Text.Line
import Mathlib.Data.List.Basic
import Mathlib.Data.List.TakeWhile

/-!
# The line on which a part of a text stands

A part of a text without a line feed lies within one line, and that line and the others can be told
from what comes before the part and what comes after it.

* `lastLine`, the beginning of the line that a text leaves unfinished;
* `not_mem_of_mem_linesOf`: no line holds a line feed;
* `exists_lines_around`, the lines of a text with a part in the middle.
-/

namespace CodeCoach.Text

/-- What stands in a text after its last line feed. -/
def lastLine (cs : List Char) : List Char := (cs.reverse.takeWhile (· != '\n')).reverse

variable {unfinished part : List Char} {c : Char} {l : Line}

/-! ### Carriage returns -/

theorem dropReturn_concat (l : Line) : dropReturn (l ++ ['\r']) = l := by
  rw [dropReturn, List.reverse_append]
  simp

theorem dropReturn_of_getLast?_ne (h : l.getLast? ≠ some '\r') : dropReturn l = l := by
  rw [List.getLast?_eq_head?_reverse] at h
  unfold dropReturn
  split
  · rename_i rest hl
    exact absurd (by rw [hl]; rfl) h
  · rfl

theorem dropReturn_append {a : Line} (ha : a.getLast? ≠ some '\r') (b : Line) :
    dropReturn (a ++ b) = a ++ dropReturn b := by
  rcases List.eq_nil_or_concat' b with rfl | ⟨b, c, rfl⟩
  · rw [List.append_nil, dropReturn_of_getLast?_ne ha]
    simp [dropReturn]
  · by_cases hc : c = '\r'
    · subst hc
      rw [← List.append_assoc, dropReturn_concat, dropReturn_concat]
    · rw [dropReturn_of_getLast?_ne (by simpa using hc),
        dropReturn_of_getLast?_ne (by simpa using hc)]

theorem dropReturn_sublist (l : Line) : (dropReturn l).Sublist l := by
  rcases List.eq_nil_or_concat' l with rfl | ⟨l, c, rfl⟩
  · simp [dropReturn]
  · by_cases hc : c = '\r'
    · subst hc
      rw [dropReturn_concat]
      exact List.sublist_append_left l _
    · rw [dropReturn_of_getLast?_ne (by simpa using hc)]

/-! ### Cutting -/

theorem cutLines_newline (unfinished rest : List Char) :
    cutLines unfinished ('\n' :: rest) = dropReturn unfinished.reverse :: cutLines [] rest := rfl

theorem cutLines_cons (hc : c ≠ '\n') (unfinished rest : List Char) :
    cutLines unfinished (c :: rest) = cutLines (c :: unfinished) rest := by
  rw [cutLines]
  exact hc

/-- No line holds a line feed. -/
theorem not_mem_of_mem_cutLines {cs : List Char} (h : '\n' ∉ unfinished)
    (hl : l ∈ cutLines unfinished cs) : '\n' ∉ l := by
  induction cs generalizing unfinished with
  | nil =>
    rw [cutLines] at hl
    split at hl
    · cases hl
    · rw [List.mem_singleton.1 hl]
      simpa using h
  | cons c cs ih =>
    by_cases hc : c = '\n'
    · subst hc
      rw [cutLines_newline] at hl
      rcases List.mem_cons.1 hl with rfl | hl
      · exact fun hmem => h (List.mem_reverse.1 ((dropReturn_sublist _).mem hmem))
      · exact ih List.not_mem_nil hl
    · rw [cutLines_cons hc] at hl
      exact ih (by simpa [h] using Ne.symm hc) hl

theorem not_mem_of_mem_linesOf {s : String} (hl : l ∈ linesOf s) : '\n' ∉ l :=
  not_mem_of_mem_cutLines List.not_mem_nil hl

/-- A text without a line feed belongs to the line under way. -/
theorem cutLines_append (hpart : '\n' ∉ part) (unfinished after : List Char) :
    cutLines unfinished (part ++ after) = cutLines (part.reverse ++ unfinished) after := by
  induction part generalizing unfinished with
  | nil => rfl
  | cons c part ih =>
    rw [List.cons_append, cutLines_cons (fun hc => hpart (by simp [hc])),
      ih fun hmem => hpart (List.mem_cons_of_mem c hmem)]
    simp

/-- The lines that a text finishes do not depend on what follows. -/
theorem exists_cutLines_append (before : List Char) (h : '\n' ∉ unfinished) :
    ∃ above, above.length = before.count '\n' ∧ ∀ after,
      cutLines unfinished (before ++ after) =
        above ++ cutLines ((before.reverse ++ unfinished).takeWhile (· != '\n')) after := by
  induction before generalizing unfinished with
  | nil =>
    have hall : unfinished.takeWhile (· != '\n') = unfinished :=
      List.takeWhile_eq_self_iff.2 fun c hc => by simpa using fun h' : c = '\n' => h (h' ▸ hc)
    exact ⟨[], rfl, fun after => by simp [hall]⟩
  | cons c before ih =>
    by_cases hc : c = '\n'
    · subst hc
      obtain ⟨above, hlength, habove⟩ := ih List.not_mem_nil
      refine ⟨dropReturn unfinished.reverse :: above, by simp [hlength], fun after => ?_⟩
      have hstop : ((before.reverse ++ ['\n']) ++ unfinished).takeWhile (· != '\n') =
          before.reverse.takeWhile (· != '\n') := by
        rw [List.append_assoc, List.takeWhile_append]
        split
        · rename_i hlength
          have hall := (List.takeWhile_prefix (p := (· != '\n')) (l := before.reverse)).eq_of_length
            hlength
          simp [hall]
        · rfl
      rw [List.cons_append, cutLines_newline, habove, List.reverse_cons, hstop, List.append_nil,
        List.cons_append]
    · obtain ⟨above, hlength, habove⟩ :=
        @ih (c :: unfinished) (by simpa [h] using Ne.symm hc)
      refine ⟨above, by simp [hlength, hc], fun after => ?_⟩
      rw [List.cons_append, cutLines_cons hc, habove, List.reverse_cons, List.append_assoc]
      rfl

/-- The line under way, and the lines below it, unless a carriage return ends what there is of it. -/
theorem exists_cutLines_below (after : List Char) :
    ∃ rest below, ∀ unfinished : List Char, unfinished ≠ [] → unfinished.head? ≠ some '\r' →
      cutLines unfinished after = (unfinished.reverse ++ rest) :: below := by
  by_cases hafter : '\n' ∈ after
  · obtain ⟨rest, later, rfl, hrest⟩ := List.eq_append_cons_of_mem hafter
    refine ⟨dropReturn rest, cutLines [] later, fun unfinished _ hreturn => ?_⟩
    rw [cutLines_append hrest, cutLines_newline, List.reverse_append, List.reverse_reverse,
      dropReturn_append (by simpa using hreturn)]
  · refine ⟨after, [], fun unfinished hne _ => ?_⟩
    have := cutLines_append hafter unfinished []
    rw [List.append_nil] at this
    rw [this, cutLines]
    simp [hne]

/-- A part of a text without a line feed stands on one line, and only that line depends on it. -/
theorem exists_lines_around (before after : List Char) :
    ∃ above rest below, above.length = before.count '\n' ∧ ∀ part : List Char, '\n' ∉ part →
      part ≠ [] → part.getLast? ≠ some '\r' →
      lines (before ++ (part ++ after)) = above ++ (lastLine before ++ (part ++ rest)) :: below := by
  obtain ⟨above, hlength, habove⟩ := @exists_cutLines_append [] before (by simp)
  obtain ⟨rest, below, hbelow⟩ := exists_cutLines_below after
  refine ⟨above, rest, below, hlength, fun part hpart hne hreturn => ?_⟩
  rw [lines, habove, cutLines_append hpart, hbelow _ (by simp [hne]) (by simp_all), lastLine]
  simp

end CodeCoach.Text
