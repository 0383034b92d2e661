import CodeCoach.Review.NestedLoop
import Mathlib.Data.List.Flatten

/-!
# Nested loops by the balance of braces

The search for a second loop carries a running count of open braces and remembers whether any brace
has been opened.  Both can be read off the balances of the lines that have been passed, so where a
nested loop starts can be told without the search.

* `balance`, the opening braces of some lines less their closing braces;
* `Closes`, the search has come upon the end of the body, and `opensWithin_iff`, what the search
  finds;
* `between`, the lines of a document from one index to before another, and `ClosedBefore`, the body
  of a loop ends before a line;
* `nestedLoop_by_balance`: where a nested loop starts.
-/

namespace CodeCoach.Review

open Text

/-- The opening braces of some lines less their closing braces. -/
def balance (lines : List Line) : Int :=
  lines.flatten.count '\x7b' - lines.flatten.count '\x7d'

theorem braces_cons (c : Char) (line : Line) : braces (c :: line) = braceStep c + braces line := rfl

theorem braces_eq (line : Line) : braces line = line.count '\x7b' - line.count '\x7d' := by
  induction line with
  | nil => rfl
  | cons c line ih =>
    rw [braces_cons, ih, List.count_cons, List.count_cons, braceStep]
    by_cases hopen : c = '\x7b'
    · subst c
      simp
      omega
    · by_cases hclose : c = '\x7d'
      · subst c
        simp
        omega
      · simp [hopen, hclose]

@[simp] theorem balance_nil : balance [] = 0 := rfl

@[simp] theorem balance_cons (line : Line) (rest : List Line) :
    balance (line :: rest) = braces line + balance rest := by
  simp only [balance, braces_eq, List.flatten_cons, List.count_append]
  omega

/-- No balance is beyond the number of braces, so that 32 bits hold it where there are fewer than
`2 ^ 31`. -/
theorem natAbs_balance_le {lines part : List Line} (h : part.Sublist lines) :
    (balance part).natAbs ≤ lines.flatten.count '\x7b' + lines.flatten.count '\x7d' := by
  have hopen := h.flatten.count_le '\x7b'
  have hclose := h.flatten.count_le '\x7d'
  rw [balance]
  omega

/-! ### The search -/

section Search

variable {opens : Line → Bool} {depth : Int} {opened : Bool} {line : Line} {lines rest : List Line}
  {k : Nat}

/-- On one of the first `k` lines all braces are closed that were opened on the way, where `depth`
braces are open before the lines and `opened` says whether any has been. -/
def Closes (depth : Int) (opened : Bool) (lines : List Line) (k : Nat) : Prop :=
  ∃ i < k, depth + balance (lines.take (i + 1)) ≤ 0 ∧
    (opened ∨ ∃ m ≤ i, 0 < depth + balance (lines.take (m + 1)))

theorem not_closes_zero : ¬Closes depth opened lines 0 := by
  rintro ⟨i, hi, -⟩
  exact Nat.not_lt_zero i hi

/-- Only the lines that are passed matter. -/
theorem closes_take {n : Nat} (h : k ≤ n) :
    Closes depth opened (lines.take n) k ↔ Closes depth opened lines k := by
  have htake {i : Nat} (hi : i < k) : (lines.take n).take (i + 1) = lines.take (i + 1) := by
    rw [List.take_take, Nat.min_eq_left (by omega)]
  refine exists_congr fun i => and_congr_right fun hi => ?_
  rw [htake hi]
  refine and_congr_right fun _ => or_congr_right (exists_congr fun m => and_congr_right fun hm => ?_)
  rw [htake (Nat.lt_of_le_of_lt hm hi)]

/-- The end of the body comes on the first line or after it. -/
theorem closes_cons_succ : Closes depth opened (line :: rest) (k + 1) ↔
    (depth + braces line ≤ 0 ∧ (opened || 0 < depth + braces line)) ∨
      Closes (depth + braces line) (opened || 0 < depth + braces line) rest k := by
  have hsum (n : Nat) : depth + balance ((line :: rest).take (n + 1)) =
      depth + braces line + balance (rest.take n) := by
    rw [List.take_succ_cons, balance_cons, Int.add_assoc]
  simp only [Closes, hsum, Bool.or_eq_true, decide_eq_true_eq]
  constructor
  · rintro ⟨i, hi, hclosed, hopened⟩
    cases i with
    | zero =>
      refine .inl ⟨by simpa using hclosed, hopened.imp_right ?_⟩
      rintro ⟨m, hm, hpositive⟩
      obtain rfl := Nat.le_zero.1 hm
      simpa using hpositive
    | succ i =>
      refine .inr ⟨i, by omega, hclosed, ?_⟩
      rcases hopened with hopened | ⟨m, hm, hpositive⟩
      · exact .inl (.inl hopened)
      · cases m with
        | zero => exact .inl (.inr (by simpa using hpositive))
        | succ m => exact .inr ⟨m, by omega, hpositive⟩
  · rintro (⟨hclosed, hopened⟩ | ⟨i, hi, hclosed, hopened⟩)
    · exact ⟨0, by omega, by simpa using hclosed,
        hopened.imp_right fun h => ⟨0, Nat.le_refl _, by simpa using h⟩⟩
    · refine ⟨i + 1, by omega, hclosed, ?_⟩
      rcases hopened with (hopened | hpositive) | ⟨m, hm, hpositive⟩
      · exact .inl hopened
      · exact .inr ⟨0, Nat.zero_le _, by simpa using hpositive⟩
      · exact .inr ⟨m + 1, by omega, hpositive⟩

theorem opensWithin_cons_iff : opensWithin opens depth opened (line :: rest) ↔
    (depth = 1 ∧ opens line) ∨
      ¬(depth + braces line ≤ 0 ∧ (opened || 0 < depth + braces line)) ∧
        opensWithin opens (depth + braces line) (opened || 0 < depth + braces line) rest := by
  rw [opensWithin]
  by_cases hfound : depth = 1 ∧ opens line
  · simp [hfound]
  · have hnot : ¬(depth == 1 && opens line) = true := by simpa using hfound
    have hcloses : ((opened || 0 < depth + braces line) && depth + braces line ≤ 0) = true ↔
        depth + braces line ≤ 0 ∧ (opened || 0 < depth + braces line) := by
      rw [Bool.and_eq_true, decide_eq_true_eq, and_comm]
    rw [if_neg hnot, or_iff_right hfound]
    by_cases hclosed : depth + braces line ≤ 0 ∧ (opened || 0 < depth + braces line)
    · simp [hclosed]
    · simp only [mt hcloses.1 hclosed, hclosed, Bool.false_eq_true, if_false, not_false_eq_true,
        true_and]

/-- The search finds a line that opens a loop at depth one before the body ends. -/
theorem opensWithin_iff : opensWithin opens depth opened lines ↔
    ∃ k, lines[k]?.any opens ∧ depth + balance (lines.take k) = 1 ∧
      ¬Closes depth opened lines k := by
  induction lines generalizing depth opened with
  | nil => simp [opensWithin]
  | cons line rest ih =>
    have hhere : ((line :: rest)[0]?.any opens ∧ depth + balance ((line :: rest).take 0) = 1 ∧
        ¬Closes depth opened (line :: rest) 0) ↔ (depth = 1 ∧ opens line) := by
      simp [not_closes_zero, and_comm]
    have hlater (k : Nat) : ((line :: rest)[k + 1]?.any opens ∧
        depth + balance ((line :: rest).take (k + 1)) = 1 ∧
          ¬Closes depth opened (line :: rest) (k + 1)) ↔
        ¬(depth + braces line ≤ 0 ∧ (opened || 0 < depth + braces line)) ∧
          (rest[k]?.any opens ∧ depth + braces line + balance (rest.take k) = 1 ∧
            ¬Closes (depth + braces line) (opened || 0 < depth + braces line) rest k) := by
      rw [closes_cons_succ, List.getElem?_cons_succ, List.take_succ_cons, balance_cons,
        Int.add_assoc, not_or]
      constructor
      · exact fun ⟨hopens, hdepth, hgoes, hlater⟩ => ⟨hgoes, hopens, hdepth, hlater⟩
      · exact fun ⟨hgoes, hopens, hdepth, hlater⟩ => ⟨hopens, hdepth, hgoes, hlater⟩
    rw [← Nat.or_exists_add_one, hhere, exists_congr hlater, exists_and_left, ← ih,
      opensWithin_cons_iff]

end Search

/-! ### Documents -/

section Documents

variable {opens : Line → Bool} {lines : List Line} {start : Nat}

/-- The lines from the one with the index `start` to before the one with the index `stop`. -/
def between (lines : List Line) (start stop : Nat) : List Line := (lines.take stop).drop start

/-- The body of a loop at `start` has ended before `stop`: the braces that were opened from there on
are closed on a line after `start`. -/
def ClosedBefore (lines : List Line) (start stop : Nat) : Prop :=
  ∃ i, start < i ∧ i < stop ∧ balance (between lines start (i + 1)) ≤ 0 ∧
    ∃ m, start ≤ m ∧ m ≤ i ∧ 0 < balance (between lines start (m + 1))

theorem between_eq (lines : List Line) (start k : Nat) :
    between lines start (start + k) = (lines.drop start).take k := by
  rw [between, List.drop_take, Nat.add_sub_cancel_left]

/-- Of the balances after a line only those of the lines behind it have to be searched. -/
theorem closedBefore_iff {line : Line} {rest : List Line} (h : lines.drop start = line :: rest)
    (k : Nat) : ClosedBefore lines start (start + (k + 1)) ↔
      Closes (braces line) (0 < braces line) rest k := by
  have hsum (n : Nat) : balance (between lines start (start + (n + 1))) =
      braces line + balance (rest.take n) := by
    rw [between_eq, h, List.take_succ_cons, balance_cons]
  simp only [ClosedBefore, Closes, decide_eq_true_eq]
  constructor
  · rintro ⟨i, hstart, hstop, hclosed, m, hm, hmi, hpositive⟩
    obtain ⟨i, rfl⟩ := Nat.exists_eq_add_of_lt hstart
    obtain ⟨m, rfl⟩ := Nat.exists_eq_add_of_le hm
    refine ⟨i, by omega, hsum (i + 1) ▸ hclosed, ?_⟩
    cases m with
    | zero => exact .inl (by simpa [hsum 0] using hpositive)
    | succ m => exact .inr ⟨m, by omega, hsum (m + 1) ▸ hpositive⟩
  · rintro ⟨i, hi, hclosed, hopened⟩
    refine ⟨start + (i + 1), by omega, by omega, (hsum (i + 1)).symm ▸ hclosed, ?_⟩
    rcases hopened with hopened | ⟨m, hm, hpositive⟩
    · exact ⟨start, Nat.le_refl _, by omega, by simpa [hsum 0] using hopened⟩
    · exact ⟨start + (m + 1), by omega, by omega, (hsum (m + 1)).symm ▸ hpositive⟩

/-- What the lines after a loop have to be like for a nested loop to start on it. -/
theorem isNestedLoopStart_iff {line : Line} {rest : List Line}
    (h : lines.drop start = line :: rest) : isNestedLoopStart opens lines start ↔
      opens line ∧ ∃ k < lookahead, rest[k]?.any opens ∧
        balance (between lines start (start + (k + 1))) = 1 ∧
          ¬ClosedBefore lines start (start + (k + 1)) := by
  have hnested : isNestedLoopStart opens lines start = nestedAt opens line rest := by
    rw [isNestedLoopStart, h]
  rw [hnested, nestedAt, Bool.and_eq_true, opensWithin_iff]
  refine and_congr_right fun _ => exists_congr fun k => ?_
  rw [between_eq, h, List.take_succ_cons, balance_cons, closedBefore_iff h]
  by_cases hk : k < lookahead
  · rw [List.getElem?_take_of_lt hk, List.take_take, Nat.min_eq_left (Nat.le_of_lt hk),
      closes_take (Nat.le_of_lt hk)]
    simp [hk]
  · rw [List.getElem?_eq_none (by simp; omega)]
    simp [hk]

/-- A nested loop starts on a line that opens a loop and has another after it, within twenty lines,
that opens a loop at depth one before the body has ended. Nothing beyond these lines matters, and no
running count is beyond the number of braces. -/
theorem nestedLoop_by_balance (opens : Line → Bool) (lines : List Line) (start : Nat) :
    (isNestedLoopStart opens lines start ↔ start < lines.length ∧ lines[start]?.any opens ∧
      ∃ j, start < j ∧ j ≤ min (start + 20) (lines.length - 1) ∧ lines[j]?.any opens ∧
        balance (between lines start j) = 1 ∧ ¬ClosedBefore lines start j) ∧
      isNestedLoopStart opens (lines.take (start + 21)) start =
        isNestedLoopStart opens lines start ∧
      ∀ stop, (balance (between lines start stop)).natAbs ≤
        lines.flatten.count '\x7b' + lines.flatten.count '\x7d' := by
  have hbound (stop : Nat) := natAbs_balance_le
    ((List.drop_sublist start (lines.take stop)).trans (List.take_sublist stop lines))
  have hwindow : (lines.take (start + 21)).drop start = (lines.drop start).take 21 := by
    rw [List.drop_take, Nat.add_sub_cancel_left]
  cases hd : lines.drop start with
  | nil =>
    have hlength := List.drop_eq_nil_iff.1 hd
    have hnone : isNestedLoopStart opens lines start = false := by rw [isNestedLoopStart, hd]
    refine ⟨?_, by rw [hnone, isNestedLoopStart, hwindow, hd]; rfl, hbound⟩
    rw [hnone]
    simp only [Bool.false_eq_true, false_iff]
    rintro ⟨hstart, -⟩
    omega
  | cons line rest =>
    have hlength : lines.length = start + (rest.length + 1) := by
      have := congrArg List.length hd
      rw [List.length_drop, List.length_cons] at this
      omega
    have hget (k : Nat) : lines[start + k]? = (line :: rest)[k]? := by rw [← hd, List.getElem?_drop]
    have hfirst : lines[start]?.any opens = opens line := congrArg (Option.any opens) (hget 0)
    refine ⟨?_, ?_, hbound⟩
    · rw [isNestedLoopStart_iff hd, hfirst]
      constructor
      · rintro ⟨hopens, k, hk, hinner, hdepth, hgoes⟩
        have hk : k < 20 := hk
        have hrest : k < rest.length := Nat.lt_of_not_le fun hrest => by
          rw [List.getElem?_eq_none hrest] at hinner
          cases hinner
        exact ⟨by omega, hopens, start + (k + 1), by omega, by omega, hget (k + 1) ▸ hinner, hdepth,
          hgoes⟩
      · rintro ⟨-, hopens, j, hj, hlast, hinner, hdepth, hgoes⟩
        obtain ⟨k, rfl⟩ := Nat.exists_eq_add_of_lt hj
        exact ⟨hopens, k, show k < 20 by omega, hget (k + 1) ▸ hinner, hdepth, hgoes⟩
    · rw [isNestedLoopStart, isNestedLoopStart, hwindow, hd, List.take_succ_cons]
      simp only [nestedAt, lookahead, List.take_take, Nat.min_self]

end Documents

end CodeCoach.Review
