import CodeCoach.Text.Line
import CodeCoach.Text.Word
import Mathlib.Data.List.Infix
import Mathlib.Data.List.TakeWhile

/-!
# Splitting a text at a character

A text that is split at a character in two ways is split at one place, or the one place comes before
the other.  So a word that does not hold the character lies on one side of it.

* `append_cons_cases`, `append_eq_append_cons`: two splits of one text;
* `prefix_append_cons_iff`, `infix_append_cons_iff`: a word on one side of a character;
* `isWord_of_isBlank`: a blank is no word character;
* `trimStart_append_cons`: the beginning of a text with a character that is no blank;
* `lastVisible`, the last character of a text that is no blank;
* `Tight`, for texts that neither begin nor end with a blank, which `trim` leaves as they are.
-/

namespace CodeCoach.Text

variable {a b c d w z : List Char} {x y : Char}

theorem bne_of_not_mem (h : x ∉ a) : ∀ c ∈ a, (c != x) = true := by
  intro c hc
  rw [bne_iff_ne]
  rintro rfl
  exact h hc

/-- A character that is not in a text stands at the split after that text or behind it. -/
theorem append_cons_cases (hy : y ∉ a) (h : a ++ x :: b = c ++ y :: d) :
    (c = a ∧ y = x ∧ d = b) ∨ ∃ z, c = a ++ x :: z ∧ b = z ++ y :: d := by
  rcases List.append_eq_append_iff.1 h with ⟨z, rfl, hz⟩ | ⟨z, rfl, hz⟩
  · cases z with
    | nil =>
      obtain ⟨rfl, rfl⟩ := List.cons.inj hz
      exact .inl ⟨List.append_nil a, rfl, rfl⟩
    | cons _ z =>
      obtain ⟨rfl, rfl⟩ := List.cons.inj hz
      exact .inr ⟨z, rfl, rfl⟩
  · cases z with
    | nil =>
      obtain ⟨rfl, rfl⟩ := List.cons.inj hz
      exact .inl ⟨(List.append_nil c).symm, rfl, rfl⟩
    | cons _ z =>
      obtain ⟨rfl, rfl⟩ := List.cons.inj hz
      exact absurd (List.mem_append_right c List.mem_cons_self) hy

/-- A character that is not in the last part of a text stands before that part. -/
theorem append_eq_append_cons (hx : x ∉ w) (h : a ++ w = b ++ x :: c) :
    ∃ z, a = b ++ x :: z ∧ c = z ++ w := by
  rcases List.append_eq_append_iff.1 h with ⟨z, -, rfl⟩ | ⟨z, rfl, hz⟩
  · exact absurd (List.mem_append_right z List.mem_cons_self) hx
  · cases z with
    | nil =>
      obtain rfl : w = x :: c := hz.symm
      exact absurd List.mem_cons_self hx
    | cons _ z =>
      obtain ⟨rfl, rfl⟩ := List.cons.inj hz
      exact ⟨z, rfl, rfl⟩

/-! ### Words in a text -/

theorem prefix_append_cons_iff (hx : x ∉ w) : w <+: a ++ x :: b ↔ w <+: a := by
  induction a generalizing w with
  | nil =>
    rw [List.nil_append, List.prefix_cons_iff, List.prefix_nil]
    refine or_iff_left ?_
    rintro ⟨t, rfl, -⟩
    exact hx List.mem_cons_self
  | cons c a ih =>
    rw [List.cons_append, List.prefix_cons_iff, List.prefix_cons_iff]
    refine or_congr_right (exists_congr fun t => and_congr_right ?_)
    rintro rfl
    exact ih fun h => hx (List.mem_cons_of_mem c h)

theorem infix_append_cons_iff (hx : x ∉ w) : w <:+: a ++ x :: b ↔ w <:+: a ∨ w <:+: b := by
  induction a with
  | nil =>
    have hnil : w <+: x :: b ↔ w <+: [] := prefix_append_cons_iff (a := []) hx
    rw [List.nil_append, List.infix_cons_iff, hnil, List.prefix_nil, List.infix_nil]
  | cons c a ih =>
    have hcons : w <+: c :: (a ++ x :: b) ↔ w <+: c :: a := prefix_append_cons_iff (a := c :: a) hx
    rw [List.cons_append, List.infix_cons_iff, hcons, ih, List.infix_cons_iff, or_assoc]

/-- A word that ends in a character which does not come again stands before. -/
theorem infix_of_concat_infix_append (hx : x ∉ b) (h : w ++ [x] <:+: a ++ b) : w ++ [x] <:+: a := by
  obtain ⟨front, back, h⟩ := h
  have hsplit : a ++ b = (front ++ w) ++ x :: back := by simp [← h]
  obtain ⟨z, rfl, -⟩ := append_eq_append_cons hx hsplit
  exact ⟨front, z, by simp⟩

theorem containsChars_iff_infix {cs : List Char} : containsChars w cs ↔ w <:+: cs := by
  induction cs with
  | nil => simp [containsChars]
  | cons c cs ih =>
    rw [containsChars, Bool.or_eq_true, ih, List.isPrefixOf_iff_prefix, List.infix_cons_iff]

theorem contains_iff_infix {word : String} {cs : List Char} :
    contains word cs ↔ word.toList <:+: cs := containsChars_iff_infix

/-- A text without some character of a word does not contain the word. -/
theorem contains_eq_false {word : String} {cs : List Char} (hword : x ∈ word.toList) (hcs : x ∉ cs) :
    contains word cs = false := by
  rw [Bool.eq_false_iff, ne_eq, contains_iff_infix]
  exact fun h => hcs (h.sublist.mem hword)

theorem startsWith_iff_prefix {word : String} {cs : List Char} :
    startsWith word cs ↔ ∃ rest, cs = word.toList ++ rest := by
  rw [startsWith, List.isPrefixOf_iff_prefix]
  exact exists_congr fun _ => eq_comm

/-- Whether a text begins with a word is settled before any character that is not in the word. -/
theorem startsWith_append_cons {word : String} (hx : x ∉ word.toList) (a b : List Char) :
    startsWith word (a ++ x :: b) = startsWith word a := by
  rw [Bool.eq_iff_iff, startsWith, startsWith, List.isPrefixOf_iff_prefix,
    List.isPrefixOf_iff_prefix, prefix_append_cons_iff hx]

/-! ### Blanks -/

/-- The code points of the blanks. -/
def blankCodes : List Nat :=
  List.range' 9 5 ++ [0x20, 0x85, 0xA0, 0x1680] ++ List.range' 0x2000 11 ++
    [0x2028, 0x2029, 0x202F, 0x205F, 0x3000]

theorem toNat_mem_blankCodes {c : Char} (h : isBlank c) : c.toNat ∈ blankCodes := by
  simp only [isBlank, Bool.or_eq_true, Bool.and_eq_true, decide_eq_true_eq, beq_iff_eq] at h
  simp only [blankCodes, List.mem_append, List.mem_range'_1, List.mem_cons, List.not_mem_nil, or_false]
  omega

/-- A blank is no word character. -/
theorem isWord_of_isBlank {c : Char} (h : isBlank c) : isWord c = false := by
  have hcodes : ∀ n ∈ blankCodes, isWord (Char.ofNat n) = false := by decide +kernel
  rw [← Char.ofNat_toNat c]
  exact hcodes _ (toNat_mem_blankCodes h)

theorem trimStart_append_cons (hx : isBlank x = false) (a b : List Char) :
    trimStart (a ++ x :: b) = trimStart a ++ x :: b := by
  induction a with
  | nil => simp [trimStart_cons, hx]
  | cons c a ih =>
    rw [List.cons_append, trimStart_cons, trimStart_cons, ih]
    split <;> rfl

/-- The last character of a text that is no blank. -/
def lastVisible (cs : List Char) : Option Char := cs.reverse.find? fun c => !isBlank c

theorem lastVisible_append (a b : List Char) :
    lastVisible (a ++ b) = (lastVisible b).or (lastVisible a) := by
  rw [lastVisible, List.reverse_append, List.find?_append]
  rfl

theorem lastVisible_of_blank (h : ∀ c ∈ a, isBlank c) : lastVisible a = none := by
  rw [lastVisible, List.find?_eq_none]
  intro c hc
  simp [h c (List.mem_reverse.1 hc)]

theorem lastVisible_append_cons (hx : isBlank x = false) (hb : ∀ c ∈ b, isBlank c) :
    lastVisible (a ++ x :: b) = some x := by
  have hlast : lastVisible [x] = some x := by simp [lastVisible, hx]
  rw [List.append_cons, lastVisible_append, lastVisible_append, lastVisible_of_blank hb, hlast]
  rfl

theorem exists_of_lastVisible_eq_some {cs : List Char} (h : lastVisible cs = some x) :
    ∃ a b, cs = a ++ x :: b ∧ ∀ c ∈ b, isBlank c := by
  obtain ⟨-, b, a, hcs, hb⟩ := List.find?_eq_some_iff_append.1 h
  refine ⟨a.reverse, b.reverse, ?_, fun c hc => ?_⟩
  · rw [← List.reverse_reverse cs, hcs]
    simp
  · simpa using hb c (List.mem_reverse.1 hc)

/-! ### Trimming -/

/-- The text neither begins nor ends with a blank. -/
structure Tight (cs : List Char) : Prop where
  head : ∀ c, cs.head? = some c → isBlank c = false
  last : ∀ c, cs.getLast? = some c → isBlank c = false

theorem tight_of_forall_mem (h : ∀ c ∈ a, isBlank c = false) : Tight a :=
  ⟨fun c hc => h c (List.mem_of_head? hc), fun c hc => h c (List.mem_of_getLast? hc)⟩

theorem Tight.append_cons (ha : Tight a) (hb : Tight b) (ha' : a ≠ []) (hb' : b ≠ []) (x : Char) :
    Tight (a ++ x :: b) := by
  refine ⟨fun c hc => ha.head c ?_, fun c hc => hb.last c ?_⟩
  · rwa [List.head?_append_of_ne_nil _ ha'] at hc
  · rwa [List.getLast?_append_of_ne_nil _ (by simp), List.getLast?_cons_of_ne_nil hb'] at hc

theorem trim_of_tight {cs : List Char} (h : Tight cs) : trim cs = cs := by
  have hstart : trimStart cs = cs := by
    unfold trimStart
    cases cs with
    | nil => rfl
    | cons c cs => rw [List.dropWhile_cons_of_neg (by simp [h.head c rfl])]
  unfold trim trimEnd
  rw [hstart]
  cases hlast : cs.reverse with
  | nil => simpa using hlast.symm
  | cons c rest =>
    have hc : isBlank c = false := h.last c (by rw [← List.head?_reverse, hlast]; rfl)
    rw [List.dropWhile_cons_of_neg (by simp [hc]), ← hlast, List.reverse_reverse]

theorem isBlank_of_head?_trimStart {cs : List Char} (h : (trimStart cs).head? = some x) :
    isBlank x = false := by
  have hnot := List.head?_dropWhile_not isBlank cs
  unfold trimStart at h
  rw [h] at hnot
  simpa using hnot

theorem trimEnd_prefix (cs : List Char) : trimEnd cs <+: cs := by
  unfold trimEnd
  rw [← List.reverse_suffix, List.reverse_reverse]
  exact List.dropWhile_suffix _

theorem tight_trim (cs : List Char) : Tight (trim cs) := by
  refine ⟨fun c hc => ?_, fun c hc => ?_⟩
  · -- What is left begins as the text does after its leading blanks.
    obtain ⟨rest, hrest⟩ := trimEnd_prefix (trimStart cs)
    have hhead : (trimStart cs).head? = some c := by
      rw [← hrest, List.head?_append]
      unfold trim at hc
      rw [hc]
      rfl
    exact isBlank_of_head?_trimStart hhead
  · unfold trim trimEnd at hc
    rw [List.getLast?_reverse] at hc
    exact isBlank_of_head?_trimStart hc

/-- A blank at the end is trimmed. -/
theorem trim_concat (hx : isBlank x) (a : List Char) : trim (a ++ [x]) = trim a := by
  unfold trim trimEnd trimStart
  rw [List.dropWhile_append]
  split
  · next h => simp [List.isEmpty_iff.1 h, hx]
  · simp [hx]

theorem trim_eq_nil_iff {cs : List Char} : trim cs = [] ↔ isAllBlank cs = true := by
  have hall : trimStart cs = [] ↔ isAllBlank cs = true := by
    rw [trimStart, List.dropWhile_eq_nil_iff, isAllBlank, List.all_eq_true]
  rw [← hall]
  constructor
  · intro h
    -- Otherwise what is left would begin with a character that is no blank.
    rw [trim, trimEnd, List.reverse_eq_nil_iff, List.dropWhile_eq_nil_iff] at h
    cases hstart : trimStart cs with
    | nil => rfl
    | cons c rest =>
      have hc : isBlank c = false := isBlank_of_head?_trimStart (congrArg List.head? hstart)
      rw [h c (by simp [hstart])] at hc
      cases hc
  · intro h
    rw [trim, h]
    rfl

end CodeCoach.Text
