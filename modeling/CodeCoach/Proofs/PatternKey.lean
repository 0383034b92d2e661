import CodeCoach.Issue

/-!
# Pattern keys tell apart what they should

* `patternKey_inj`: two findings have one key exactly when they have one kind and their snippets
  begin with the same thirty characters.
-/

namespace CodeCoach

/-- No name of a kind has a colon, so the first colon of a key ends the kind. -/
theorem Kind.ne_colon_of_mem_name {kind : Kind} {c : Char} (h : c ∈ kind.name.toList) : c ≠ ':' := by
  have hall : kind.name.toList.all (· != ':') = true := by cases kind <;> decide
  simpa using List.all_eq_true.1 hall c h

theorem toList_patternKey (kind : Kind) (snippet : String) :
    (patternKey kind snippet).toList =
      kind.name.toList ++ ':' :: snippet.toList.take keyLength := by
  simp [patternKey]

theorem takeWhile_patternKey (kind : Kind) (snippet : String) :
    (patternKey kind snippet).toList.takeWhile (· != ':') = kind.name.toList := by
  rw [toList_patternKey, List.takeWhile_append_of_pos]
  · simp
  · intro c hc
    simpa using Kind.ne_colon_of_mem_name hc

theorem patternKey_inj {kind kind' : Kind} {snippet snippet' : String} :
    patternKey kind snippet = patternKey kind' snippet' ↔
      kind = kind' ∧ snippet.toList.take keyLength = snippet'.toList.take keyLength := by
  constructor
  · intro h
    have hname : kind.name.toList = kind'.name.toList := by
      rw [← takeWhile_patternKey kind snippet, h, takeWhile_patternKey]
    obtain rfl := Kind.name_inj.1 (String.toList_inj.1 hname)
    have hkey := congrArg String.toList h
    rw [toList_patternKey, toList_patternKey] at hkey
    exact ⟨rfl, List.tail_eq_of_cons_eq (List.append_cancel_left hkey)⟩
  · rintro ⟨rfl, hstart⟩
    rw [← String.toList_inj, toList_patternKey, toList_patternKey, hstart]

end CodeCoach
