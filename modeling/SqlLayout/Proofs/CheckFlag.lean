import SqlLayout.CommandLine.Arguments

/-! # Asking for a check

The flag that asks for a check takes no value and sets nothing else, so arguments with that flag in
front come to the same work, as a check.
-/

namespace SqlLayout.CommandLine

/-- The arguments, with a check asked for. -/
def Arguments.checking (a : Arguments) : Arguments :=
  { a with check := true }

namespace Reading

/-- What has been read, with a check asked for. -/
def checking (r : Reading) : Reading :=
  { r with found := r.found.checking }

theorem addValue_checking (r : Reading) (s : Text) :
    r.checking.addValue s = (r.addValue s).checking := by
  obtain ⟨found, path, atPath, extra⟩ := r
  cases path <;> rfl

theorem addDashes_checking (r : Reading) (rest : List Argument) :
    r.checking.addDashes rest = (r.addDashes rest).checking := by
  unfold addDashes
  by_cases h : (r.atPath || (r.path.isNone && !rest.isEmpty)) = true
  · rw [if_pos h]
    exact if_pos h
  · rw [if_neg h]
    exact if_neg h

theorem raise_checking (r : Reading) (flag : Flag) :
    r.checking.raise flag = (r.raise flag).checking := by
  cases flag <;> rfl

theorem assignNone_checking (r : Reading) (flag : Flag) :
    r.checking.assignNone flag = (r.assignNone flag).checking := by
  cases flag <;> rfl

theorem assign_checking (r : Reading) (flag : Flag) (given : Text) :
    r.checking.assign flag given = (r.assign flag given).map checking := by
  cases flag with
  | style option =>
      simp only [assign]
      cases styleValue option given <;> rfl
  | _ => rfl

theorem finish_checking {r : Reading} {a : Arguments} (h : r.finish = .ok (.work a)) :
    r.checking.finish = .ok (.work a.checking) := by
  obtain ⟨found, path, atPath, extra⟩ := r
  cases path with
  | none => simp [finish] at h
  | some path =>
      cases extra with
      | nil =>
          simp only [finish, Except.ok.injEq, Demand.work.injEq] at h
          subst h
          rfl
      | cons s extra => simp [finish] at h

/-- Arguments come to the same work after the flag that asks for a check. -/
theorem readAll_checking {r : Reading} {as : List Argument} {a : Arguments}
    (h : r.readAll as = .ok (.work a)) : r.checking.readAll as = .ok (.work a.checking) := by
  -- no argument looks at what the flag sets
  fun_induction readAll r as with
  | case1 r => exact finish_checking h
  | case2 r s rest ih => rw [readAll, addValue_checking, ih h]
  | case3 r rest ih => rw [readAll, addDashes_checking, ih h]
  | case4 r s rest ih => exact ih h
  | case5 => simp at h
  | case6 r attached rest =>
      simp only [helpWith] at h
      split at h
      · simp at h
      · split at h <;> simp at h
  | case7 | case9 | case11 | case14 => simp at h
  | case8 r flag rest hv ih =>
      rw [readAll, if_neg hv, if_pos rfl, assignNone_checking, ih h]
  | case10 r flag given rest hv hd next hnext ih =>
      rw [readAll, if_neg hv, if_neg hd, assign_checking, hnext]
      exact ih h
  | case12 r flag given rest hflag hv next hnext ih =>
      rw [readAll, if_pos hv, assign_checking, hnext]
      · exact ih h
      · exact hflag
  | case13 r flag given rest hflag hv ih =>
      rw [readAll, if_neg hv, raise_checking, addValue_checking, ih h]
      exact hflag
  | case15 r flag rest hflag hrest hv ih =>
      rw [readAll, if_neg hv, raise_checking, ih h]
      · exact hflag
      · exact hrest

end Reading

theorem ofTexts_check (texts : List Text) :
    Argument.ofTexts ("--check".toList :: texts)
      = (Argument.ofTexts texts).map (.flag .check none :: ·) := by
  have hflag : Argument.ofText "--check".toList = .ok (.flag .check none) := by rfl
  rw [Argument.ofTexts, hflag]

theorem readAll_check (as : List Argument) {a : Arguments}
    (h : ({} : Reading).readAll as = .ok (.work a)) :
    ({} : Reading).readAll (.flag .check none :: as) = .ok (.work a.checking) := by
  have hchecking := Reading.readAll_checking h
  cases as with
  | nil => exact hchecking
  | cons b as =>
      cases b with
      | value given => exact hchecking
      | _ => exact hchecking

/-- The flag in front of arguments asks for the same work, as a check. -/
theorem readArguments_check {texts : List Text} {a : Arguments}
    (h : readArguments texts = .ok (.work a)) :
    readArguments ("--check".toList :: texts) = .ok (.work a.checking) := by
  unfold readArguments at h ⊢
  rw [ofTexts_check]
  cases has : Argument.ofTexts texts with
  | error fault => simp [has] at h
  | ok as =>
      rw [has] at h
      exact readAll_check as h

end SqlLayout.CommandLine
