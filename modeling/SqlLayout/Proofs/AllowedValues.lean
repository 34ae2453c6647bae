import SqlLayout.Config.Load

/-! # Allowed values

The schema allows an option some texts or the numbers that are not negative. A value that passes the
check is allowed, and an allowed value passes as it is. So of named values that were validated every
name is the host name of an option, with a value that is allowed for it.
-/

namespace SqlLayout

namespace OptionName

/-- Whether the schema allows an option a value: one of its choices, or a number that is not
    negative. -/
def allows (option : OptionName) (value : Setting) : Bool :=
  match option.spec.kind.choices?, value with
  | some choices, .text s => choices.contains s
  | none, .number n => 0 ≤ n
  | _, _ => false

theorem ofHostName?_hostName (option : OptionName) : ofHostName? option.hostName = some option := by
  cases option <;> decide

theorem ofHostName?_fieldName (option : OptionName) : ofHostName? option.fieldName = none := by
  cases option <;> decide

theorem ofFieldName?_fieldName (option : OptionName) : ofFieldName? option.fieldName = some option := by
  cases option <;> decide

theorem hostName_of_ofHostName? {name : Text} {option : OptionName} (h : ofHostName? name = some option) :
    option.hostName = name := by
  simpa using List.find?_some h

theorem fieldName_of_ofFieldName? {name : Text} {option : OptionName}
    (h : ofFieldName? name = some option) : option.fieldName = name := by
  simpa using List.find?_some h

theorem hostName_inj {option other : OptionName} (h : option.hostName = other.hostName) :
    option = other := by
  have hsome := ofHostName?_hostName option
  rw [h, ofHostName?_hostName] at hsome
  exact (Option.some.inj hsome).symm

theorem hostName_eq_iff {option other : OptionName} :
    option.hostName = other.hostName ↔ option = other :=
  ⟨hostName_inj, congrArg hostName⟩

theorem hostName_ne_fieldName (option other : OptionName) : option.hostName ≠ other.fieldName := by
  intro h
  have hsome := ofHostName?_hostName option
  rw [h, ofHostName?_fieldName] at hsome
  simp at hsome

theorem allows_of_choices {option : OptionName} {choices : List Text} {value : Setting}
    (hc : option.spec.kind.choices? = some choices) :
    option.allows value = true ↔ ∃ s, value = .text s ∧ s ∈ choices := by
  cases value <;> simp [allows, hc]

theorem allows_of_count {option : OptionName} {value : Setting}
    (hc : option.spec.kind.choices? = none) :
    option.allows value = true ↔ ∃ n, value = .number n ∧ 0 ≤ n := by
  cases value <;> simp [allows, hc]

/-- Every default is allowed. -/
theorem allows_default (option : OptionName) : option.allows option.default = true := by
  cases option <;> decide

end OptionName

/-- Named values of which every name is the host name of an option, with a value that is allowed. -/
def Entries.Allowed (entries : Entries) : Prop :=
  ∀ e ∈ entries, ∃ option, OptionName.hostName option = e.1 ∧ option.allows e.2 = true

namespace Validation

/-- What passes the check comes out allowed. -/
theorem allows_of_check {option : OptionName} {given value : Setting}
    (h : check option given = .ok value) : option.allows value = true := by
  unfold check at h
  cases hc : option.spec.kind.choices? with
  | some choices =>
      rw [OptionName.allows_of_choices hc]
      simp only [hc] at h
      split at h
      · split at h
        · rename_i s hs
          exact ⟨s, (Except.ok.inj h).symm, List.contains_iff_mem.mp hs⟩
        · simp at h
      · simp at h
  | none =>
      rw [OptionName.allows_of_count hc]
      simp only [hc] at h
      split at h
      · simp at h
      · rename_i n _
        split at h
        · simp at h
        · exact ⟨n, (Except.ok.inj h).symm, by omega⟩

/-- What is allowed passes the check as it is. -/
theorem check_of_allows {option : OptionName} {value : Setting} (h : option.allows value = true) :
    check option value = .ok value := by
  unfold check
  cases hc : option.spec.kind.choices? with
  | some choices =>
      obtain ⟨s, rfl, hs⟩ := (OptionName.allows_of_choices hc).mp h
      exact if_pos (List.contains_iff_mem.mpr hs)
  | none =>
      obtain ⟨n, rfl, hn⟩ := (OptionName.allows_of_count hc).mp h
      exact if_neg (by omega)

theorem ne_infinite_of_check_text {option : OptionName} {s : Text} {fault : ValidationFault}
    (h : check option (.text s) = .error fault) : fault ≠ .infinite := by
  rintro rfl
  unfold check at h
  cases hc : option.spec.kind.choices? with
  | some choices =>
      simp only [hc] at h
      split at h <;> simp at h
  | none =>
      simp only [hc, readCount] at h
      cases hs : readInt? s with
      | none => simp [hs] at h
      | some n =>
          simp only [hs] at h
          split at h <;> simp at h

theorem checkEntry_text (name s : Text) :
    checkEntry name (.text s) =
      match OptionName.ofHostName? name with
      | none => .ok []
      | some option =>
        match check option (.text s) with
        | .error fault => .error fault
        | .ok value => .ok [(name, value)] := by
  unfold checkEntry
  cases OptionName.ofHostName? name <;> rfl

theorem ne_infinite_of_checkEntry {name s : Text} {fault : ValidationFault}
    (h : checkEntry name (.text s) = .error fault) : fault ≠ .infinite := by
  rw [checkEntry_text] at h
  cases hname : OptionName.ofHostName? name with
  | none => simp [hname] at h
  | some option =>
      cases hvalue : check option (.text s) with
      | ok value => simp [hname, hvalue] at h
      | error f =>
          simp only [hname, hvalue, Except.error.injEq] at h
          exact h ▸ ne_infinite_of_check_text hvalue

/-- An entry contributes nothing, or the allowed value that its check gives. -/
theorem checkEntry_ok {name : Text} {given : Setting} {checked : Entries}
    (h : checkEntry name given = .ok checked) :
    checked = [] ∨ ∃ option value, OptionName.hostName option = name ∧
      check option given = .ok value ∧ checked = [(name, value)] := by
  unfold checkEntry at h
  split at h
  · exact .inl (Except.ok.inj h).symm
  · exact .inl (Except.ok.inj h).symm
  · rename_i option hname _
    split at h
    · simp at h
    · rename_i value hvalue
      exact .inr ⟨option, value, OptionName.hostName_of_ofHostName? hname, hvalue, (Except.ok.inj h).symm⟩

end Validation

end SqlLayout
