import SqlLayout.Proofs.CountValues

/-! # Validation entry by entry

Whether named values pass the validation, and what is left of them, is known from each of them alone.
Their order counts for the fault only: it is that of the first one that does not pass. What is left
passes again as it is.
-/

namespace SqlLayout

variable {e : Text × Setting} {rest entries checked : Entries} {fault : ValidationFault}

theorem validate_singleton (e : Text × Setting) : validate [e] = Validation.checkEntry e.1 e.2 := by
  rw [validate]
  cases Validation.checkEntry e.1 e.2 with
  | error fault => rfl
  | ok part => exact congrArg Except.ok (List.append_nil part)

theorem validate_cons_ok_iff : validate (e :: rest) = .ok checked ↔
    ∃ part others, validate [e] = .ok part ∧ validate rest = .ok others ∧ checked = part ++ others := by
  constructor
  · intro h
    obtain ⟨part, others, he, hrest, rfl⟩ := validate_cons_ok h
    exact ⟨part, others, (validate_singleton e).trans he, hrest, rfl⟩
  · rintro ⟨part, others, he, hrest, rfl⟩
    rw [validate_singleton] at he
    simp only [validate, he, hrest]

theorem validate_cons_error_iff : validate (e :: rest) = .error fault ↔
    validate [e] = .error fault ∨
      (∃ part, validate [e] = .ok part) ∧ validate rest = .error fault := by
  rw [validate_singleton, validate]
  cases Validation.checkEntry e.1 e.2 with
  | error f => simp
  | ok part => cases validate rest <;> simp

theorem exists_validate_iff :
    (∃ checked, validate entries = .ok checked) ↔ ∀ e ∈ entries, ∃ part, validate [e] = .ok part := by
  induction entries with
  | nil => simp [validate]
  | cons e rest ih =>
      rw [List.forall_mem_cons, ← ih]
      constructor
      · rintro ⟨checked, h⟩
        obtain ⟨part, others, he, hrest, -⟩ := validate_cons_ok_iff.mp h
        exact ⟨⟨part, he⟩, others, hrest⟩
      · rintro ⟨⟨part, he⟩, others, hrest⟩
        exact ⟨part ++ others, validate_cons_ok_iff.mpr ⟨part, others, he, hrest, rfl⟩⟩

/-- What is left of named values is what is left of each of them alone, one after the other. -/
theorem parts_of_validate (h : validate entries = .ok checked) :
    ∃ parts, List.Forall₂ (fun e part => validate [e] = .ok part) entries parts ∧
      checked = parts.flatten := by
  induction entries generalizing checked with
  | nil => exact ⟨[], .nil, (Except.ok.inj h).symm⟩
  | cons e rest ih =>
      obtain ⟨part, others, he, hrest, rfl⟩ := validate_cons_ok_iff.mp h
      obtain ⟨parts, hparts, rfl⟩ := ih hrest
      exact ⟨part :: parts, .cons he hparts, rfl⟩

/-- The fault is that of the first entry that does not pass alone. -/
theorem validate_error_iff : validate entries = .error fault ↔
    ∃ before e after, entries = before ++ e :: after ∧
      (∀ b ∈ before, ∃ part, validate [b] = .ok part) ∧ validate [e] = .error fault := by
  constructor
  · intro h
    induction entries with
    | nil => cases h
    | cons e rest ih =>
        rcases validate_cons_error_iff.mp h with he | ⟨he, hrest⟩
        · exact ⟨[], e, rest, rfl, by simp, he⟩
        · obtain ⟨before, x, after, rfl, hbefore, hx⟩ := ih hrest
          exact ⟨e :: before, x, after, rfl, List.forall_mem_cons.mpr ⟨he, hbefore⟩, hx⟩
  · rintro ⟨before, e, after, rfl, hbefore, he⟩
    induction before with
    | nil => exact validate_cons_error_iff.mpr (.inl he)
    | cons b before ih =>
        obtain ⟨hb, hbefore⟩ := List.forall_mem_cons.mp hbefore
        exact validate_cons_error_iff.mpr (.inr ⟨hb, ih hbefore⟩)

/-- Allowed values pass as they are. -/
theorem validate_of_allowed (h : entries.Allowed) : validate entries = .ok entries := by
  induction entries with
  | nil => rfl
  | cons e rest ih =>
      obtain ⟨⟨option, hname, hallows⟩, hrest⟩ := List.forall_mem_cons.mp h
      obtain ⟨name, value⟩ := e
      subst hname
      have hvalue := Validation.check_of_allows hallows
      have hgiven := (Validation.check_ok_iff.mp hvalue).ne_absent
      refine validate_cons_ok_iff.mpr ⟨[_], rest, ?_, ih hrest, rfl⟩
      rw [validate_singleton, Validation.checkEntry_hostName hgiven, hvalue]

theorem validate_nothing (h : (∀ option : OptionName, option.hostName ≠ e.1) ∨ e.2 = .absent) :
    validate [e] = .ok [] := by
  rw [validate_singleton]
  rcases h with hname | habsent
  · exact Validation.checkEntry_unknown hname
  · rw [habsent]
    exact Validation.checkEntry_absent e.1

/-- Named values pass if each of them passes alone, and what is left is what is left of each, in order:
    nothing of a name that no option has or of an absent value. It passes again as it is. Otherwise the
    fault is that of the first one that does not pass alone, whatever comes after it. -/
theorem validate_pointwise (entries : Entries) :
    ((∃ checked, validate entries = .ok checked) ↔
        ∀ e ∈ entries, ∃ part, validate [e] = .ok part) ∧
      (∀ checked, validate entries = .ok checked →
        (∃ parts, List.Forall₂ (fun e part => validate [e] = .ok part) entries parts ∧
          checked = parts.flatten) ∧
        validate checked = .ok checked) ∧
      (∀ e ∈ entries, ((∀ option : OptionName, option.hostName ≠ e.1) ∨ e.2 = .absent) →
        validate [e] = .ok []) ∧
      (∀ fault, validate entries = .error fault ↔
        ∃ before e after, entries = before ++ e :: after ∧
          (∀ b ∈ before, ∃ part, validate [b] = .ok part) ∧ validate [e] = .error fault) ∧
      ∀ fault, validate entries = .error fault →
        ∀ more, validate (entries ++ more) = .error fault := by
  refine ⟨exists_validate_iff, fun checked h => ?_, fun e _ => validate_nothing,
    fun _ => validate_error_iff, fun fault h more => ?_⟩
  · exact ⟨parts_of_validate h, validate_of_allowed (allowed_of_validate h)⟩
  · obtain ⟨before, e, after, rfl, hfirst⟩ := validate_error_iff.mp h
    exact validate_error_iff.mpr ⟨before, e, after ++ more, by simp, hfirst⟩

/-- Neither of the last two entries would pass, and the fault is that of the first of them. -/
example :
    validate [("maxColumnLength".toList, .real (.finite false 3 (-1))),
        ("linesBetweenQueries".toList, .text "2".toList)]
      = .ok [("maxColumnLength".toList, .number 1), ("linesBetweenQueries".toList, .number 2)] ∧
    validate [("maxColumnLength".toList, .real (.finite false 3 (-1))),
        ("linesBetweenQueries".toList, .text "2".toList), ("keywordCase".toList, .number 1),
        ("commaPosition".toList, .number 1)]
      = .error (.notAChoice .keywordCase (.number 1)
        ["upper".toList, "lower".toList, "preserve".toList]) :=
  ⟨rfl, rfl⟩

end SqlLayout
