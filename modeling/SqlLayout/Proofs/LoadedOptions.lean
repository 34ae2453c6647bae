import SqlLayout.Proofs.NamedValues

/-! # Options of a config file

What a config file gives is allowed by the schema, under host names that are all different. Of several
entries for one option the last one counts. A file that gives nothing is at fault in a way that
callers are told of; only a path that cannot be looked at is at fault in another way.
-/

namespace SqlLayout.Config

open Entries

theorem hostNameOf_eq_iff {name : Text} {option : OptionName} :
    hostNameOf name = option.hostName ↔ name = option.hostName ∨ name = option.fieldName := by
  unfold hostNameOf
  cases hname : OptionName.ofFieldName? name with
  | none =>
      refine ⟨.inl, fun h => h.resolve_right ?_⟩
      rintro rfl
      simp [OptionName.ofFieldName?_fieldName] at hname
  | some other =>
      obtain rfl := OptionName.fieldName_of_ofFieldName? hname
      constructor
      · intro h
        exact .inr (congrArg OptionName.fieldName (OptionName.hostName_inj h))
      · rintro (h | h)
        · exact absurd h.symm (OptionName.hostName_ne_fieldName option other)
        · rw [h, OptionName.ofFieldName?_fieldName] at hname
          rw [Option.some.inj hname]

/-! ## Collecting -/

section

variable {path : Text} {values : List (Text × Text)} {found collected : Entries} {entries : List Entry}

theorem collect_cons_ok {e : Entry} (h : collect path values found (e :: entries) = .ok collected) :
    ∃ s, expand values maxDepth e.value = .ok s ∧
      collect path values (found.assign (hostNameOf e.name) (.text s.trim)) entries = .ok collected := by
  rw [collect] at h
  cases hs : expand values maxDepth e.value with
  | error fault => simp [hs] at h
  | ok s =>
      simp only [hs] at h
      exact ⟨s, rfl, h⟩

theorem nodup_collect (h : collect path values found entries = .ok collected)
    (hfound : found.names.Nodup) : collected.names.Nodup := by
  induction entries generalizing found with
  | nil => exact Except.ok.inj h ▸ hfound
  | cons e entries ih =>
      obtain ⟨s, -, hrest⟩ := collect_cons_ok h
      exact ih hrest (nodup_assign hfound)

theorem textual_collect (h : collect path values found entries = .ok collected)
    (hfound : found.Textual) : collected.Textual := by
  induction entries generalizing found with
  | nil => exact Except.ok.inj h ▸ hfound
  | cons e entries ih =>
      obtain ⟨s, -, hrest⟩ := collect_cons_ok h
      exact ih hrest (hfound.assign _)

/-- The last entry for a host name gives its value, and without one the value stays. -/
theorem lookup_collect (h : collect path values found entries = .ok collected) (name : Text) :
    (collected.lookup name = found.lookup name ∧ ∀ e ∈ entries, hostNameOf e.name ≠ name) ∨
      ∃ before e after s, entries = before ++ e :: after ∧ hostNameOf e.name = name ∧
        (∀ x ∈ after, hostNameOf x.name ≠ name) ∧ expand values maxDepth e.value = .ok s ∧
        collected.lookup name = some (.text s.trim) := by
  induction entries generalizing found with
  | nil => exact .inl ⟨Except.ok.inj h ▸ rfl, by simp⟩
  | cons e entries ih =>
      obtain ⟨s, hs, hrest⟩ := collect_cons_ok h
      rcases ih hrest with ⟨hlookup, hnone⟩ | ⟨before, x, after, t, rfl, hx, hafter, ht, hlookup⟩
      · rw [lookup_assign] at hlookup
        by_cases hname : name = hostNameOf e.name
        · rw [if_pos hname] at hlookup
          exact .inr ⟨[], e, entries, s, rfl, hname.symm, hnone, hs, hlookup⟩
        · rw [if_neg hname] at hlookup
          refine .inl ⟨hlookup, fun x hx => ?_⟩
          rcases List.mem_cons.mp hx with rfl | hx
          · exact Ne.symm hname
          · exact hnone x hx
      · exact .inr ⟨e :: before, x, after, t, rfl, hx, hafter, ht, hlookup⟩

theorem collect_fault {fault : LoadFault} (h : collect path values found entries = .error fault) :
    ∃ option raw cause, fault = .reference path option raw cause := by
  induction entries generalizing found with
  | nil => simp [collect] at h
  | cons e entries ih =>
      rw [collect] at h
      cases hs : expand values maxDepth e.value with
      | error cause =>
          simp only [hs, Except.error.injEq] at h
          exact ⟨_, _, _, h.symm⟩
      | ok s =>
          simp only [hs] at h
          exact ih h

end

/-! ## Loading -/

/-- The faults that callers are told of: the file is missing, or it is wrong in what it holds. -/
def LoadFault.Foretold : LoadFault → Prop
  | .unreachable _ | .value .infinite => False
  | _ => True

/-- Options as a config file gives them. -/
structure Loaded (options : Entries) : Prop where
  nodup : options.names.Nodup
  allowed : options.Allowed

theorem options_ok {path : Text} {d : Document} {options : Entries} (h : d.options path = .ok options) :
    Loaded options := by
  unfold Document.options at h
  split at h
  · simp only at h
    split at h
    · simp at h
    · rename_i found hfound
      cases hchecked : validate found with
      | error fault =>
          rw [hchecked] at h
          cases h
      | ok checked =>
          rw [hchecked] at h
          obtain rfl := Except.ok.inj h
          exact ⟨(names_validate hchecked).nodup (nodup_collect hfound .nil), allowed_of_validate hchecked⟩
  · cases h
    exact ⟨.nil, by simp [Allowed]⟩

theorem options_fault {path : Text} {d : Document} {fault : LoadFault} (h : d.options path = .error fault) :
    fault.Foretold := by
  unfold Document.options at h
  split at h
  · simp only at h
    split at h
    · rename_i cause hcause
      cases h
      obtain ⟨option, raw, cause, rfl⟩ := collect_fault hcause
      trivial
    · rename_i found hfound
      cases hchecked : validate found with
      | ok checked =>
          rw [hchecked] at h
          cases h
      | error cause =>
          rw [hchecked] at h
          obtain rfl := Except.error.inj h
          have hne := ne_infinite_of_validate (textual_collect hfound (by simp [Textual])) hchecked
          cases cause with
          | infinite => exact absurd rfl hne
          | _ => trivial
  · simp at h

/-- What a config file gives is as it should be. -/
theorem load_ok {path : Text} {source : Source} {options : Entries} (h : load path source = .ok options) :
    Loaded options := by
  cases source with
  | missing => simp [load] at h
  | unreachable fault => simp [load] at h
  | unread =>
      cases h
      exact ⟨.nil, by simp [Allowed]⟩
  | file bytes =>
      rw [load] at h
      split at h
      · simp at h
      · simp at h
      · exact options_ok h

/-- Whatever is at the path of a config file, callers are told of the faults that come of it. -/
theorem load_fault {path : Text} {source : Source} {fault : LoadFault}
    (hsource : ∀ cause, source ≠ .unreachable cause) (h : load path source = .error fault) :
    fault.Foretold := by
  cases source with
  | missing =>
      cases h
      trivial
  | unreachable cause => exact absurd rfl (hsource cause)
  | unread => simp [load] at h
  | file bytes =>
      rw [load] at h
      split at h
      · cases h
        trivial
      · cases h
        trivial
      · exact options_fault h

end SqlLayout.Config
