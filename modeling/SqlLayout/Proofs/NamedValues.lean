import SqlLayout.Proofs.AllowedValues

/-! # Named values

Assigning keeps the names of named values apart and changes the value of one name. Validation drops
names that no option has and keeps the others in order, each with the value that its check gives.
-/

namespace SqlLayout

theorem lookup_cons_ite {α β : Type} [DecidableEq α] [BEq α] [LawfulBEq α] (a : α) (e : α × β)
    (rest : List (α × β)) :
    (e :: rest).lookup a = if a = e.1 then some e.2 else rest.lookup a := by
  obtain ⟨b, x⟩ := e
  rw [List.lookup_cons]
  by_cases h : a = b
  · simp [h]
  · simp [beq_eq_false_iff_ne.mpr h, h]

theorem mem_of_lookup {α β : Type} [BEq α] [LawfulBEq α] {a : α} {b : β} {l : List (α × β)}
    (h : l.lookup a = some b) : (a, b) ∈ l := by
  obtain ⟨before, after, rfl, -⟩ := List.lookup_eq_some_iff.mp h
  simp

namespace Entries

abbrev names (entries : Entries) : List Text :=
  entries.map (·.1)

def Textual (entries : Entries) : Prop :=
  ∀ e ∈ entries, ∃ s, e.2 = .text s

variable {entries : Entries} {name : Text} {value : Setting}

theorem lookup_assign (name : Text) (value : Setting) (entries : Entries) (other : Text) :
    (entries.assign name value).lookup other
      = if other = name then some value else entries.lookup other := by
  induction entries with
  | nil => rw [assign, lookup_cons_ite]
  | cons e rest ih =>
      obtain ⟨n, v⟩ := e
      rw [assign, lookup_cons_ite other (n, v)]
      by_cases hn : n = name
      · rw [if_pos hn, lookup_cons_ite, hn]
        by_cases h : other = name <;> simp [h]
      · rw [if_neg hn, lookup_cons_ite, ih]
        by_cases h : other = n
        · simp [h, hn]
        · simp [h]

theorem mem_assign {e : Text × Setting} (h : e ∈ entries.assign name value) :
    e = (name, value) ∨ e ∈ entries := by
  induction entries with
  | nil => exact .inl (List.mem_singleton.mp h)
  | cons first rest ih =>
      obtain ⟨n, v⟩ := first
      rw [assign] at h
      split at h
      · rename_i hn
        subst hn
        exact (List.mem_cons.mp h).imp_right (List.mem_cons_of_mem _)
      · rcases List.mem_cons.mp h with rfl | h
        · exact .inr (by simp)
        · exact (ih h).imp_right (List.mem_cons_of_mem _)

theorem nodup_assign (h : entries.names.Nodup) : (entries.assign name value).names.Nodup := by
  induction entries with
  | nil => simp [assign]
  | cons first rest ih =>
      obtain ⟨n, v⟩ := first
      rw [names, List.map_cons, List.nodup_cons] at h
      rw [assign]
      split
      · rw [names, List.map_cons, List.nodup_cons]
        exact h
      · rename_i hn
        rw [names, List.map_cons, List.nodup_cons]
        refine ⟨fun hmem => ?_, ih h.2⟩
        obtain ⟨e, he, heq⟩ := List.mem_map.mp hmem
        rcases mem_assign he with rfl | he
        · exact hn heq.symm
        · exact h.1 (heq ▸ List.mem_map_of_mem he)

theorem Textual.assign (h : entries.Textual) (s : Text) : (entries.assign name (.text s)).Textual := by
  intro e he
  rcases mem_assign he with rfl | he
  · exact ⟨s, rfl⟩
  · exact h e he

theorem lookup_eq_none_iff : entries.lookup name = none ↔ name ∉ entries.names := by
  rw [List.lookup_eq_none_iff]
  constructor
  · intro h hmem
    obtain ⟨e, he, rfl⟩ := List.mem_map.mp hmem
    simpa using h e he
  · intro h e he
    rw [bne_iff_ne]
    rintro rfl
    exact h (List.mem_map_of_mem he)

/-- Allowed values stand under host names only. -/
theorem Allowed.lookup_fieldName (h : entries.Allowed) (option : OptionName) :
    entries.lookup option.fieldName = none := by
  rw [lookup_eq_none_iff]
  intro hmem
  obtain ⟨e, he, heq⟩ := List.mem_map.mp hmem
  obtain ⟨other, hname, -⟩ := h e he
  exact OptionName.hostName_ne_fieldName other option (hname.trans heq)

theorem Allowed.of_lookup (h : entries.Allowed) {option : OptionName}
    (hv : entries.lookup option.hostName = some value) : option.allows value = true := by
  obtain ⟨other, hname, hallows⟩ := h (option.hostName, value) (mem_of_lookup hv)
  exact OptionName.hostName_inj hname ▸ hallows

end Entries

open Entries

theorem validate_cons_ok {e : Text × Setting} {rest checked : Entries}
    (h : validate (e :: rest) = .ok checked) :
    ∃ first others, Validation.checkEntry e.1 e.2 = .ok first ∧ validate rest = .ok others ∧
      checked = first ++ others := by
  rw [validate] at h
  cases hfirst : Validation.checkEntry e.1 e.2 with
  | error fault => simp [hfirst] at h
  | ok first =>
      cases hrest : validate rest with
      | error fault => simp [hfirst, hrest] at h
      | ok others =>
          simp only [hfirst, hrest, Except.ok.injEq] at h
          exact ⟨first, others, rfl, rfl, h.symm⟩

/-- What is left of named values that pass the validation is allowed. -/
theorem allowed_of_validate {entries checked : Entries} (h : validate entries = .ok checked) :
    checked.Allowed := by
  induction entries generalizing checked with
  | nil =>
      cases h
      simp [Allowed]
  | cons e rest ih =>
      obtain ⟨first, others, hfirst, hrest, rfl⟩ := validate_cons_ok h
      intro x hx
      rcases List.mem_append.mp hx with hx | hx
      · rcases Validation.checkEntry_ok hfirst with rfl | ⟨option, value, hname, hvalue, rfl⟩
        · simp at hx
        · obtain rfl := List.mem_singleton.mp hx
          exact ⟨option, hname, Validation.allows_of_check hvalue⟩
      · exact ih hrest x hx

theorem names_validate {entries checked : Entries} (h : validate entries = .ok checked) :
    checked.names.Sublist entries.names := by
  induction entries generalizing checked with
  | nil =>
      cases h
      exact .slnil
  | cons e rest ih =>
      obtain ⟨first, others, hfirst, hrest, rfl⟩ := validate_cons_ok h
      rcases Validation.checkEntry_ok hfirst with rfl | ⟨option, value, -, -, rfl⟩
      · exact (ih hrest).cons e.1
      · exact (ih hrest).cons_cons e.1

/-- An option of texts that pass the validation has the value that its check gives. -/
theorem lookup_validate {entries checked : Entries} (hs : entries.Textual)
    (h : validate entries = .ok checked) {option : OptionName} {given : Setting}
    (hgiven : entries.lookup option.hostName = some given) :
    ∃ value, Validation.check option given = .ok value ∧
      checked.lookup option.hostName = some value := by
  induction entries generalizing checked with
  | nil => simp at hgiven
  | cons e rest ih =>
      obtain ⟨first, others, hfirst, hrest, rfl⟩ := validate_cons_ok h
      obtain ⟨name, x⟩ := e
      obtain ⟨s, rfl⟩ : ∃ s, x = .text s := hs _ (List.mem_cons_self ..)
      rw [lookup_cons_ite] at hgiven
      by_cases hn : option.hostName = name
      · subst hn
        rw [if_pos rfl, Option.some.injEq] at hgiven
        subst hgiven
        simp only [Validation.checkEntry_text, OptionName.ofHostName?_hostName] at hfirst
        cases hvalue : Validation.check option (.text s) with
        | error fault => simp [hvalue] at hfirst
        | ok value =>
            simp only [hvalue, Except.ok.injEq] at hfirst
            subst hfirst
            exact ⟨value, rfl, by simp⟩
      · rw [if_neg hn] at hgiven
        obtain ⟨value, hvalue, hlookup⟩ :=
          ih (fun e he => hs e (List.mem_cons_of_mem _ he)) hrest hgiven
        refine ⟨value, hvalue, ?_⟩
        rcases Validation.checkEntry_ok hfirst with rfl | ⟨other, v, -, -, rfl⟩
        · exact hlookup
        · rw [List.singleton_append, lookup_cons_ite, if_neg hn, hlookup]

theorem ne_infinite_of_validate {entries : Entries} {fault : ValidationFault} (hs : entries.Textual)
    (h : validate entries = .error fault) : fault ≠ .infinite := by
  induction entries with
  | nil => simp [validate] at h
  | cons e rest ih =>
      obtain ⟨name, x⟩ := e
      obtain ⟨s, rfl⟩ : ∃ s, x = .text s := hs _ (List.mem_cons_self ..)
      rw [validate] at h
      cases hfirst : Validation.checkEntry name (.text s) with
      | error f =>
          simp only [hfirst, Except.error.injEq] at h
          subst h
          exact Validation.ne_infinite_of_checkEntry hfirst
      | ok first =>
          cases hrest : validate rest with
          | ok others => simp [hfirst, hrest] at h
          | error f =>
              simp only [hfirst, hrest, Except.error.injEq] at h
              exact ih (fun e he => hs e (List.mem_cons_of_mem _ he)) (hrest.trans (congrArg _ h))

end SqlLayout
