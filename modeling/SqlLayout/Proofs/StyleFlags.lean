import SqlLayout.Proofs.Precedence
import SqlLayout.Proofs.WrittenValues

/-! # Flags for valid values

A flag for an option may be spelled in full or by a beginning, with its value after it or attached. Flags
for the values of an assignment are read as the assignment.
-/

namespace SqlLayout.CommandLine

/-- Arguments that give an option a value: a flag for the option, with the value after it or attached. -/
inductive FlagFor (option : OptionName) (value : Text) : List Text → Prop
  | apart {flag : Text} (h : Argument.ofText flag = .ok (.flag (.style option) none)) :
      FlagFor option value [flag, value]
  | attached {flag : Text} (h : Argument.ofText flag = .ok (.flag (.style option) (some value))) :
      FlagFor option value [flag]

/-- Arguments that give each option of an assignment its value, in order. -/
inductive FlagsFor : Assignment → List Text → Prop
  | nil : FlagsFor [] []
  | cons {option : OptionName} {value : Setting} {v : Assignment} {texts rest : List Text}
      (h : FlagFor option value.display texts) (hrest : FlagsFor v rest) :
      FlagsFor ((option, value) :: v) (texts ++ rest)

/-! ## Flags in full -/

theorem ofText_spelling (option : OptionName) :
    Argument.ofText (Flag.style option).spelling = .ok (.flag (.style option) none) := by
  cases option <;> rfl

theorem splitAttached_append {name : Text} (h : '=' ∉ name) (value : Text) :
    splitAttached (name ++ '=' :: value) = (name, some value) := by
  have hplain : ∀ c ∈ name, decide (c ≠ '=') = true := fun c hc =>
    decide_eq_true fun heq => h (heq ▸ hc)
  rw [splitAttached, List.dropWhile_append_of_pos hplain, List.takeWhile_append_of_pos hplain]
  simp

theorem ofText_attached (option : OptionName) (value : Text) :
    Argument.ofText ((Flag.style option).spelling ++ '=' :: value)
      = .ok (.flag (.style option) (some value)) := by
  have hequals : '=' ∉ (Flag.style option).spelling := by cases option <;> decide
  have hspellings : ∀ e ∈ Flag.spellings, '=' ∉ e.1 := by decide
  have hlookup : Flag.spellings.lookup ((Flag.style option).spelling ++ '=' :: value) = none := by
    rw [List.lookup_eq_none_iff]
    intro e he
    rw [bne_iff_ne]
    rintro heq
    exact hspellings e he (heq ▸ by simp)
  have hfound : Flag.spellings.lookup (Flag.style option).spelling = some (.style option) := by
    cases option <;> decide
  have hhelp : (Flag.style option).spelling ≠ helpLetter := by cases option <;> decide
  have hdashed : Argument.ofDashed ((Flag.style option).spelling ++ '=' :: value)
      = .ok (.flag (.style option) (some value)) := by
    rw [Argument.ofDashed, splitAttached_append hequals]
    simp only [hfound, if_neg hhelp]
  have hdashes : (Flag.style option).spelling = '-' :: '-' :: dashed option.fieldName := rfl
  rw [Argument.ofText, if_neg (by simp [hdashes]), if_neg (by simp [hdashes]), hlookup]
  exact hdashed

theorem FlagFor.full_apart (option : OptionName) (value : Text) :
    FlagFor option value [(Flag.style option).spelling, value] :=
  .apart (ofText_spelling option)

theorem FlagFor.full_attached (option : OptionName) (value : Text) :
    FlagFor option value [(Flag.style option).spelling ++ '=' :: value] :=
  .attached (ofText_attached option value)

/-! ## Reading -/

theorem ofText_word {s : Text} (h : s.OneWord) : Argument.ofText s = .ok (.value s) := by
  have hdash : s.head? ≠ some '-' := fun hhead => h.not_mem (by decide) (List.mem_of_head? hhead)
  rw [Argument.ofText, if_pos (.inl hdash)]

theorem ofTexts_cons {s : Text} {x : Argument} {rest : List Text} {others : List Argument}
    (hs : Argument.ofText s = .ok x) (hx : x ≠ .dashes) (hrest : Argument.ofTexts rest = .ok others) :
    Argument.ofTexts (s :: rest) = .ok (x :: others) := by
  rw [Argument.ofTexts, hs]
  cases x with
  | dashes => exact absurd rfl hx
  | _ => simp only [hrest, Except.map]

/-- What has been read, with a value for an option. -/
def Reading.give (r : Reading) (option : OptionName) (value : Setting) : Reading :=
  { r with found := { r.found with styles := (option, value) :: r.found.styles }, atPath := false }

theorem assign_style (r : Reading) {option : OptionName} {value : Setting} (h : option.Valid value) :
    r.assign (.style option) value.display = .ok (r.give option value) := by
  simp only [Reading.assign, h.styleValue]
  rfl

/-- Arguments that give a value to an option do so wherever they stand. -/
theorem FlagFor.readAll {option : OptionName} {value : Setting} {texts rest : List Text} {others : List Argument}
    (h : FlagFor option value.display texts) (hvalid : option.Valid value)
    (hrest : Argument.ofTexts rest = .ok others) :
    ∃ as, Argument.ofTexts (texts ++ rest) = .ok as ∧
      ∀ r : Reading, r.readAll as = (r.give option value).readAll others := by
  have hword := hvalid.oneWord
  have htakes : (Flag.style option).takesValue = true := rfl
  cases h with
  | apart hflag =>
      refine ⟨_, ofTexts_cons hflag (by simp) (ofTexts_cons (ofText_word hword) (by simp) hrest), fun r => ?_⟩
      rw [Reading.readAll, if_pos htakes, assign_style r hvalid]
      simp
  | attached hflag =>
      have hdashes : value.display ≠ "--".toList := by
        intro heq
        exact hword.not_mem (show isWord '-' = false by decide) (by simp [heq])
      refine ⟨_, ofTexts_cons hflag (by simp) hrest, fun r => ?_⟩
      rw [Reading.readAll, if_neg (by simp [htakes]), if_neg hdashes, assign_style r hvalid]

/-- The flags for an assignment are read once the path has been read. -/
theorem FlagsFor.readAll {v : Assignment} {texts : List Text} (h : FlagsFor v texts) (hv : v.Valid) :
    ∃ as, Argument.ofTexts texts = .ok as ∧ ∀ (r : Reading) (path : Text), r.path = some path → r.extra = [] →
      r.readAll as = .ok (.work { r.found with path, styles := v.reverse ++ r.found.styles }) := by
  induction h with
  | nil =>
      refine ⟨[], rfl, fun r path hpath hextra => ?_⟩
      rw [Reading.readAll, Reading.finish, hpath, hextra]
      rfl
  | @cons option value v texts rest h _ ih =>
      obtain ⟨others, hothers, hread⟩ := ih hv.tail
      obtain ⟨as, has, hgive⟩ := h.readAll (hv.valid _ (List.mem_cons_self ..)) hothers
      refine ⟨as, has, fun r path hpath hextra => ?_⟩
      rw [hgive, hread (r.give option value) path hpath hextra, List.reverse_cons, List.append_assoc]
      rfl

/-- Standard input and flags for an assignment are read as the assignment. -/
theorem readArguments_flags {v : Assignment} {texts : List Text} (h : FlagsFor v texts) (hv : v.Valid) :
    readArguments (['-'] :: texts) = .ok (.work { path := ['-'], styles := v.reverse }) := by
  obtain ⟨as, has, hread⟩ := h.readAll hv
  have hpath : Argument.ofText ['-'] = .ok (.value ['-']) := rfl
  rw [readArguments, ofTexts_cons hpath (by simp) has]
  have hstart := hread { path := some ['-'], atPath := true } ['-'] rfl rfl
  rwa [List.append_nil] at hstart

/-- Standard input and a config file. -/
theorem readArguments_config {name : Text} (h : Argument.ofText name = .ok (.value name)) :
    readArguments [['-'], "--config".toList, name] = .ok (.work { path := ['-'], config := some name }) := by
  have hpath : Argument.ofText ['-'] = .ok (.value ['-']) := rfl
  have hflag : Argument.ofText "--config".toList = .ok (.flag .config none) := rfl
  have htexts : Argument.ofTexts [['-'], "--config".toList, name]
      = .ok [.value ['-'], .flag .config none, .value name] :=
    ofTexts_cons hpath (by simp) (ofTexts_cons hflag (by simp) (ofTexts_cons h (by simp) rfl))
  rw [readArguments, htexts]
  rfl

end SqlLayout.CommandLine
