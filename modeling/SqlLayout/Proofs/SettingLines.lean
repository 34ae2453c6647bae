import SqlLayout.Proofs.SettingFiles

/-! # A config file of settings

A config file with one section that gives each of some options a value, one by line, loads those values.
-/

namespace SqlLayout

namespace Config

/-- A line that gives a name a value. -/
def settingLine (name value : Text) : Text :=
  name ++ " = ".toList ++ value ++ ['\n']

/-- A config file with the section that counts, and a line in it for each name with its value. -/
def settingsText (settings : List (Text × Text)) : Text :=
  ('[' :: sectionName ++ "]\n".toList) ++ settings.flatMap fun e => settingLine e.1 e.2

/-- The lines of a config file for an assignment. -/
def settingsOf (names : OptionName → Text) (v : Assignment) : List (Text × Text) :=
  v.map fun e => (names e.1, e.2.display)

/-! ## The rows -/

/-- A line without what ends it. -/
def settingRow (setting : Text × Text) : Text :=
  setting.1 ++ " = ".toList ++ setting.2

theorem joinWith_concat_nil (rows : List Text) :
    Text.joinWith ['\n'] (rows ++ [[]]) = rows.flatMap (· ++ ['\n']) := by
  induction rows with
  | nil => rfl
  | cons row rows ih =>
      obtain ⟨next, rest, hrest⟩ := List.exists_cons_of_ne_nil (show rows ++ [[]] ≠ [] by simp)
      rw [List.cons_append, hrest, Text.joinWith, ← hrest, ih, List.flatMap_cons]

section

variable {setting : Text × Text} (hname : setting.1.OneWord)

include hname

theorem writes_settingRow : Writes (.setting setting.1 setting.2) (settingRow setting) := by
  have hspace : Text.isAllBlank [' '] = true := by decide
  have hhead : setting.1.head? ≠ some '[' := by
    intro h
    exact hname.not_mem (c := '[') (by decide) (List.mem_of_head? h)
  have hsplit : settingRow setting
      = setting.1 ++ ([' '] ++ '=' :: ([' '] ++ (setting.2 ++ []))) := by
    simp [settingRow]
  rw [hsplit]
  exact .setting (isKey_of_oneWord hname) (show isDelimiter '=' = true by decide) hspace hspace
    Text.isAllBlank_nil (.inl hhead)

/-- No character is in a row that is neither in a word nor between the two. -/
theorem not_mem_settingRow (hvalue : setting.2.OneWord) {c : Char} (hc : isWord c = false)
    (hequals : c ∉ " = ".toList) : c ∉ settingRow setting := by
  rw [settingRow, List.mem_append, List.mem_append, not_or, not_or]
  exact ⟨⟨hname.not_mem hc, hequals⟩, hvalue.not_mem hc⟩

end

variable {settings : List (Text × Text)} (hwords : ∀ e ∈ settings, e.1.OneWord ∧ e.2.OneWord)

include hwords

/-- The rows after the header. The last line ends, so there is an empty row behind it. -/
theorem renders_settings :
    Renders (settings.map fun e => .setting e.1 e.2) (settings.map settingRow ++ [[]]) := by
  induction settings with
  | nil => exact .noise (.blank rfl) .nil
  | cons e settings ih =>
      obtain ⟨he, hrest⟩ := List.forall_mem_cons.mp hwords
      exact .item (writes_settingRow he.1) (ih hrest)

theorem isFileOf_settingsText : IsFileOf [(sectionName, settings)] (settingsText settings) := by
  have hplain : ∀ c, isWord c = false → c ∉ " = ".toList → c ∉ '[' :: (sectionName ++ [']']) →
      ∀ row ∈ ('[' :: (sectionName ++ [']'])) :: settings.map settingRow, c ∉ row := by
    intro c hc hequals hheader row hrow
    rcases List.mem_cons.mp hrow with rfl | hrow
    · exact hheader
    · obtain ⟨e, he, rfl⟩ := List.mem_map.mp hrow
      exact not_mem_settingRow (hwords e he).1 (hwords e he).2 hc hequals
  have htext : settingsText settings
      = ((('[' :: (sectionName ++ [']'])) :: settings.map settingRow).flatMap (· ++ ['\n'])) := by
    simp [settingsText, settingLine, settingRow, List.flatMap_map]
  have hreturn : '\r' ∉ settingsText settings := by
    rw [htext, List.mem_flatMap]
    rintro ⟨row, hrow, hmem⟩
    rcases List.mem_append.mp hmem with hmem | hmem
    · exact hplain '\r' (by decide) (by decide) (by decide) row hrow hmem
    · simp at hmem
  refine ⟨(('[' :: (sectionName ++ [']'])) :: settings.map settingRow) ++ [[]], ?_, ?_, ?_⟩
  · have hheader : Writes (.header sectionName) ('[' :: (sectionName ++ [']'])) := .header (by decide)
    have hrows := Renders.item hheader (renders_settings hwords)
    simpa [Block.items] using hrows
  · intro row hrow
    rcases List.mem_append.mp hrow with hrow | hrow
    · exact hplain '\n' (by decide) (by decide) (by decide) row hrow
    · simp [List.mem_singleton.mp hrow]
  · rw [Text.unifyLineEnds_of_not_mem hreturn, htext, joinWith_concat_nil]

omit hwords

/-- A config file with a line for each value of an assignment loads the assignment. -/
theorem load_settingsText {names : OptionName → Text} {v : Assignment} (hnames : IsNaming names)
    (hv : v.Valid) (path : Text) :
    load path (.file (Utf8.encode (settingsText (settingsOf names v)))) = .ok v.entries := by
  have hwords : ∀ e ∈ settingsOf names v, e.1.OneWord ∧ e.2.OneWord := by
    intro x hx
    obtain ⟨e, he, rfl⟩ := List.mem_map.mp hx
    refine ⟨?_, (hv.valid e he).oneWord⟩
    rcases hnames e.1 with h | h
    · exact h ▸ e.1.oneWord_hostName
    · exact h ▸ e.1.oneWord_fieldName
  have hnone : Distinct ([] ++ []) := ⟨List.nodup_nil, by simp, by simp⟩
  have hone : Distinct ([] ++ (sectionName, settingsOf names v) :: []) :=
    hnone.insert (by simp) (show sectionName ≠ defaultSection by decide) (hnames.nodup hv.nodup)
  exact load_assignment hnames hv.nodup (fun e he => (hv.valid e he).writtenAs) hone
    (isFileOf_settingsText hwords) path

end Config

end SqlLayout
