import SqlLayout.Proofs.LineEnds
import SqlLayout.Proofs.SettingLines
import SqlLayout.Proofs.StandardInput
import SqlLayout.Proofs.StyleFlags

/-! # Front ends

Values for the options may come from a host, from the flags of the command line or from a config file.
They come to the same options in all three ways, and so to the same layout of a text.
-/

namespace SqlLayout

/-! ## Options -/

theorem Options.ext_get {o o' : Options} (h : ∀ option, o.get option = o'.get option) : o = o' := by
  cases o
  cases o'
  simp only [Options.mk.injEq]
  exact ⟨h .keywordCase, h .indentStyle, h .linesBetweenQueries, h .maxColumnLength, h .commaPosition⟩

theorem Options.ofEntries_congr {entries entries' : Entries}
    (h : ∀ option, choice? entries option = choice? entries' option) : ofEntries entries = ofEntries entries' :=
  ext_get fun option => by rw [get_ofEntries, get_ofEntries, h]

/-- Named values are options, also if there are none. -/
theorem Options.ofHost_map (entries : Entries) : ofHost (.map entries) = .ok (ofEntries entries) := by
  cases entries <;> rfl

/-- The layout of the node of a text, for a host that has named values for the formatter. -/
theorem Host.print_parse (s : Text) (entries : Entries) :
    print (parse s) (.host (.map [(optionsKey, .map entries)])) = .ok (format (.ofEntries entries) s) := by
  have hargument : formatterArgument (.host (.map [(optionsKey, .map entries)])) = .ok (.map entries) := rfl
  have hvalue : (parse s).lookup "value".toList = some (.text s) := rfl
  rw [print, hargument]
  simp only [hvalue, Options.ofHost_map]

namespace CommandLine

section

variable {v : Assignment} {access : Access} {tree : Tree} {home : Path}

/-- Flags for an assignment come to its values, if there is no config file. -/
theorem resolve_flags (hv : v.Valid)
    (hmissing : Config.Source.find tree home (.ofText defaultConfig) access = .missing) :
    resolve access tree home { path := ['-'], styles := v.reverse } = .ok (.ofEntries v.entries) := by
  have hconfigured : configured access tree home { path := ['-'], styles := v.reverse } = .ok [] := by
    simp only [configured, Option.getD_none, List.isEmpty_nil, if_true, hmissing]
  have hheld : ∀ e ∈ v.reverse, Held (fun _ => False) e :=
    fun e he => .inl (hv.valid e (List.mem_reverse.mp he)).allowed
  have hnone : Entries.Allowed [] := by simp [Entries.Allowed]
  rw [resolve, hconfigured]
  refine congrArg Except.ok (Options.ofEntries_congr fun option => ?_)
  rw [choice?_withFlags hheld hnone, (Assignment.allowed_entries hv).choice?_eq_lookup,
    Assignment.lookup_entries, Assignment.lookup_reverse hv, List.lookup_nil, Option.or_none]

/-- A config file with a line for each value of an assignment comes to its values. -/
theorem resolve_config (hv : v.Valid) {names : OptionName → Text} (hnames : Config.IsNaming names)
    {name : Text} (hne : name ≠ [])
    (hfile : Config.Source.find tree home (.ofText name) access
      = .file (Utf8.encode (Config.settingsText (Config.settingsOf names v)))) :
    resolve access tree home { path := ['-'], config := some name } = .ok (.ofEntries v.entries) := by
  have hconfigured : configured access tree home { path := ['-'], config := some name } = .ok v.entries := by
    have hempty : name.isEmpty = false := by simpa using hne
    simp only [configured, Option.getD_some, hempty, Bool.false_eq_true, if_false, hfile,
      Config.load_settingsText hnames hv]
  rw [resolve, hconfigured]
  rfl

end

/-- For values of the options all front ends lay out a text alike: the formatter with named values, a host
    that has them for the formatter, flags on the command line without a config file, and a config file
    with a line for each value. -/
theorem frontEnds_agree {v : Assignment} (hv : v.Valid) {s : Text} {around : Surroundings}
    (hs : around.stdin = Utf8.encode s) {bare filed : Tree} {flags : List Text} (hflags : FlagsFor v flags)
    (hmissing : Config.Source.find bare around.home (.ofText defaultConfig) around.toAccess = .missing)
    {names : OptionName → Text} (hnames : Config.IsNaming names) {name : Text} (hne : name ≠ [])
    (hname : Argument.ofText name = .ok (.value name))
    (hfile : Config.Source.find filed around.home (.ofText name) around.toAccess
      = .file (Utf8.encode (Config.settingsText (Config.settingsOf names v)))) :
    ∃ o laidOut, Options.ofArgument (.host (.map v.entries)) = .ok o ∧ format o s = laidOut ∧
      Host.print (Host.parse s) (.host (.map [(Host.optionsKey, .map v.entries)])) = .ok laidOut ∧
      call around (['-'] :: flags) bare
        = { session := { tree := bare, out := laidOut ++ ['\n'] }, code := .ok exitOk } ∧
      call around [['-'], "--config".toList, name] filed
        = { session := { tree := filed, out := laidOut ++ ['\n'] }, code := .ok exitOk } := by
  refine ⟨.ofEntries v.entries, format (.ofEntries v.entries) s, Options.ofHost_map _, rfl,
    Host.print_parse s v.entries, ?_, ?_⟩
  · have hcall := call_input (readArguments_flags hflags hv) ⟨rfl, rfl, rfl⟩ rfl rfl
      (resolve_flags hv hmissing) hs rfl
    rw [hcall, format_unifyLineEnds]
    rfl
  · have hcall := call_input (readArguments_config hname) ⟨rfl, rfl, rfl⟩ rfl rfl
      (resolve_config hv hnames hne hfile) hs rfl
    rw [hcall, format_unifyLineEnds]
    rfl

/-- The number zero, a choice that is not the default, line ends of two characters, and both names of
    options in the config file. -/
theorem frontEnds_agree_zero :
    let v : Assignment := [(.maxColumnLength, .number 0), (.commaPosition, .text "before".toList)]
    let s : Text := "select a,b\r\nfrom t".toList
    let around : Surroundings := { home := [], stdin := Utf8.encode s }
    let filed : Tree := [(["style.ini".toList], .file (Utf8.encode
      "[sql_restyle]\nmaxColumnLength = 0\ncomma_position = before\n".toList))]
    let laidOut : Text := "SELECT a , b\nFROM t".toList
    Host.print (Host.parse s) (.host (.map [(Host.optionsKey, .map v.entries)])) = .ok laidOut ∧
      call around ["-".toList, "--max-column-length=0".toList, "--comma-position".toList, "before".toList] []
        = { session := { tree := [], out := laidOut ++ ['\n'] }, code := .ok exitOk } ∧
      call around ["-".toList, "--config".toList, "style.ini".toList] filed
        = { session := { tree := filed, out := laidOut ++ ['\n'] }, code := .ok exitOk } := by
  intro v s around filed laidOut
  have hv : v.Valid :=
    { nodup := by decide
      valid := List.forall_mem_cons.mpr
        ⟨⟨by decide, fun n hn => by cases hn; exact Nat.pow_pos (by decide)⟩,
          List.forall_mem_cons.mpr ⟨⟨by decide, fun n hn => by cases hn⟩, by simp⟩⟩ }
  have hattached : FlagFor .maxColumnLength (Setting.display (.number 0)) ["--max-column-length=0".toList] :=
    .full_attached .maxColumnLength ['0']
  have hapart : FlagFor .commaPosition "before".toList ["--comma-position".toList, "before".toList] :=
    .full_apart .commaPosition "before".toList
  have hnames : Config.IsNaming fun option =>
      if option = .commaPosition then option.fieldName else option.hostName := by
    intro option
    by_cases h : option = .commaPosition <;> simp [h]
  obtain ⟨o, text, ho, hformat, hprint, hbare, hfiled⟩ := @frontEnds_agree v hv s around rfl [] filed _
    (.cons hattached (.cons hapart .nil)) rfl _ hnames "style.ini".toList (by decide) rfl rfl
  obtain rfl := Except.ok.inj ho
  obtain rfl : text = laidOut := hformat.symm.trans (by decide)
  exact ⟨hprint, hbare, hfiled⟩

end CommandLine

end SqlLayout
