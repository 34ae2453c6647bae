import SqlLayout.Proofs.CheckFlag
import SqlLayout.Proofs.Misconfiguration

/-! # Which value an option has

A value on the command line goes before one of the config file, and that before the default. The values
of the command line are checked when they are read. Only two dashes attached to a flag get past the
check: they leave an empty list where a value should be.
-/

namespace SqlLayout

namespace Options

theorem get_set (o : Options) (value : Setting) (option other : OptionName) :
    (o.set value option).get other = if other = option then value else o.get other := by
  cases option <;> cases other <;> rfl

theorem get_choice (o : Options) (choice : Option Setting) (option other : OptionName) :
    (choice.elim o (o.set · option)).get other
      = if other = option then choice.getD (o.get other) else o.get other := by
  cases choice with
  | none => simp
  | some value => exact get_set o value option other

/-- An option has the value that is given to it, or its default. -/
theorem get_ofEntries (entries : Entries) (option : OptionName) :
    (ofEntries entries).get option = (choice? entries option).getD option.default := by
  simp only [ofEntries, OptionName.all, List.foldl_cons, List.foldl_nil, get_choice]
  cases option <;> rfl

theorem given?_of_ne_absent {entries : Entries} {name : Text}
    (h : entries.lookup name ≠ some .absent) : given? entries name = entries.lookup name := by
  unfold given?
  cases hname : entries.lookup name with
  | none => rfl
  | some value =>
      cases value with
      | absent => exact absurd hname h
      | _ => rfl

/-- A value under the host name is the one that counts. -/
theorem choice?_eq_lookup {entries : Entries} {option : OptionName}
    (hhost : entries.lookup option.hostName ≠ some .absent) (hfield : entries.lookup option.fieldName = none) :
    choice? entries option = entries.lookup option.hostName := by
  rw [choice?, given?_of_ne_absent hhost, given?_of_ne_absent (by simp [hfield]), hfield, Option.or_none]

end Options

theorem Entries.Allowed.lookup_ne_absent {entries : Entries} (h : entries.Allowed) (option : OptionName) :
    entries.lookup option.hostName ≠ some .absent := by
  intro habsent
  simpa [OptionName.allows] using h.of_lookup habsent

theorem Entries.Allowed.choice?_eq_lookup {entries : Entries} (h : entries.Allowed) (option : OptionName) :
    Options.choice? entries option = entries.lookup option.hostName :=
  Options.choice?_eq_lookup (h.lookup_ne_absent option) (h.lookup_fieldName option)

namespace CommandLine

/-! ## Values on the command line -/

/-- A value that the command line may hold for an option: one that is allowed, or an empty list if two
    dashes are attached to a flag for the option. -/
def Held (dashed : OptionName → Prop) (e : OptionName × Setting) : Prop :=
  e.1.allows e.2 = true ∨ e.2 = .list [] ∧ dashed e.1

theorem allows_of_styleValue {option : OptionName} {given : Text} {value : Setting}
    (h : Reading.styleValue option given = .ok value) : option.allows value = true := by
  unfold Reading.styleValue at h
  cases hc : option.spec.kind.choices? with
  | some choices =>
      rw [OptionName.allows_of_choices hc]
      simp only [hc] at h
      split at h
      · rename_i hmem
        exact ⟨given, (Except.ok.inj h).symm, List.contains_iff_mem.mp hmem⟩
      · simp at h
  | none =>
      rw [OptionName.allows_of_count hc]
      simp only [hc] at h
      split at h
      · rename_i n hn
        refine ⟨n, (Except.ok.inj h).symm, ?_⟩
        unfold readCount at hn
        split at hn
        · simp at hn
        · split at hn
          · simp at hn
          · cases hn
            omega
      · simp at h
      · simp at h

section

variable {dashed : OptionName → Prop} {r : Reading}

theorem held_assign {flag : Flag} {given : Text} {next : Reading} (h : r.assign flag given = .ok next)
    (hr : ∀ e ∈ r.found.styles, Held dashed e) : ∀ e ∈ next.found.styles, Held dashed e := by
  cases flag with
  | style option =>
      simp only [Reading.assign] at h
      split at h
      · simp at h
      · rename_i value hvalue
        cases h
        intro e he
        rcases List.mem_cons.mp he with rfl | he
        · exact .inl (allows_of_styleValue hvalue)
        · exact hr e he
  | _ =>
      cases h
      exact hr

theorem held_assignNone {flag : Flag} (hflag : ∀ option, flag = .style option → dashed option)
    (hr : ∀ e ∈ r.found.styles, Held dashed e) :
    ∀ e ∈ (r.assignNone flag).found.styles, Held dashed e := by
  cases flag with
  | style option =>
      intro e he
      rcases List.mem_cons.mp he with rfl | he
      · exact .inr ⟨rfl, hflag option rfl⟩
      · exact hr e he
  | _ => exact hr

theorem styles_raise (r : Reading) (flag : Flag) : (r.raise flag).found.styles = r.found.styles := by
  cases flag <;> rfl

theorem styles_addValue (r : Reading) (s : Text) : (r.addValue s).found.styles = r.found.styles := by
  unfold Reading.addValue
  split <;> rfl

theorem styles_addDashes (r : Reading) (rest : List Argument) :
    (r.addDashes rest).found.styles = r.found.styles := by
  unfold Reading.addDashes
  split <;> rfl

theorem held_readAll {as : List Argument} {a : Arguments} (h : r.readAll as = .ok (.work a))
    (hdashed : ∀ x ∈ as, ∀ option, x = .flag (.style option) (some "--".toList) → dashed option)
    (hr : ∀ e ∈ r.found.styles, Held dashed e) : ∀ e ∈ a.styles, Held dashed e := by
  fun_induction Reading.readAll r as with
  | case1 r =>
      unfold Reading.finish at h
      split at h
      · simp at h
      · cases h
        exact hr
      · simp at h
  | case2 r s rest ih =>
      exact ih h (List.forall_mem_cons.mp hdashed).2 (by rwa [styles_addValue])
  | case3 r rest ih =>
      exact ih h (List.forall_mem_cons.mp hdashed).2 (by rwa [styles_addDashes])
  | case4 r s rest ih => exact ih h (List.forall_mem_cons.mp hdashed).2 hr
  | case5 => simp at h
  | case6 r attached rest =>
      simp only [Reading.helpWith] at h
      split at h
      · simp at h
      · split at h <;> simp at h
  | case7 | case9 | case11 | case14 => simp at h
  | case8 r flag rest hv ih =>
      obtain ⟨hfirst, hrest⟩ := List.forall_mem_cons.mp hdashed
      exact ih h hrest (held_assignNone (fun option hflag => hfirst option (hflag ▸ rfl)) hr)
  | case10 r flag given rest hv hd next hnext ih =>
      exact ih h (List.forall_mem_cons.mp hdashed).2 (held_assign hnext hr)
  | case12 r flag given rest hflag hv next hnext ih =>
      exact ih h (List.forall_mem_cons.mp (List.forall_mem_cons.mp hdashed).2).2 (held_assign hnext hr)
  | case13 r flag given rest hflag hv ih =>
      exact ih h (List.forall_mem_cons.mp (List.forall_mem_cons.mp hdashed).2).2
        (by rwa [styles_addValue, styles_raise])
  | case15 r flag rest hflag hrest hv ih =>
      exact ih h (List.forall_mem_cons.mp hdashed).2 (by rwa [styles_raise])

end

theorem mem_ofTexts {texts : List Text} {as : List Argument} (h : Argument.ofTexts texts = .ok as)
    {flag : Flag} {attached : Option Text} (hmem : .flag flag attached ∈ as) :
    ∃ s ∈ texts, Argument.ofText s = .ok (.flag flag attached) := by
  induction texts generalizing as with
  | nil =>
      cases h
      simp at hmem
  | cons s rest ih =>
      rw [Argument.ofTexts] at h
      cases hs : Argument.ofText s with
      | error fault => simp [hs] at h
      | ok x =>
          by_cases hx : x = .dashes
          · subst hx
            simp only [hs, Except.ok.injEq] at h
            subst h
            simp at hmem
          · obtain ⟨others, hothers, rfl⟩ : ∃ others, Argument.ofTexts rest = .ok others ∧ x :: others = as := by
              have hmap : (Argument.ofTexts rest).map (x :: ·) = .ok as := by
                cases x with
                | dashes => exact absurd rfl hx
                | _ => simpa only [hs] using h
              cases hothers : Argument.ofTexts rest with
              | error fault => simp [hothers, Except.map] at hmap
              | ok others => exact ⟨others, rfl, Except.ok.inj (hothers ▸ hmap)⟩
            rcases List.mem_cons.mp hmem with rfl | hmem
            · exact ⟨s, by simp, hs⟩
            · obtain ⟨t, ht, heq⟩ := ih hothers hmem
              exact ⟨t, by simp [ht], heq⟩

/-- A value that was read from the command line is allowed, or is an empty list where two dashes are
    attached to a flag. -/
theorem held_readArguments {texts : List Text} {a : Arguments} (ha : readArguments texts = .ok (.work a)) :
    ∀ e ∈ a.styles, Held (fun option =>
      ∃ s ∈ texts, Argument.ofText s = .ok (.flag (.style option) (some "--".toList))) e := by
  unfold readArguments at ha
  cases has : Argument.ofTexts texts with
  | error fault => simp [has] at ha
  | ok as =>
      rw [has] at ha
      refine held_readAll ha (fun x hx option heq => ?_) (by simp)
      subst heq
      exact mem_ofTexts has hx

/-! ## Precedence -/

/-- Named values with the flags of one option on top. -/
def withFlag (styles : List (OptionName × Setting)) (entries : Entries) (option : OptionName) : Entries :=
  match styles.lookup option with
  | some value => entries.assign option.hostName value
  | none => entries

theorem withFlags_eq (a : Arguments) (entries : Entries) :
    withFlags a entries = OptionName.all.foldl (withFlag a.styles) entries := rfl

/-- The flags of an option change the value of its host name, and no other value. -/
theorem lookup_withFlag (styles : List (OptionName × Setting)) (entries : Entries) (option : OptionName)
    (name : Text) :
    (withFlag styles entries option).lookup name
      = if name = option.hostName then (styles.lookup option).or (entries.lookup name)
        else entries.lookup name := by
  unfold withFlag
  cases styles.lookup option with
  | none => simp
  | some value => simp [Entries.lookup_assign]

theorem lookup_withFlags (a : Arguments) (entries : Entries) (option : OptionName) :
    (withFlags a entries).lookup option.hostName
      = (a.styles.lookup option).or (entries.lookup option.hostName) := by
  simp only [withFlags_eq, OptionName.all, List.foldl_cons, List.foldl_nil, lookup_withFlag,
    OptionName.hostName_eq_iff]
  cases option <;> rfl

theorem lookup_withFlags_fieldName (a : Arguments) (entries : Entries) (option : OptionName) :
    (withFlags a entries).lookup option.fieldName = entries.lookup option.fieldName := by
  simp only [withFlags_eq, OptionName.all, List.foldl_cons, List.foldl_nil, lookup_withFlag,
    (OptionName.hostName_ne_fieldName _ option).symm, if_false]

theorem choice?_withFlags {dashed : OptionName → Prop} {a : Arguments} {configured : Entries}
    (ha : ∀ e ∈ a.styles, Held dashed e) (hc : configured.Allowed) (option : OptionName) :
    Options.choice? (withFlags a configured) option
      = (a.styles.lookup option).or (configured.lookup option.hostName) := by
  have hhost : (withFlags a configured).lookup option.hostName ≠ some .absent := by
    rw [lookup_withFlags, ne_eq, Option.or_eq_some_iff, not_or, not_and]
    refine ⟨fun h => ?_, fun _ => hc.lookup_ne_absent option⟩
    rcases ha (option, .absent) (mem_of_lookup h) with h | ⟨h, -⟩
    · simp [OptionName.allows] at h
    · simp at h
  have hfield : (withFlags a configured).lookup option.fieldName = none := by
    rw [lookup_withFlags_fieldName, hc.lookup_fieldName]
  rw [Options.choice?_eq_lookup hhost hfield, lookup_withFlags]

/-- An option has the value of its flag, or else the value in the config file, or else its default.
    Every value is allowed, unless two dashes are attached to the flag: then it is an empty list. -/
theorem resolve_precedence {texts : List Text} {a : Arguments} {access : Access} {tree : Tree}
    {home : Path} {options : Entries} (ha : readArguments texts = .ok (.work a))
    (hc : configured access tree home a = .ok options) :
    ∃ o, resolve access tree home a = .ok o ∧ ∀ option,
      o.get option = ((a.styles.lookup option).or (options.lookup option.hostName)).getD option.default ∧
      (option.allows (o.get option) = true ∨ o.get option = .list [] ∧
        ∃ s ∈ texts, Argument.ofText s = .ok (.flag (.style option) (some "--".toList))) := by
  have hheld := held_readArguments ha
  have hallowed := (loaded_configured hc).allowed
  have hget : ∀ option, (Options.ofEntries (withFlags a options)).get option
      = ((a.styles.lookup option).or (options.lookup option.hostName)).getD option.default := by
    intro option
    rw [Options.get_ofEntries, choice?_withFlags hheld hallowed]
  refine ⟨_, by rw [resolve, hc], fun option => ⟨hget option, ?_⟩⟩
  rw [hget]
  cases hflag : a.styles.lookup option with
  | some value => exact hheld (option, value) (mem_of_lookup hflag)
  | none =>
      refine .inl ?_
      cases hvalue : options.lookup option.hostName with
      | some value => exact hallowed.of_lookup hvalue
      | none => exact option.allows_default

/-- A flag for the number zero, a config file with another number and two texts. -/
theorem resolve_precedence_zero :
    let tree : Tree := [([".sqlrestyle".toList], .file (Utf8.encode
      "[sql_restyle]\nkeyword_case = lower\nmaxColumnLength = 7\ncommaPosition = before\n".toList))]
    let a : Arguments := { path := ['-'], styles := [(.maxColumnLength, .number 0)] }
    ∃ o, resolve {} tree [] a = .ok o ∧ o.get .keywordCase = .text "lower".toList ∧
      o.get .indentStyle = .text "standard".toList ∧ o.get .maxColumnLength = .number 0 ∧
      o.get .commaPosition = .text "before".toList := by
  intro tree a
  obtain ⟨o, ho, hget⟩ := @resolve_precedence ["-".toList, "--max-column-length=0".toList] a {} tree []
    [("keywordCase".toList, .text "lower".toList), ("maxColumnLength".toList, .number 7),
      ("commaPosition".toList, .text "before".toList)] rfl rfl
  exact ⟨o, ho, (hget _).1, (hget _).1, (hget _).1, (hget _).1⟩

/-- Two dashes attached to a flag are read, and the option has a value that is not allowed. -/
theorem resolve_precedence_dashes :
    ∃ a o, readArguments ["-".toList, "--keyword-case=--".toList] = .ok (.work a) ∧
      resolve {} [] [] a = .ok o ∧ OptionName.keywordCase.allows (o.get .keywordCase) = false :=
  ⟨_, _, rfl, rfl, rfl⟩

end CommandLine

end SqlLayout
