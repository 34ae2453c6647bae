import SqlLayout.CommandLine.Run
import SqlLayout.Proofs.LoadedOptions

/-! # Faults of the configuration

A config file is read before anything else. If no options come of it, a call says so in one message,
ends with the exit code for faults and leaves all files as they are. If it cannot even be told whether
the file is there, because its path is too long or leads through a closed folder, the call breaks off
without a message of its own. That leaves all files as they are, too.
-/

namespace SqlLayout.CommandLine

/-- The route of the config file that is looked for. -/
def Arguments.configRoute (a : Arguments) : Route :=
  let named := a.config.getD []
  .ofText (if named.isEmpty then defaultConfig else named)

section

variable {access : Access} {tree : Tree} {home : Path} {a : Arguments} {options : Entries}
  {fault : Config.LoadFault}

/-- A config file is loaded, unless none is named and the default one is not there. -/
theorem configured_cases (access : Access) (tree : Tree) (home : Path) (a : Arguments) :
    Config.Source.find tree home a.configRoute access = .missing ∧
        configured access tree home a = .ok [] ∨
      configured access tree home a
        = Config.load a.configRoute.text (.find tree home a.configRoute access) := by
  rw [configured]
  split
  · rename_i hmissing
    exact .inl ⟨hmissing, rfl⟩
  · exact .inr rfl

theorem loaded_configured (h : configured access tree home a = .ok options) :
    Config.Loaded options := by
  rcases configured_cases access tree home a with ⟨-, heq⟩ | heq
  · obtain rfl := Except.ok.inj (h.symm.trans heq)
    exact ⟨.nil, by simp [Entries.Allowed]⟩
  · exact Config.load_ok (heq.symm.trans h)

theorem find_unreachable {route : Route} {cause : FileFault}
    (h : Config.Source.find tree home route access = .unreachable cause) :
    ∃ trouble, tree.follow access home route = .hidden trouble ∧
      cause = .trouble trouble (quoted route.text) := by
  unfold Config.Source.find at h
  split at h
  · cases h
  · cases h
  · rename_i trouble hroute
    cases h
    exact ⟨trouble, hroute, rfl⟩
  · cases h
  · split at h <;> cases h

/-- A fault that callers are not told of comes of a path that cannot be looked at. -/
theorem configured_unforetold (h : configured access tree home a = .error fault) (hf : ¬fault.Foretold) :
    ∃ trouble, tree.follow access home a.configRoute = .hidden trouble ∧
      fault = .unreachable (.trouble trouble (quoted a.configRoute.text)) := by
  rcases configured_cases access tree home a with ⟨-, heq⟩ | heq
  · simp [heq] at h
  · rw [heq] at h
    by_cases hsource : ∃ cause, Config.Source.find tree home a.configRoute access = .unreachable cause
    · obtain ⟨cause, hcause⟩ := hsource
      obtain ⟨trouble, hroute, rfl⟩ := find_unreachable hcause
      rw [hcause, Config.load, Except.error.injEq] at h
      exact ⟨trouble, hroute, h.symm⟩
    · exact absurd (Config.load_fault (fun cause hcause => hsource ⟨cause, hcause⟩) h) hf

end

/-- A config file gives options as they should be, or is at fault in a way that callers are told of.
    When no options come of the configuration, a call leaves the tree as it is. Unless it cannot be
    told whether the config file is there, the call tells the fault in one message and ends with the
    exit code for faults. -/
theorem call_misconfigured {around : Surroundings} {texts : List Text} {tree : Tree} {a : Arguments}
    (ha : readArguments texts = .ok (.work a)) :
    (∀ path bytes,
      match Config.load path (.file bytes) with
      | .ok options => Config.Loaded options
      | .error fault => fault.Foretold) ∧
    ∀ fault, configured around.toAccess tree around.home a = .error fault →
      (call around texts tree).session.tree = tree ∧
      ((∀ trouble, tree.follow around.toAccess around.home a.configRoute ≠ .hidden trouble) →
        fault.Foretold ∧
        call around texts tree =
          { session := { tree, out := "ERROR: ".toList ++ fault.message ++ ['\n'] }
            code := .ok exitError }) := by
  refine ⟨fun path bytes => ?_, fun fault hfault => ?_⟩
  · cases h : Config.load path (.file bytes) with
    | ok options => exact Config.load_ok h
    | error fault => exact Config.load_fault (by simp) h
  · have hresolve : resolve around.toAccess tree around.home a = .error fault := by rw [resolve, hfault]
    by_cases hforetold : fault.Foretold
    · have hending : call around texts tree =
          { session := { tree, out := "ERROR: ".toList ++ fault.message ++ ['\n'] }
            code := .ok exitError } := by
        cases fault with
        | unreachable cause => exact absurd hforetold id
        | _ => simp [call, ha, work, hresolve, Session.sayLine, Session.say]
      exact ⟨by rw [hending], fun _ => ⟨hforetold, hending⟩⟩
    · obtain ⟨trouble, hhidden, rfl⟩ := configured_unforetold hfault hforetold
      refine ⟨?_, fun hseen => absurd hhidden (hseen trouble)⟩
      simp only [call, ha, work, hresolve]

/-- A value that is none of the choices. The file that could be laid out stays as it is. -/
theorem call_misconfigured_choice :
    let tree : Tree := [(["a.sql".toList], .file (Utf8.encode "select 1".toList)),
      ([".sqlrestyle".toList], .file (Utf8.encode "[sql_restyle]\nkeywordCase = loud\n".toList))]
    let ending := call { home := [] } ["a.sql".toList] tree
    ending.session.tree = tree ∧ ending.code = .ok 2 ∧
      ending.session.out = ("ERROR: Invalid value for keywordCase: 'loud' " ++
        "(expected one of upper, lower, preserve)\n").toList := by
  intro tree ending
  obtain ⟨-, hfaults⟩ := @call_misconfigured { home := [] } ["a.sql".toList] tree _ rfl
  obtain ⟨htree, hclean⟩ := hfaults (.value (.notAChoice .keywordCase (.text "loud".toList)
    ["upper".toList, "lower".toList, "preserve".toList])) rfl
  have hfound : tree.follow {} [] (Arguments.configRoute { path := "a.sql".toList })
      = .node [".sqlrestyle".toList] (.file _) := rfl
  have hending := (hclean fun trouble h => by cases hfound.symm.trans h).2
  exact ⟨htree, congrArg Ending.code hending, (congrArg (·.session.out) hending).trans (by decide)⟩

/-- No options come of a file that is not there, and the call does not end with the exit code for
    faults if the name of the file has 256 characters. -/
theorem call_misconfigured_longName :
    let name := List.replicate 256 'x'
    let texts := ["-".toList, "--config".toList, name]
    readArguments texts = .ok (.work { path := "-".toList, config := some name }) ∧
      (configured {} [] [] { path := "-".toList, config := some name }).isOk = false ∧
      (call { home := [] } texts []).code.toOption ≠ some exitError :=
  ⟨rfl, by decide +kernel, by decide +kernel⟩

end SqlLayout.CommandLine
