import SqlLayout.Proofs.Rerunning
import SqlLayout.Proofs.Strokes

/-! # Standard input and files

A text comes out of a call that reads standard input as a run in place leaves it in a file, with one
exception. What is printed always ends with a line feed of its own, and the file of a text without
anything in it stays empty. So for a blank text the two differ, and a check of what was printed finds
something to change.
-/

namespace SqlLayout

namespace Text

theorem isAllBlank_unifyLineEndsFrom (afterReturn : Bool) (s : Text) :
    isAllBlank (unifyLineEndsFrom afterReturn s) = isAllBlank s := by
  induction s generalizing afterReturn with
  | nil => rfl
  | cons c s ih =>
      have hfeed : isBlank '\n' = true := by decide
      have hreturn : isBlank '\r' = true := by decide
      rw [unifyLineEndsFrom]
      split
      · rename_i h
        rw [ih, isAllBlank_cons, h.1, hfeed, Bool.true_and]
      · split
        · rename_i h
          rw [isAllBlank_cons, ih, isAllBlank_cons, h, hfeed, hreturn]
        · rw [isAllBlank_cons, ih, isAllBlank_cons]

theorem isAllBlank_unifyLineEnds (s : Text) : isAllBlank (unifyLineEnds s) = isAllBlank s :=
  isAllBlank_unifyLineEndsFrom false s

theorem unifyLineEnds_eq_nil {s : Text} (h : unifyLineEnds s = []) : s = [] := by
  cases s with
  | nil => rfl
  | cons c s =>
      rw [unifyLineEnds, unifyLineEndsFrom, if_neg (by simp)] at h
      split at h <;> simp at h

end Text

/-! ## Blank texts -/

theorem Stroke.Faithful.target_ne_nil {k : Stroke} (h : k.Faithful) : k.target ≠ [] := by
  have hwritten : k.written ≠ [] := by
    rcases h.written with hw | hw | hw <;> rw [hw]
    · simp
    · exact upperChar_ne_nil _
    · exact lowerChar_ne_nil _
  simp [target, hwritten]

/-- Nothing is left of a text just when it is blank. -/
theorem format_eq_nil_iff (o : Options) (s : Text) : format o s = [] ↔ s.isAllBlank = true := by
  obtain ⟨ks, tail, htail, hs, hformat, -, -, hfaithful, -, -⟩ := format_strokes o s
  rw [hformat, hs]
  cases ks with
  | nil => simpa using htail
  | cons k ks =>
      have hk := hfaithful k (by simp)
      simp [hk.target_ne_nil, Stroke.source, hk.char]

namespace CommandLine

theorem withFinalNewline_of_blank {o : Options} {s : Text} (h : s.isAllBlank = true) :
    withFinalNewline (format o s) = [] := by
  rw [(format_eq_nil_iff o s).mpr h]
  rfl

theorem withFinalNewline_of_shown {o : Options} {s : Text} (h : s.isAllBlank = false) :
    withFinalNewline (format o s) = format o s ++ ['\n'] := by
  have hne : format o s ≠ [] := by
    rw [ne_eq, format_eq_nil_iff, h]
    simp
  rw [withFinalNewline, if_neg (by simpa using hne)]

/-! ## Calls that read standard input -/

section

variable {around : Surroundings} {texts : List Text} {tree : Tree} {a : Arguments} {o : Options}
  {s sql : Text}

/-- What a call prints that reads standard input, and how it ends. -/
theorem call_input (ha : readArguments texts = .ok (.work a)) (hp : a.Plain)
    (hv : a.verbose = false) (hpath : a.path = ['-'])
    (ho : resolve around.toAccess tree around.home a = .ok o)
    (hs : around.stdin = Utf8.encode s) (hsql : Text.unifyLineEnds s = sql) :
    call around texts tree =
      { session := { tree, out := format o sql ++ ['\n'] }
        code := .ok (if a.check && withFinalNewline (format o sql) != sql then exitChanged
          else exitOk) } := by
  have hinput : processInput around a o { tree } =
      ⟨{ tree, out := format o sql ++ ['\n'] },
        .ok (if a.check && withFinalNewline (format o sql) != sql then exitChanged else exitOk)⟩ := by
    simp only [processInput, hs, Utf8.decode_encode, hsql, auditRoute, hp.debug, Outcome.andThen,
      Option.map_none, layOutText, Session.checkText, hp.verify, hp.lint, hv, Bool.false_eq_true,
      if_false, Session.sayLine, Session.say, List.nil_append]
  simp only [call, ha, work, ho, hv, hpath, if_true, hinput, Bool.false_eq_true, if_false]

/-- A file after a run in place that reaches it: it keeps its bytes if its text is laid out, and
    otherwise it has the text that laying it out gives. -/
theorem get?_call_inPlace {root p : Path} {ps : List Path} (ha : readArguments texts = .ok (.work a))
    (hplace : a.InPlace) (ho : resolve around.toAccess tree around.home a = .ok o)
    (hr : a.LeadsTo around.toAccess tree around.home root)
    (hps : collect around.toAccess tree root = .ok ps)
    (hp : p ∈ ps.takeWhile (tree.shows around.toAccess)) (hsuffix : hasSqlSuffix p = true)
    (hreadable : p ∉ around.unreadable) (hw : p ∉ around.readonly)
    (hs : tree.get? p = some (.file (Utf8.encode s))) (hsql : Text.unifyLineEnds s = sql) :
    (call around texts tree).session.tree.get? p = some (.file (Utf8.encode
      (if withFinalNewline (format o sql) = sql then s else withFinalNewline (format o sql)))) := by
  have hfound : SqlFile.find around.toAccess tree p = .text sql :=
    find_eq_text_iff.mpr ⟨hsuffix, hreadable, _, s, hs, Utf8.decode_encode s, hsql⟩
  obtain ⟨hfoot, -⟩ := call_leaves ha hplace.toPlain ho hr hps
  obtain ⟨output, houtput⟩ : ∃ output, withFinalNewline (format o sql) = output := ⟨_, rfl⟩
  have hdue : ∀ output', Due around.toAccess o tree p output' ↔ output' = output ∧ output' ≠ sql := by
    rw [← houtput]
    exact due_iff_of_text hfound
  rw [houtput]
  by_cases hsame : output = sql
  · rw [if_pos hsame, hfoot.kept p, hs]
    rintro ⟨-, -, output', hdue'⟩
    obtain ⟨rfl, hdiff⟩ := (hdue output').mp hdue'
    exact hdiff hsame
  · rw [if_neg hsame]
    exact hfoot.written p hp ⟨hplace.check, hplace.dryRun, hw⟩ output ((hdue output).mpr ⟨rfl, hsame⟩)

end

/-- Standard input is laid out, and nothing else is asked for or told. -/
structure Arguments.Pipes (a : Arguments) : Prop extends a.Plain where
  named : a.path = ['-']
  silent : a.verbose = false

/-- How a check of standard input ends. -/
theorem call_input_check {around : Surroundings} {texts : List Text} {tree : Tree} {a : Arguments}
    {o : Options} {sql : Text} (ha : readArguments texts = .ok (.work a)) (hpipe : a.Pipes)
    (ho : resolve around.toAccess tree around.home a = .ok o) (hs : around.stdin = Utf8.encode sql)
    (hsql : Text.unifyLineEnds sql = sql) :
    (call around ("--check".toList :: texts) tree).code
      = .ok (if withFinalNewline (format o sql) = sql then exitOk else exitChanged) := by
  have hplain : a.checking.Plain := ⟨hpipe.debug, hpipe.verify, hpipe.lint⟩
  rw [call_input (readArguments_check ha) hplain hpipe.silent hpipe.named
    (show resolve around.toAccess tree around.home a.checking = .ok o from ho) hs hsql]
  by_cases h : withFinalNewline (format o sql) = sql <;> simp [Arguments.checking, h]

/-- A text that is not blank comes out of standard input as a run in place with the same options leaves
    it in a file that it reaches, and a check of what came out finds nothing to change. Only a file whose text is laid
    out already keeps its line ends. A blank text comes out as a line feed, while it leaves the file
    empty, and the check finds that to change. -/
theorem call_input_inPlace {around filing : Surroundings} {texts filed : List Text}
    {tree stored : Tree} {a b : Arguments} {o : Options} {root p : Path} {ps : List Path} {s : Text}
    (ha : readArguments texts = .ok (.work a)) (hpipe : a.Pipes)
    (ho : resolve around.toAccess tree around.home a = .ok o) (hs : around.stdin = Utf8.encode s)
    (hb : readArguments filed = .ok (.work b)) (hplace : b.InPlace)
    (ho' : resolve filing.toAccess stored filing.home b = .ok o)
    (hr : b.LeadsTo filing.toAccess stored filing.home root)
    (hps : collect filing.toAccess stored root = .ok ps)
    (hp : p ∈ ps.takeWhile (stored.shows filing.toAccess)) (hsuffix : hasSqlSuffix p = true)
    (hreadable : p ∉ filing.unreadable) (hw : p ∉ filing.readonly)
    (hheld : stored.get? p = some (.file (Utf8.encode s))) :
    let printed := (call around texts tree).session.out
    let left := (call filing filed stored).session.tree.get? p
    let checked := call { around with stdin := Utf8.encode printed } ("--check".toList :: texts) tree
    (s.isAllBlank = false →
      left = some (.file (Utf8.encode (if Text.unifyLineEnds s = printed then s else printed))) ∧
        checked.code = .ok exitOk) ∧
      (s.isAllBlank = true →
        printed = ['\n'] ∧ left = some (.file []) ∧ checked.code = .ok exitChanged) := by
  intro printed left checked
  obtain ⟨sql, hsql⟩ : ∃ sql, Text.unifyLineEnds s = sql := ⟨_, rfl⟩
  have hblank : sql.isAllBlank = s.isAllBlank := by rw [← hsql, Text.isAllBlank_unifyLineEnds]
  have hprinted : printed = format o sql ++ ['\n'] := by
    simp only [printed, call_input ha hpipe.toPlain hpipe.silent hpipe.named ho hs hsql]
  have hleft := get?_call_inPlace hb hplace ho' hr hps hp hsuffix hreadable hw hheld hsql
  have hunified : Text.unifyLineEnds printed = printed := by
    refine Text.unifyLineEnds_of_not_mem fun hmem => ?_
    rw [hprinted, List.mem_append] at hmem
    rcases hmem with hmem | hmem
    · simpa using isBlank_of_mem_format hmem (by decide)
    · simp at hmem
  have hchecked : checked.code = .ok (if withFinalNewline (format o printed) = printed then exitOk
      else exitChanged) :=
    call_input_check ha hpipe ho rfl hunified
  refine ⟨fun h => ?_, fun h => ?_⟩
  · have hfinal : withFinalNewline (format o sql) = printed := by
      rw [hprinted, withFinalNewline_of_shown (hblank.trans h)]
    have hagain : withFinalNewline (format o printed) = printed := by
      rw [← hfinal, format_withFinalNewline]
    rw [hchecked, if_pos hagain, hsql]
    rw [hfinal] at hleft
    simp only [left, hleft, eq_comm (a := sql), and_self]
  · have hnothing : format o sql = [] := (format_eq_nil_iff o sql).mpr (hblank.trans h)
    have hfeed : printed = ['\n'] := by rw [hprinted, hnothing, List.nil_append]
    have hfinal : withFinalNewline (format o sql) = [] := withFinalNewline_of_blank (hblank.trans h)
    have hagain : withFinalNewline (format o printed) ≠ printed := by
      rw [hfeed, withFinalNewline_of_blank (by decide)]
      simp
    refine ⟨hfeed, ?_, by rw [hchecked, if_neg hagain]⟩
    rw [hfinal] at hleft
    by_cases hnil : [] = sql
    · have hs : s = [] := Text.unifyLineEnds_eq_nil (hsql.trans hnil.symm)
      simp only [left, hleft, if_pos hnil, hs]
      rfl
    · simp only [left, hleft, if_neg hnil]
      rfl

/-- Line ends of both kinds come out as line feeds, from standard input as in the file. -/
theorem call_input_inPlace_lineEnds :
    let sql := Utf8.encode "select a ,b\r\nfrom t".toList
    let stored : Tree := [(["q.sql".toList], .file sql)]
    let printed := (call { home := [], stdin := sql } ["-".toList] []).session.out
    (call { home := [] } ["q.sql".toList] stored).session.tree.get? ["q.sql".toList]
        = some (.file (Utf8.encode printed)) ∧
      (call { home := [], stdin := Utf8.encode printed } ["--check".toList, "-".toList] []).code
        = .ok exitOk := by
  intro sql stored printed
  have hroot : Arguments.LeadsTo { path := "q.sql".toList } {} stored [] ["q.sql".toList] :=
    ⟨by decide, rfl, by decide, ["q.sql".toList], .file sql, rfl⟩
  obtain ⟨hshown, -⟩ := @call_input_inPlace { home := [], stdin := sql } { home := [] }
    ["-".toList] ["q.sql".toList] [] stored _ _ {} _ ["q.sql".toList] _ _ rfl
    ⟨⟨rfl, rfl, rfl⟩, rfl, rfl⟩ rfl rfl rfl ⟨⟨rfl, rfl, rfl⟩, rfl, rfl⟩ rfl hroot rfl
    (by decide) (by decide) (by decide) (by decide) rfl
  obtain ⟨hleft, hcheck⟩ := hshown (by decide)
  rw [if_neg (by decide)] at hleft
  exact ⟨hleft, hcheck⟩

/-- Of no text at all a line feed is printed. The file stays empty, and a check of the line feed finds
    something to change. -/
theorem call_input_nothing :
    let tree : Tree := [(["q.sql".toList], .file [])]
    let printed := (call { home := [] } ["-".toList] []).session.out
    (call { home := [] } ["q.sql".toList] tree).session.tree.get? ["q.sql".toList]
        ≠ some (.file (Utf8.encode printed)) ∧
      (call { home := [], stdin := Utf8.encode printed } ["-".toList, "--check".toList] []).code.toOption
        ≠ some exitOk := by
  decide

end CommandLine

end SqlLayout
