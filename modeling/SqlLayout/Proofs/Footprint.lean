import SqlLayout.Proofs.LaidOutFiles

/-! # What a run changes

Without stages and extra checks a run works on every file by itself. It writes the files that laying
out changes and that may be written, unless it is a check or a dry run, and leaves everything else as
it was. The exit code of a check says whether there is a file that laying out changes. All this holds
of the files up to the first one that cannot be looked at: there the run breaks off, without an exit
code, and does nothing about the files to come.
-/

namespace SqlLayout.CommandLine

/-! ## Work on a file -/

/-- Nothing is asked for besides laying out. -/
structure Arguments.Plain (a : Arguments) : Prop where
  debug : a.debug = false
  verify : a.verify = false
  lint : a.lint = false

/-- Files are written, and this one can be. -/
def Arguments.Writes (a : Arguments) (around : Surroundings) (p : Path) : Prop :=
  a.check = false ∧ a.dryRun = false ∧ p ∉ around.readonly

@[simp] theorem Session.tree_sayLine (s : Session) (line : Text) : (s.sayLine line).tree = s.tree := rfl

/-- The session after a text was laid out. -/
def Session.trace (s : Session) (a : Arguments) (o : Options) (sql : Text) : Session :=
  if a.verbose then s.say (Trace.format o sql) else s

@[simp] theorem Session.tree_trace (s : Session) (a : Arguments) (o : Options) (sql : Text) :
    (s.trace a o sql).tree = s.tree := by
  unfold Session.trace
  split <;> rfl

section

variable {around : Surroundings} {a : Arguments} {o : Options} {root p : Path} {ps : List Path}
  {s : Session} {t t' u : Tree}

theorem processFile_text (ha : a.Plain) {sql : Text}
    (h : SqlFile.read around.toAccess s.tree p = .ok (.text sql)) :
    processFile around a o root p s
      = ⟨conclude around a p none (format o sql) (withFinalNewline (format o sql) != sql)
          (s.trace a o sql), .ok (withFinalNewline (format o sql) != sql)⟩ := by
  simp only [processFile, h, auditRoute, ha.debug, Outcome.andThen, Option.map_none, layOutText,
    Session.checkText, ha.verify, ha.lint]
  rfl

/-- Work breaks off at a file that cannot be looked at. -/
theorem processFile_hidden {fault : FileFault} (h : s.tree.hides? around.toAccess p = some fault) :
    processFile around a o root p s = ⟨s, .error (.file fault)⟩ := by
  simp only [processFile, SqlFile.read, h]

/-- A file that is not read as text is told of and left, whatever is asked for. -/
theorem processFile_passed {access : Access} (hseen : s.tree.hides? access p = none)
    (h : ∀ sql, SqlFile.find access s.tree p ≠ .text sql) :
    ∃ s' : Session, s'.tree = s.tree ∧ ∀ around : Surroundings, around.toAccess = access →
      ∀ a o root, processFile around a o root p s = ⟨s', .ok false⟩ := by
  have hread : SqlFile.read access s.tree p = .ok (.find access s.tree p) :=
    read_eq_ok_iff.mpr ⟨hseen, rfl⟩
  cases hfound : SqlFile.find access s.tree p with
  | skipped =>
      refine ⟨s.sayLine ("[SKIPPED] ".toList ++ p.text ++ " (not a .sql file)".toList), rfl, ?_⟩
      rintro around rfl a o root
      rw [processFile, hread, hfound]
  | unreadable why =>
      refine ⟨s.sayLine ("[ERROR] Failed to read ".toList ++ p.text ++ ": ".toList ++ why), rfl, ?_⟩
      rintro around rfl a o root
      rw [processFile, hread, hfound]
  | text sql => exact absurd hfound (h sql)

theorem tree_conclude_written (hw : a.Writes around p) (laidOut : Text) (s : Session) :
    (conclude around a p none laidOut true s).tree
      = s.tree.put p (.file (Utf8.encode (withFinalNewline laidOut))) := by
  obtain ⟨hcheck, hdry, hwritable⟩ := hw
  have hcontains : around.readonly.contains p ≠ true := by simpa using hwritable
  simp only [conclude, hcheck, hdry, Bool.false_eq_true, if_false, if_true, writeBack, if_neg hcontains]
  rfl

theorem tree_conclude_kept {changed : Bool} (h : ¬(a.Writes around p ∧ changed = true)) (laidOut : Text)
    (s : Session) : (conclude around a p none laidOut changed s).tree = s.tree := by
  unfold conclude
  cases hcheck : a.check with
  | true => cases changed <;> rfl
  | false =>
      cases hdry : a.dryRun with
      | true => rfl
      | false =>
          cases changed with
          | false => cases a.verbose <;> rfl
          | true =>
              have hcontains : around.readonly.contains p = true := by
                by_contra hw
                exact h ⟨⟨hcheck, hdry, by simpa using hw⟩, rfl⟩
              simp only [Bool.false_eq_true, if_false, if_true, writeBack, hcontains]
              rfl

/-! ## Footprints -/

/-- What working on some files does to a tree. -/
structure Footprint (around : Surroundings) (a : Arguments) (o : Options) (ps : List Path)
    (t t' : Tree) : Prop where
  keys : t'.map (·.1) = t.map (·.1)
  written : ∀ p ∈ ps, a.Writes around p → ∀ output, Due around.toAccess o t p output →
    t'.get? p = some (.file (Utf8.encode output))
  kept : ∀ p, ¬(p ∈ ps ∧ a.Writes around p ∧ ∃ output, Due around.toAccess o t p output) →
    t'.get? p = t.get? p

namespace Footprint

theorem nil (t : Tree) : Footprint around a o [] t t :=
  ⟨rfl, by simp, fun _ _ => rfl⟩

theorem none (h : ¬(a.Writes around p ∧ ∃ output, Due around.toAccess o t p output)) :
    Footprint around a o [p] t t := by
  refine ⟨rfl, fun q hq hw output hdue => ?_, fun _ _ => rfl⟩
  obtain rfl := List.mem_singleton.mp hq
  exact absurd ⟨hw, output, hdue⟩ h

theorem put {output : Text} (hw : a.Writes around p) (h : Due around.toAccess o t p output) :
    Footprint around a o [p] t (t.put p (.file (Utf8.encode output))) := by
  obtain ⟨sql, hread, heq, -⟩ := due_iff.mp h
  obtain ⟨bytes, hnode⟩ := exists_file_of_text hread
  have hp := Tree.ne_nil_of_file hnode
  refine ⟨Tree.keys_put hp (by simp [hnode]) _, fun q hq _ output' hdue => ?_, fun q hq => ?_⟩
  · obtain rfl := List.mem_singleton.mp hq
    rw [((due_iff_of_text hread output').mp hdue).1, ← heq]
    exact Tree.get?_put_self hp _ t
  · refine Tree.get?_put_of_ne ?_ _ t
    rintro rfl
    exact hq ⟨by simp, hw, output, h⟩

theorem refilled (h : Footprint around a o ps t t') : Tree.Refilled ps t t' := by
  refine ⟨h.keys, fun q => ?_⟩
  by_cases hq : q ∈ ps ∧ a.Writes around q ∧ ∃ output, Due around.toAccess o t q output
  · obtain ⟨hmem, hw, output, hdue⟩ := hq
    obtain ⟨bytes, -, hnode, -⟩ := hdue.changed
    exact .inr ⟨hmem, bytes, _, hnode, h.written q hmem hw output hdue⟩
  · exact .inl (h.kept q hq)

/-- Of the files that are worked on later the first one changes none, unless it is the same file: that
    is not due any more. -/
theorem cons (h : Footprint around a o [p] t t') (h' : Footprint around a o ps t' u) :
    Footprint around a o (p :: ps) t u := by
  refine ⟨h'.keys.trans h.keys, fun q hq hw output hdue => ?_, fun q hq => ?_⟩
  · by_cases hqp : q = p
    · subst hqp
      have hwritten := h.written q (by simp) hw output hdue
      rw [h'.kept q, hwritten]
      rintro ⟨-, -, hdue'⟩
      exact hdue.not_due_written hwritten hdue'
    · have hsame : t'.get? q = t.get? q := h.kept q fun hmem => hqp (List.mem_singleton.mp hmem.1)
      exact h'.written q ((List.mem_cons.mp hq).resolve_left hqp) hw output (hdue.congr hsame)
  · have hsame : t'.get? q = t.get? q := by
      refine h.kept q ?_
      rintro ⟨hmem, hw, hdue⟩
      exact hq ⟨by simp [List.mem_singleton.mp hmem], hw, hdue⟩
    rw [h'.kept q, hsame]
    rintro ⟨hmem, hw, output, hdue⟩
    exact hq ⟨by simp [hmem], hw, output, hdue.congr hsame.symm⟩

/-- A file that is not due leaves the others due or not. -/
theorem exists_due_iff (h : Footprint around a o [p] t t') :
    ((∃ output, Due around.toAccess o t p output) ∨ ∃ q ∈ ps, ∃ output, Due around.toAccess o t' q output) ↔
      ∃ q ∈ p :: ps, ∃ output, Due around.toAccess o t q output := by
  by_cases hdue : ∃ output, Due around.toAccess o t p output
  · exact iff_of_true (.inl hdue) ⟨p, by simp, hdue⟩
  · have hsame : ∀ q, t'.get? q = t.get? q := by
      refine fun q => h.kept q ?_
      rintro ⟨hq, -, hq'⟩
      exact hdue (List.mem_singleton.mp hq ▸ hq')
    simp only [hdue, false_or, due_congr (hsame _), List.mem_cons, exists_eq_or_imp]

end Footprint

/-! ## Runs over files -/

/-- Work on a file that can be looked at is done, and tells whether the file is due. -/
theorem processFile_footprint (o : Options) (root : Path) (ha : a.Plain)
    (hseen : s.tree.hides? around.toAccess p = none) :
    ∃ s' changed, processFile around a o root p s = ⟨s', .ok changed⟩ ∧
      (changed = true ↔ ∃ output, Due around.toAccess o s.tree p output) ∧
      Footprint around a o [p] s.tree s'.tree := by
  by_cases htext : ∃ sql, SqlFile.find around.toAccess s.tree p = .text sql
  · obtain ⟨sql, hfound⟩ := htext
    have hdue : (withFinalNewline (format o sql) != sql) = true ↔
        ∃ output, Due around.toAccess o s.tree p output := by
      rw [bne_iff_ne]
      simp only [due_iff_of_text hfound, exists_eq_left]
    refine ⟨_, _, processFile_text ha (read_eq_ok_iff.mpr ⟨hseen, hfound⟩), hdue, ?_⟩
    by_cases hw : a.Writes around p ∧ (withFinalNewline (format o sql) != sql) = true
    · rw [hw.2, tree_conclude_written hw.1, Session.tree_trace]
      exact .put hw.1 (due_iff.mpr ⟨sql, hfound, rfl, bne_iff_ne.mp hw.2⟩)
    · rw [tree_conclude_kept hw, Session.tree_trace]
      exact .none fun h => hw ⟨h.1, hdue.mpr h.2⟩
  · rw [not_exists] at htext
    have hnot : ¬∃ output, Due around.toAccess o s.tree p output := not_due_of_no_text htext
    obtain ⟨s', htree, hrun⟩ := processFile_passed hseen htext
    refine ⟨s', false, hrun around rfl a o root, by simpa using hnot, ?_⟩
    rw [htree]
    exact .none fun h => hnot h.2

/-- Work on files is done one by one up to the first that cannot be looked at. If there is none, the
    count says whether a file is due. -/
theorem processFiles_footprint (around : Surroundings) (o : Options) (root : Path) (n : Nat)
    (s : Session) (ps : List Path) (ha : a.Plain) :
    ∃ s' value, processFiles around a o root n s ps = ⟨s', value⟩ ∧
      Footprint around a o (ps.takeWhile (s.tree.shows around.toAccess)) s.tree s'.tree ∧
      match ps.findSome? (s.tree.hides? around.toAccess) with
      | some fault => value = .error (.file fault)
      | .none => ∃ n', value = .ok n' ∧
        (0 < n' ↔ 0 < n ∨ ∃ p ∈ ps, ∃ output, Due around.toAccess o s.tree p output) := by
  induction ps generalizing s n with
  | nil => exact ⟨s, .ok n, rfl, .nil s.tree, n, rfl, by simp⟩
  | cons p ps ih =>
      cases hseen : s.tree.hides? around.toAccess p with
      | some fault =>
          refine ⟨s, .error (.file fault), ?_, ?_, ?_⟩
          · rw [processFiles, processFile_hidden hseen, Outcome.andThen]
          · rw [List.takeWhile_cons, Tree.shows, hseen]
            exact .nil s.tree
          · rw [List.findSome?_cons, hseen]
      | none =>
          obtain ⟨s₁, changed, hrun, hchanged, hfirst⟩ := processFile_footprint o root ha hseen
          obtain ⟨s₂, value, hrest, hlast, hend⟩ := ih (if changed then n + 1 else n) s₁
          -- the first file leaves it open what can be looked at
          have hhides := hfirst.refilled.hides? around.toAccess
          have hshows : s₁.tree.shows around.toAccess = s.tree.shows around.toAccess := by
            funext q
            rw [Tree.shows, Tree.shows, hhides]
          rw [hshows] at hlast
          rw [hhides] at hend
          refine ⟨s₂, value, ?_, ?_, ?_⟩
          · rw [processFiles, hrun, Outcome.andThen]
            exact hrest
          · rw [List.takeWhile_cons, Tree.shows, hseen]
            exact hfirst.cons hlast
          · rw [List.findSome?_cons, hseen]
            cases hfault : ps.findSome? (s.tree.hides? around.toAccess) with
            | some fault => simpa only [hfault] using hend
            | none =>
                simp only [hfault] at hend ⊢
                obtain ⟨n', hvalue, hcount⟩ := hend
                have hnext : 0 < (if changed then n + 1 else n) ↔ 0 < n ∨ changed = true := by
                  cases changed <;> simp
                refine ⟨n', hvalue, ?_⟩
                rw [hcount, hnext, hchanged, or_assoc, hfirst.exists_due_iff]

theorem processBelow_footprint (around : Surroundings) (o : Options) (root : Path) (s : Session)
    (ha : a.Plain) {ps : List Path} (hps : collect around.toAccess s.tree root = .ok ps) :
    ∃ s' value, processBelow around a o root s = ⟨s', value⟩ ∧
      Footprint around a o (ps.takeWhile (s.tree.shows around.toAccess)) s.tree s'.tree ∧
      match ps.findSome? (s.tree.hides? around.toAccess) with
      | some fault => value = .error (.file fault)
      | .none => ∃ code, value = .ok code ∧
        (code = exitChanged ↔
          a.check = true ∧ ∃ p ∈ ps, ∃ output, Due around.toAccess o s.tree p output) ∧
        (code ≠ exitChanged → code = exitOk) := by
  unfold processBelow
  rw [hps]
  cases ps with
  | nil => exact ⟨_, _, rfl, .nil s.tree, exitOk, rfl, by simp [exitOk, exitChanged], fun _ => rfl⟩
  | cons p ps =>
      obtain ⟨s', value, hrun, hfoot, hend⟩ := processFiles_footprint around o root 0 s (p :: ps) ha
      simp only [hrun]
      cases hfault : (p :: ps).findSome? (s.tree.hides? around.toAccess) with
      | some fault =>
          simp only [hfault] at hend ⊢
          exact ⟨s', .error (.file fault), by rw [hend, Outcome.andThen], hfoot, rfl⟩
      | none =>
          simp only [hfault, Nat.lt_irrefl, false_or] at hend ⊢
          obtain ⟨n, hvalue, hcount⟩ := hend
          simp only [hvalue, Outcome.andThen]
          rw [← hcount]
          by_cases h : (a.check && decide (0 < n)) = true
          · simp only [h, if_true]
            simp only [Bool.and_eq_true, decide_eq_true_eq] at h
            exact ⟨_, _, rfl, hfoot, _, rfl, iff_of_true rfl h, fun hne => absurd rfl hne⟩
          · simp only [h, if_false, Bool.false_eq_true]
            simp only [Bool.and_eq_true, decide_eq_true_eq] at h
            exact ⟨_, _, rfl, hfoot, _, rfl, iff_of_false (by decide) h, fun _ => rfl⟩

end

/-! ## Calls -/

/-- The path is not that of standard input, and leads to a file or folder. -/
structure Arguments.LeadsTo (a : Arguments) (access : Access) (tree : Tree) (home root : Path) : Prop where
  named : a.path ≠ ['-']
  absolute : (Route.ofText a.path).absolute home = root
  hasNul : (Route.ofText a.path).hasNul = false
  stands : ∃ p node, tree.look access root = .node p node

theorem work_eq {access : Access} {home root : Path} {a : Arguments} {o : Options} {s : Session}
    (ho : resolve access s.tree home a = .ok o) (hr : a.LeadsTo access s.tree home root) :
    ∃ told : Session, told.tree = s.tree ∧ ∀ around : Surroundings, around.home = home →
      around.toAccess = access → work around a s = processBelow around a o root told := by
  obtain ⟨told, htold⟩ : ∃ told, (if a.verbose then
      s.sayLine ("[DEBUG] Options: ".toList ++ o.write) else s) = told := ⟨_, rfl⟩
  have htree : told.tree = s.tree := by
    rw [← htold]
    split <;> rfl
  refine ⟨told, htree, fun around hhome haccess => ?_⟩
  obtain ⟨p, node, hnode⟩ := hr.stands
  simp only [work, hhome, haccess, ho, htold, hr.named, if_false, processPath, hr.absolute, hr.hasNul,
    htree, hnode]
  rfl

theorem call_eq_processBelow {around : Surroundings} {texts : List Text} {tree : Tree} {a : Arguments}
    {o : Options} {root : Path} (ha : readArguments texts = .ok (.work a))
    (ho : resolve around.toAccess tree around.home a = .ok o)
    (hr : a.LeadsTo around.toAccess tree around.home root) :
    ∃ told : Session, told.tree = tree ∧ call around texts tree =
      { session := (processBelow around a o root told).session
        code := (processBelow around a o root told).value } := by
  obtain ⟨told, htold, hwork⟩ := work_eq (s := { tree }) ho hr
  exact ⟨told, htold, by simp only [call, ha, hwork around rfl rfl]⟩

/-- What a call leaves of the tree, and how it ends. -/
theorem call_leaves {around : Surroundings} {texts : List Text} {tree : Tree} {a : Arguments}
    {o : Options} {root : Path} {ps : List Path} (ha : readArguments texts = .ok (.work a)) (hp : a.Plain)
    (ho : resolve around.toAccess tree around.home a = .ok o)
    (hr : a.LeadsTo around.toAccess tree around.home root)
    (hps : collect around.toAccess tree root = .ok ps) :
    Footprint around a o (ps.takeWhile (tree.shows around.toAccess)) tree
        (call around texts tree).session.tree ∧
      match ps.findSome? (tree.hides? around.toAccess) with
      | some fault => (call around texts tree).code = .error (.file fault)
      | .none => ∃ code, (call around texts tree).code = .ok code ∧
        (code = exitChanged ↔
          a.check = true ∧ ∃ p ∈ ps, ∃ output, Due around.toAccess o tree p output) ∧
        (code ≠ exitChanged → code = exitOk) := by
  obtain ⟨told, rfl, hcall⟩ := call_eq_processBelow ha ho hr
  obtain ⟨s', value, hrun, hfoot, hend⟩ := processBelow_footprint around o root told hp hps
  rw [hcall, hrun]
  exact ⟨hfoot, hend⟩

/-- A call without stages and extra checks changes nothing and breaks off if the search for files does.
    Of the files that it finds it reaches those before the first that cannot be looked at. It changes
    the contents of a file only if it may write, and the file is one that it reaches, can be read and
    written, and is due. Each such file gets what it is due, whatever comes of the others. If all files
    can be looked at, a check ends with its own exit code if a file is due, and any other end is well.
    Otherwise the call breaks off. -/
theorem call_footprint {around : Surroundings} {texts : List Text} {tree : Tree} {a : Arguments}
    {o : Options} {root : Path} (ha : readArguments texts = .ok (.work a)) (hp : a.Plain)
    (ho : resolve around.toAccess tree around.home a = .ok o)
    (hr : a.LeadsTo around.toAccess tree around.home root) :
    let ending := call around texts tree
    (∀ fault, collect around.toAccess tree root = .error fault →
      ending.session.tree = tree ∧ ending.code = .error (.file fault)) ∧
    ∀ ps, collect around.toAccess tree root = .ok ps →
      let reached := ps.takeWhile (tree.shows around.toAccess)
      (∀ p, ending.session.tree.get? p ≠ tree.get? p → a.check = false ∧ a.dryRun = false ∧
        p ∈ reached ∧ p ∉ around.readonly ∧ ∃ output, Due around.toAccess o tree p output) ∧
      (a.check = false → a.dryRun = false → ∀ p ∈ reached, p ∉ around.readonly →
        ∀ output, Due around.toAccess o tree p output →
          ending.session.tree.get? p = some (.file (Utf8.encode output))) ∧
      (ps.findSome? (tree.hides? around.toAccess) = none →
        (ending.code = .ok exitChanged ↔
          a.check = true ∧ ∃ p ∈ ps, ∃ output, Due around.toAccess o tree p output) ∧
        (ending.code ≠ .ok exitChanged → ending.code = .ok exitOk)) ∧
      ∀ fault, ps.findSome? (tree.hides? around.toAccess) = some fault →
        ending.code = .error (.file fault) := by
  intro ending
  refine ⟨fun fault hfault => ?_, fun ps hps => ?_⟩
  · obtain ⟨told, rfl, hcall⟩ := call_eq_processBelow ha ho hr
    simp only [ending, hcall, processBelow, hfault, and_self]
  · obtain ⟨hfoot, hend⟩ := call_leaves ha hp ho hr hps
    refine ⟨fun p hne => ?_, fun hcheck hdry p hmem hw => hfoot.written p hmem ⟨hcheck, hdry, hw⟩,
      fun hnone => ?_, fun fault hfault => ?_⟩
    · by_contra h
      refine hne (hfoot.kept p ?_)
      rintro ⟨hmem, ⟨hcheck, hdry, hw⟩, hdue⟩
      exact h ⟨hcheck, hdry, hmem, hw, hdue⟩
    · simp only [hnone] at hend
      obtain ⟨code, hcode, hchanged, hok⟩ := hend
      rw [show ending.code = .ok code from hcode, ne_eq, Except.ok.injEq, Except.ok.injEq]
      exact ⟨hchanged, hok⟩
    · simpa only [hfault] using hend

/-- A folder with a file to lay out, one that is not UTF-8 and a blank one. -/
def mixedFolder : Tree :=
  [(["q".toList], .folder),
    (["q".toList, "a.sql".toList], .file (Utf8.encode "select a ,b\r\nfrom t".toList)),
    (["q".toList, "b.sql".toList], .file [0xFF]),
    (["q".toList, "c.sql".toList], .file (Utf8.encode " \r\n".toList))]

/-- Of three files one is due: another one is not UTF-8, and the third one, which laying out would
    empty, cannot be written. -/
theorem call_footprint_mixedFolder :
    let around : Surroundings := { home := [], readonly := [["q".toList, "c.sql".toList]] }
    let output := "SELECT a, b\nFROM t\n".toList
    Due {} {} mixedFolder ["q".toList, "a.sql".toList] output ∧
      (call around ["q".toList] mixedFolder).session.tree.get? ["q".toList, "a.sql".toList]
        = some (.file (Utf8.encode output)) ∧
      (call around ["q".toList] mixedFolder).session.tree.get? ["q".toList, "c.sql".toList]
        = some (.file (Utf8.encode " \r\n".toList)) ∧
      (call around ["--check".toList, "q".toList] mixedFolder).code = .ok exitChanged := by
  intro around output
  have hdue : Due {} {} mixedFolder ["q".toList, "a.sql".toList] output :=
    ⟨rfl, by decide, _, _, rfl, Utf8.decode_encode _, by decide, by decide⟩
  have hplace : Arguments.LeadsTo { path := "q".toList } {} mixedFolder [] ["q".toList] :=
    ⟨by decide, rfl, by decide, ["q".toList], .folder, rfl⟩
  have hcheck : Arguments.LeadsTo { path := "q".toList, check := true } {} mixedFolder [] ["q".toList] :=
    ⟨by decide, rfl, by decide, ["q".toList], .folder, rfl⟩
  obtain ⟨-, hfound⟩ :=
    @call_footprint around ["q".toList] mixedFolder _ {} _ rfl ⟨rfl, rfl, rfl⟩ rfl hplace
  obtain ⟨honly, hwritten, -, -⟩ := hfound _ rfl
  obtain ⟨-, hfound'⟩ :=
    @call_footprint around ["--check".toList, "q".toList] mixedFolder _ {} _ rfl ⟨rfl, rfl, rfl⟩ rfl hcheck
  obtain ⟨-, -, hcode, -⟩ := hfound' _ rfl
  refine ⟨hdue, hwritten rfl rfl _ (by decide) (by decide) _ hdue, ?_,
    (hcode (by decide)).1.mpr ⟨rfl, _, by decide, _, hdue⟩⟩
  by_contra hne
  exact (honly ["q".toList, "c.sql".toList] hne).2.2.2.1 (by decide)

/-- A file stands in a folder whose names can be listed and in which nothing can be looked at. The
    file after it could be laid out and stays as it is, and there is no exit code. -/
theorem call_footprint_closedFolder :
    let around : Surroundings := { home := [], closed := [["q".toList, "a".toList]] }
    let p : Path := ["q".toList, "z.sql".toList]
    let tree : Tree := [(["q".toList], .folder), (["q".toList, "a".toList], .folder),
      (["q".toList, "a".toList, "x.sql".toList], .file []),
      (p, .file (Utf8.encode "select 1".toList))]
    (∃ ps, collect around.toAccess tree ["q".toList] = .ok ps ∧ p ∈ ps) ∧
      Due around.toAccess {} tree p "SELECT 1\n".toList ∧
      (call around ["q".toList] tree).session.tree.get? p = tree.get? p ∧
      (call around ["q".toList] tree).code.toOption = none := by
  intro around p tree
  exact ⟨⟨_, rfl, by decide⟩, ⟨rfl, by decide, _, _, rfl, Utf8.decode_encode _, by decide, by decide⟩,
    by decide, by decide⟩

end SqlLayout.CommandLine
