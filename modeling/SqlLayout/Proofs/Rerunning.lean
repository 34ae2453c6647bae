import SqlLayout.Proofs.CheckFlag
import SqlLayout.Proofs.Footprint
import SqlLayout.Proofs.Misconfiguration

/-! # Running again

A run in place leaves every file that can be read with the text that laying it out gives, so a later
run with the same options has nothing to change, whether as a check or in place.
-/

namespace SqlLayout.CommandLine

/-- Laying out in place is asked for, and nothing else. -/
structure Arguments.InPlace (a : Arguments) : Prop extends a.Plain where
  check : a.check = false
  dryRun : a.dryRun = false

section

variable {around : Surroundings} {access : Access} {a : Arguments} {o : Options} {root p : Path}
  {ps : List Path} {s : Session} {t t' : Tree}

/-- After a run in place that could write the files that are not laid out, all are. -/
theorem Footprint.laidOut (h : Footprint around a o ps t t') (ha : a.InPlace)
    (hw : ∀ p ∈ ps, ¬LaidOut around.toAccess o t p → p ∉ around.readonly) :
    ∀ p ∈ ps, LaidOut around.toAccess o t' p := by
  intro p hp
  rw [laidOut_iff]
  by_cases hlaid : LaidOut around.toAccess o t p
  · have hkept : t'.get? p = t.get? p := h.kept p fun hdue => laidOut_iff.mp hlaid hdue.2.2
    simpa only [due_congr hkept] using laidOut_iff.mp hlaid
  · obtain ⟨output, hdue⟩ := not_not.mp (mt laidOut_iff.mpr hlaid)
    exact hdue.not_due_written (h.written p hp ⟨ha.check, ha.dryRun, hw p hp hlaid⟩ output hdue)

/-! ## Runs over laid out files -/

/-- What is told about a file that does not change. -/
def Session.keep (s : Session) (a : Arguments) (p : Path) : Session :=
  if !a.check && a.verbose then
    s.sayLine ("[DEBUG] ".toList ++ p.text ++ " already formatted.".toList)
  else s

@[simp] theorem Session.tree_keep (s : Session) (a : Arguments) (p : Path) :
    (s.keep a p).tree = s.tree := by
  unfold Session.keep
  split <;> rfl

theorem conclude_unchanged (hd : a.dryRun = false) (laidOut : Text) :
    conclude around a p none laidOut false s = s.keep a p := by
  unfold conclude Session.keep
  cases a.check with
  | true => rfl
  | false => rw [hd]; rfl

/-- A file that is laid out stays as it is, whether it can be written or not. -/
theorem processFile_laidOut (ha : a.Plain) (hd : a.dryRun = false)
    (hseen : s.tree.hides? access p = none) (h : LaidOut access o s.tree p) :
    ∃ s' : Session, s'.tree = s.tree ∧ ∀ around : Surroundings, around.toAccess = access →
      ∀ root, processFile around a o root p s = ⟨s', .ok false⟩ := by
  by_cases htext : ∃ sql, SqlFile.find access s.tree p = .text sql
  · obtain ⟨sql, hfound⟩ := htext
    have hchanged : (withFinalNewline (format o sql) != sql) = false := by
      rw [h sql hfound]
      exact bne_self_eq_false sql
    refine ⟨(s.trace a o sql).keep a p, by simp, ?_⟩
    rintro around rfl root
    rw [processFile_text ha (read_eq_ok_iff.mpr ⟨hseen, hfound⟩), hchanged, conclude_unchanged hd]
  · obtain ⟨s', htree, hrun⟩ := processFile_passed hseen (not_exists.mp htext)
    exact ⟨s', htree, fun around haccess root => hrun around haccess a o root⟩

/-- Files that are laid out stay as they are, and none of them counts as changed. -/
theorem processFiles_laidOut (ha : a.Plain) (hd : a.dryRun = false)
    (h : ∀ p ∈ ps, s.tree.hides? access p = none ∧ LaidOut access o s.tree p) :
    ∃ s' : Session, s'.tree = s.tree ∧ ∀ around : Surroundings, around.toAccess = access →
      ∀ root n, processFiles around a o root n s ps = ⟨s', .ok n⟩ := by
  induction ps generalizing s with
  | nil => exact ⟨s, rfl, fun _ _ _ _ => rfl⟩
  | cons p ps ih =>
      rw [List.forall_mem_cons] at h
      obtain ⟨s₁, htree, hrun⟩ := processFile_laidOut ha hd h.1.1 h.1.2
      obtain ⟨s₂, htree', hrest⟩ := ih (s := s₁) (by rw [htree]; exact h.2)
      refine ⟨s₂, htree'.trans htree, fun around haccess root n => ?_⟩
      rw [processFiles, hrun around haccess, Outcome.andThen]
      exact hrest around haccess root n

theorem processBelow_laidOut (ha : a.Plain) (hd : a.dryRun = false)
    (hps : collect access s.tree root = .ok ps)
    (h : ∀ p ∈ ps, s.tree.hides? access p = none ∧ LaidOut access o s.tree p) :
    ∃ s' : Session, s'.tree = s.tree ∧ ∀ around : Surroundings, around.toAccess = access →
      processBelow around a o root s = ⟨s', .ok exitOk⟩ := by
  obtain ⟨s', htree, hrun⟩ := processFiles_laidOut ha hd h
  unfold processBelow
  cases ps with
  | nil =>
      refine ⟨s.sayLine "No .sql files found to process.".toList, rfl, ?_⟩
      rintro around rfl
      rw [hps]
  | cons p ps =>
      refine ⟨s', htree, ?_⟩
      rintro around rfl
      simp only [hps, hrun around rfl, Outcome.andThen, Nat.lt_irrefl, decide_false, Bool.and_false,
        Bool.false_eq_true, if_false]

/-! ## Calls -/

/-- A run in place keeps the options, if it does not write to the config file. -/
theorem resolve_refilled {home : Path} (h : Tree.Refilled ps t t')
    (hc : ∀ p bytes, t.follow access home a.configRoute = .node p (.file bytes) → p ∉ ps) :
    resolve access t' home a = resolve access t home a := by
  have hfind := Config.Source.find_refilled h hc
  unfold Arguments.configRoute at hfind
  simp only [resolve, configured, hfind]

theorem Arguments.LeadsTo.refilled {home : Path} (hr : a.LeadsTo access t home root)
    (h : Tree.Refilled ps t t') : a.LeadsTo access t' home root where
  named := hr.named
  absolute := hr.absolute
  hasNul := hr.hasNul
  stands := by
    obtain ⟨p, node, hnode⟩ := hr.stands
    rcases h.follow access [] ⟨.root, root⟩ with heq | ⟨q, -, old, new, -, hnew⟩
    · exact ⟨p, node, heq.trans hnode⟩
    · exact ⟨q, .file new, hnew⟩

/-- A call that finds all files laid out leaves the tree as it is, whatever can be written. -/
theorem call_laidOut {home : Path} {texts : List Text} (ha : readArguments texts = .ok (.work a))
    (hp : a.Plain) (hd : a.dryRun = false) (ho : resolve access t home a = .ok o)
    (hr : a.LeadsTo access t home root) (hps : collect access t root = .ok ps)
    (h : ∀ p ∈ ps, t.hides? access p = none ∧ LaidOut access o t p) :
    ∃ s' : Session, s'.tree = t ∧ ∀ around : Surroundings, around.home = home →
      around.toAccess = access → call around texts t = { session := s', code := .ok exitOk } := by
  obtain ⟨told, (htold : told.tree = t), hwork⟩ := work_eq (s := { tree := t }) ho hr
  rw [← htold] at hps h
  obtain ⟨s', htree, hrun⟩ := processBelow_laidOut hp hd hps h
  refine ⟨s', htree.trans htold, fun around hhome haccess => ?_⟩
  simp only [call, ha, hwork around hhome haccess, hrun around haccess]

end

/-- After a call that lays out files in place, and can look at all of them and write those that are not
    laid out, a check with the same arguments finds nothing to change. The same call again leaves the
    tree as it is, and tries to write nothing: it makes no difference which files cannot be written. -/
theorem call_call {around later : Surroundings} {texts : List Text} {tree : Tree} {a : Arguments}
    {o : Options} {root : Path} {ps : List Path} {code : Nat}
    (ha : readArguments texts = .ok (.work a)) (hplace : a.InPlace)
    (ho : resolve around.toAccess tree around.home a = .ok o)
    (hr : a.LeadsTo around.toAccess tree around.home root)
    (hps : collect around.toAccess tree root = .ok ps)
    (hconfig : ∀ p bytes, tree.follow around.toAccess around.home a.configRoute = .node p (.file bytes) →
      p ∉ ps)
    (hw : ∀ p ∈ ps, ¬LaidOut around.toAccess o tree p → p ∉ around.readonly)
    (hcode : (call around texts tree).code = .ok code)
    (hlater : later.home = around.home) (haccess : later.toAccess = around.toAccess) :
    let left := (call around texts tree).session.tree
    (call later ("--check".toList :: texts) left).code = .ok exitOk ∧
      (call later texts left).code = .ok exitOk ∧
      (call later texts left).session.tree = left ∧
      ∀ readonly, call { later with readonly } texts left = call later texts left := by
  intro left
  obtain ⟨hfoot, hend⟩ := call_leaves ha hplace.toPlain ho hr hps
  have hrefilled := hfoot.refilled
  -- the run would have broken off at a file that cannot be looked at
  have hseen : ∀ p ∈ ps, tree.hides? around.toAccess p = none := by
    rw [← List.findSome?_eq_none_iff]
    cases hfault : ps.findSome? (tree.hides? around.toAccess) with
    | none => rfl
    | some fault => simp [hfault, hcode] at hend
  have hall : ps.takeWhile (tree.shows around.toAccess) = ps :=
    List.takeWhile_eq_self_iff.mpr fun p hp => by rw [Tree.shows, hseen p hp, Option.isNone_none]
  rw [hall] at hfoot
  have hlaid : ∀ p ∈ ps, left.hides? around.toAccess p = none ∧ LaidOut around.toAccess o left p := fun p hp =>
    ⟨by rw [hrefilled.hides?, hseen p hp], hfoot.laidOut hplace hw p hp⟩
  have hps' : collect around.toAccess left root = .ok ps := by
    rw [collect_refilled hrefilled, hps]
  have ho' : resolve around.toAccess left around.home a = .ok o :=
    (resolve_refilled hfoot.refilled hconfig).trans ho
  have hr' := hr.refilled hrefilled
  obtain ⟨s₁, -, hcheck⟩ := call_laidOut (readArguments_check ha)
    ⟨hplace.debug, hplace.verify, hplace.lint⟩ hplace.dryRun ho'
    ⟨hr'.named, hr'.absolute, hr'.hasNul, hr'.stands⟩ hps' hlaid
  obtain ⟨s₂, htree, hagain⟩ := call_laidOut ha hplace.toPlain hplace.dryRun ho' hr' hps' hlaid
  rw [hcheck later hlater haccess, hagain later hlater haccess]
  exact ⟨rfl, rfl, htree, fun readonly => hagain _ hlater haccess⟩

/-- The file that is not UTF-8 need not be writable, and stays as it is. -/
theorem call_call_mixedFolder :
    let left := (call { home := [], readonly := [["q".toList, "b.sql".toList]] } ["q".toList]
      mixedFolder).session.tree
    left = [(["q".toList], .folder),
        (["q".toList, "a.sql".toList], .file (Utf8.encode "SELECT a, b\nFROM t\n".toList)),
        (["q".toList, "b.sql".toList], .file [0xFF]),
        (["q".toList, "c.sql".toList], .file [])] ∧
      (call { home := [] } ["--check".toList, "q".toList] left).code = .ok exitOk ∧
      (call { home := [] } ["q".toList] left).code = .ok exitOk ∧
      (call { home := [] } ["q".toList] left).session.tree = left ∧
      ∀ readonly, call { home := [], readonly } ["q".toList] left
        = call { home := [] } ["q".toList] left := by
  have hroot : Arguments.LeadsTo { path := "q".toList } {} mixedFolder [] ["q".toList] :=
    ⟨by decide, rfl, by decide, ["q".toList], .folder, rfl⟩
  have hcode : (call { home := [], readonly := [["q".toList, "b.sql".toList]] } ["q".toList]
      mixedFolder).code = .ok exitOk := rfl
  refine ⟨by decide, call_call (o := {}) rfl ⟨⟨rfl, rfl, rfl⟩, rfl, rfl⟩ rfl hroot rfl ?_ ?_ hcode
    rfl rfl⟩
  · intro p bytes hfound
    have hmissing : mixedFolder.follow {} [] (Arguments.configRoute { path := "q".toList }) = .missing := rfl
    exact absurd (hmissing.symm.trans hfound) (by simp)
  · intro p _ hp hreadonly
    obtain rfl : p = ["q".toList, "b.sql".toList] := by simpa using hreadonly
    obtain ⟨why, hread⟩ : ∃ why, SqlFile.find {} mixedFolder ["q".toList, "b.sql".toList]
        = .unreadable why := ⟨_, rfl⟩
    refine hp fun sql hsql => ?_
    rw [hread] at hsql
    exact absurd hsql (by simp)

end SqlLayout.CommandLine
