import SqlLayout.Proofs.AuditFrame
import SqlLayout.Proofs.Footprint

/-! # What an audit leaves

Working on a file with stages leaves five files with what the stages of its text are, in the folder
that its place among the files gives. Later files of the same run empty folders of their own, and take
away what stands there. So the stages of a file are there in the end if no folder for the stages of a
later file stands around them.
-/

namespace SqlLayout.CommandLine

namespace Audit

/-- The files that an audit of a text leaves: their names and what they hold. -/
def stageFiles (o : Options) (sql : Text) : List (Text × Text) :=
  let done := stages o.style sql
  [("01_original.sql".toList, sql), ("02_normalize_spacing.sql".toList, done.spaced),
    ("03_keyword_case.sql".toList, done.cased),
    ("04_split_clauses.sql".toList, Text.joinWith ['\n'] done.clauses),
    ("05_final.sql".toList, format o sql)]

/-! ## Steps of an audit -/

theorem putFile_ok {around : Surroundings} {tree tree' : Tree} {shown : Text} {p : Path} {content : Text}
    (h : putFile around tree shown p content = (tree', none)) :
    tree' = tree.put p (.file (Utf8.encode content)) := by
  unfold putFile at h
  split at h
  · simp at h
  · exact (congrArg Prod.fst h).symm

/-- What is written stands at the path that the route gives by its text. -/
theorem writeFile_ok {around : Surroundings} {tree tree' : Tree} {folder : Route} {name content : Text}
    (hname : name ≠ "..".toList)
    (h : writeFile around tree (folder.below [name]) content = (tree', none)) :
    tree' = tree.put (folder.absolute around.home ++ [name]) (.file (Utf8.encode content)) := by
  have haround : (folder.below [name]).around = folder := by
    simp [Route.around, Route.below]
  unfold writeFile at h
  simp only at h
  split at h
  · simp at h
  · split at h
    · simp at h
    · simp at h
    · simp at h
    · rename_i path _ hfound
      obtain ⟨rfl, -⟩ := Tree.follow_eq hfound
      rw [Route.absolute_below _ _ hname] at h
      exact putFile_ok h
    · split at h
      · rename_i path hfound
        rw [haround] at hfound
        obtain ⟨rfl, -⟩ := Tree.follow_eq hfound
        split at h
        · simp at h
        have hlast : (folder.below [name]).parts.getLast?.toList = [name] := by
          simp [Route.below]
        rw [hlast] at h
        exact putFile_ok h
      · simp at h

/-- The files that steps write, the first of which has the given number. -/
def filesFrom (number : Int) : List StageStep → List (Text × Text)
  | [] => []
  | step :: rest => (stageFile number step.name, step.content) :: filesFrom (number + 1) rest

theorem filesFrom_steps (o : Options) (verbose : Bool) (sql : Text) :
    filesFrom 1 (steps o verbose sql) = stageFiles o sql := by
  have hnames : stageFile 1 "original".toList = "01_original.sql".toList ∧
      stageFile (1 + 1) "normalize_spacing".toList = "02_normalize_spacing.sql".toList ∧
      stageFile (1 + 1 + 1) "keyword_case".toList = "03_keyword_case.sql".toList ∧
      stageFile (1 + 1 + 1 + 1) "split_clauses".toList = "04_split_clauses.sql".toList ∧
      stageFile (1 + 1 + 1 + 1 + 1) "final".toList = "05_final.sql".toList := by
    decide
  simp only [filesFrom, steps, stageFiles, hnames, format, SqlLayout.layOut]

/-- Files put into a folder one after the other. -/
def putAll (folder : Path) (tree : Tree) (files : List (Text × Text)) : Tree :=
  files.foldl (fun tree file => tree.put (folder ++ [file.1]) (.file (Utf8.encode file.2))) tree

theorem get?_putAll_of_not_mem {folder : Path} {name : Text} {files : List (Text × Text)}
    (h : name ∉ files.map (·.1)) (tree : Tree) :
    (putAll folder tree files).get? (folder ++ [name]) = tree.get? (folder ++ [name]) := by
  induction files generalizing tree with
  | nil => rfl
  | cons file files ih =>
      rw [List.map_cons, List.mem_cons, not_or] at h
      rw [putAll, List.foldl_cons, ← putAll, ih h.2]
      exact Tree.get?_put_of_ne (by simpa using h.1) _ tree

theorem get?_putAll {folder : Path} {files : List (Text × Text)} (h : (files.map (·.1)).Nodup)
    (tree : Tree) : ∀ file ∈ files,
      (putAll folder tree files).get? (folder ++ [file.1]) = some (.file (Utf8.encode file.2)) := by
  induction files generalizing tree with
  | nil => simp
  | cons first files ih =>
      rw [List.map_cons, List.nodup_cons] at h
      rw [putAll, List.foldl_cons, ← putAll]
      intro file hfile
      rcases List.mem_cons.mp hfile with rfl | hfile
      · rw [get?_putAll_of_not_mem h.1]
        exact Tree.get?_put_self (by simp) _ tree
      · exact ih h.2 _ file hfile

theorem takeSteps_ok {around : Surroundings} {route : Route} {number : Int} {s : Session}
    {steps : List StageStep} (hnames : ∀ step ∈ steps, '/' ∉ step.name)
    (h : (takeSteps around route number s steps).value = .ok ()) :
    (takeSteps around route number s steps).session.tree
      = putAll (route.absolute around.home) s.tree (filesFrom number steps) := by
  induction steps generalizing number s with
  | nil => rfl
  | cons step rest ih =>
      rw [List.forall_mem_cons] at hnames
      unfold takeSteps at h ⊢
      simp only [writeStage, if_true, partsOf_stageFile number hnames.1] at h ⊢
      cases hwrite : writeFile around (s.say step.told).tree
          (route.below [stageFile number step.name]) step.content with
      | mk tree fault =>
          rw [hwrite] at h
          cases fault with
          | some fault => simp at h
          | none =>
              obtain rfl := writeFile_ok (stageFile_ne_dots number step.name) hwrite
              exact ih hnames.2 h

/-- An audit that does not break off leaves the files of all stages. -/
theorem layOut_ok {around : Surroundings} {o : Options} {verbose : Bool} {route : Route} {sql out : Text}
    {s : Session} (h : (layOut around o verbose route sql s).value = .ok out) :
    ∀ file ∈ stageFiles o sql,
      (layOut around o verbose route sql s).session.tree.get? (route.absolute around.home ++ [file.1])
        = some (.file (Utf8.encode file.2)) := by
  have hnames : ∀ step ∈ steps o verbose sql, '/' ∉ step.name := by
    simp only [steps, List.forall_mem_cons]
    decide
  have hnodup : ((stageFiles o sql).map (·.1)).Nodup := by
    simp only [stageFiles, List.map_cons, List.map_nil]
    decide
  unfold layOut at h ⊢
  split at h
  · simp at h
  · split at h
    · simp at h
    · rename_i made hmade
      cases hvalue : (takeSteps around route 1 (s.withTree made) (steps o verbose sql)).value with
      | error breakdown => simp [Outcome.andThen, hvalue] at h
      | ok _ =>
          simp only [Outcome.andThen, hvalue]
          rw [takeSteps_ok hnames hvalue, filesFrom_steps]
          exact get?_putAll hnodup _

end Audit

/-! ## Runs that write stages -/

section

variable {around : Surroundings} {a : Arguments} {o : Options} {root p q : Path} {s : Session}
  {sql : Text}

/-- The files of all stages of a text are in a folder. -/
def Staged (o : Options) (sql : Text) (tree : Tree) (folder : Path) : Prop :=
  ∀ file ∈ Audit.stageFiles o sql,
    tree.get? (folder ++ [file.1]) = some (.file (Utf8.encode file.2))

/-- Work on a file that does not break off leaves its stages. -/
theorem processFile_staged (hd : a.debug = true) (hfound : SqlFile.find around.toAccess s.tree p = .text sql)
    {changed : Bool} (h : (processFile around a o root p s).value = .ok changed) :
    ∀ folder ∈ a.stagesAt? s.tree around.home root p,
      Staged o sql (processFile around a o root p s).session.tree folder := by
  intro folder hfolder
  obtain ⟨given, hgiven, rfl⟩ := Option.map_eq_some_iff.mp hfolder
  have haudit : auditRoute a = .ok (some (.ofText given)) := by
    simp only [auditRoute, hd, hgiven]
  have hseen : s.tree.hides? around.toAccess p = none := by
    cases hhidden : s.tree.hides? around.toAccess p with
    | none => rfl
    | some fault => simp [processFile_hidden hhidden] at h
  have hread : SqlFile.read around.toAccess s.tree p = .ok (.text sql) :=
    read_eq_ok_iff.mpr ⟨hseen, hfound⟩
  simp only [processFile, hread, haudit, ok_andThen, Option.map_some, layOutText] at h ⊢
  cases hvalue : (Audit.layOut around o a.verbose (Audit.folderFor (.ofText given) s.tree root p)
      sql s).value with
  | error breakdown => simp [Outcome.andThen, hvalue] at h
  | ok laidOut =>
      intro file hfile
      -- after the stages are written nothing but telling is left
      refine Eq.trans (congrArg (Tree.get? · _) (tree_andThen _ fun s laidOut => ?_))
        (Audit.layOut_ok hvalue file hfile)
      exact (tree_andThen _ fun _ _ => rfl).trans (s.tree_checkText around a p.text sql laidOut)

theorem processFile_unread (around : Surroundings) (a : Arguments) (o : Options) (root : Path)
    (h : ∀ sql, SqlFile.find around.toAccess s.tree p ≠ .text sql) :
    (processFile around a o root p s).session.tree = s.tree := by
  unfold processFile
  split
  · rfl
  · rfl
  · rfl
  · rename_i sql hread
    exact absurd (read_eq_ok_iff.mp hread).2 (h sql)

theorem processFiles_append (n : Nat) (ps qs : List Path) :
    processFiles around a o root n s (ps ++ qs)
      = (processFiles around a o root n s ps).andThen fun s n =>
          processFiles around a o root n s qs := by
  induction ps generalizing n s with
  | nil => rfl
  | cons p ps ih =>
      rw [List.cons_append, processFiles, processFiles]
      cases hvalue : (processFile around a o root p s).value with
      | error breakdown => simp [Outcome.andThen, hvalue]
      | ok changed => simp [Outcome.andThen, hvalue, ih]

theorem value_of_andThen_ok {α β : Type} {done : Outcome α} {next : Session → α → Outcome β} {b : β}
    (h : (done.andThen next).value = .ok b) :
    ∃ x, done.value = .ok x ∧ done.andThen next = next done.session x := by
  cases hvalue : done.value with
  | error breakdown => simp [Outcome.andThen, hvalue] at h
  | ok x => exact ⟨x, rfl, by simp [Outcome.andThen, hvalue]⟩

/-- Some files and their root are there, and none is in a folder that work on these files empties. -/
structure Arguments.Spares (a : Arguments) (tree : Tree) (home root : Path) (ps : List Path) : Prop where
  stands : ∀ f ∈ root :: ps, tree.get? f ≠ none
  apart : ∀ p ∈ ps, ∀ folder ∈ a.stagesAt? tree home root p, ∀ f ∈ root :: ps, ¬folder <+: f

theorem Arguments.Spares.mono {tree : Tree} {home : Path} {ps qs : List Path}
    (h : a.Spares tree home root qs) (hps : ∀ p ∈ ps, p ∈ qs) : a.Spares tree home root ps := by
  have hsub : ∀ f ∈ root :: ps, f ∈ root :: qs := by
    intro f hf
    exact List.mem_cons.mpr ((List.mem_cons.mp hf).imp_right (hps f))
  exact ⟨fun f hf => h.stands f (hsub f hf),
    fun p hp folder hfolder f hf => h.apart p (hps p hp) folder hfolder f (hsub f hf)⟩

theorem Arguments.Spares.congr {t t' : Tree} {home : Path} {ps : List Path}
    (h : a.Spares t home root ps) (hkept : ∀ f ∈ root :: ps, t'.get? f = t.get? f) :
    a.Spares t' home root ps := by
  refine ⟨fun f hf => hkept f hf ▸ h.stands f hf, fun p hp folder hfolder => ?_⟩
  rw [stagesAt?_congr (hkept root (by simp))] at hfolder
  exact h.apart p hp folder hfolder

/-- What stands in no folder that work on some files empties is kept, if that work spares these files.
    A file that cannot be read empties no folder. -/
theorem processFiles_keeps (hd : a.debug = true) (n : Nat) {ps : List Path}
    (hq : s.tree.get? q ≠ none) (hps : a.Spares s.tree around.home root ps)
    (hout : ∀ p ∈ ps, ∀ sql, SqlFile.find around.toAccess s.tree p = .text sql →
      ∀ folder ∈ a.stagesAt? s.tree around.home root p, ¬folder <+: q) :
    (processFiles around a o root n s ps).session.tree.get? q = s.tree.get? q := by
  induction ps generalizing s n with
  | nil => rfl
  | cons p ps ih =>
      have hfiles : ∀ f ∈ root :: p :: ps,
          (processFile around a o root p s).session.tree.get? f = s.tree.get? f := fun f hf =>
        processFile_debug around o hd (hps.stands f hf)
          fun folder hfolder => hps.apart p (by simp) folder hfolder f hf
      have hkept : (processFile around a o root p s).session.tree.get? q = s.tree.get? q := by
        by_cases hfound : ∃ sql, SqlFile.find around.toAccess s.tree p = .text sql
        · obtain ⟨sql, hfound⟩ := hfound
          exact processFile_debug around o hd hq (hout p (by simp) sql hfound)
        · rw [processFile_unread around a o root (by simpa using hfound)]
      rw [processFiles, Outcome.andThen]
      split
      · exact hkept
      · rw [← hkept]
        refine ih _ (hkept ▸ hq) ((hps.congr hfiles).mono (by simp +contextual))
          fun p' hp' sql hfound folder hfolder => ?_
        rw [find_congr _ (hfiles p' (by simp [hp']))] at hfound
        rw [stagesAt?_congr (hfiles root (by simp))] at hfolder
        exact hout p' (by simp [hp']) sql hfound folder hfolder

/-- A run that does not break off leaves each stage of a file, unless a later file that can be read
    has the folder for its own stages around that stage. -/
theorem processFiles_staged (hd : a.debug = true) (n : Nat) {earlier later : List Path} {total : Nat}
    (hfiles : a.Spares s.tree around.home root (earlier ++ p :: later))
    (hfound : SqlFile.find around.toAccess s.tree p = .text sql)
    (h : (processFiles around a o root n s (earlier ++ p :: later)).value = .ok total) :
    ∀ folder ∈ a.stagesAt? s.tree around.home root p, ∀ file ∈ Audit.stageFiles o sql,
      (∀ q ∈ later, ∀ text, SqlFile.find around.toAccess s.tree q = .text text →
        ∀ other ∈ a.stagesAt? s.tree around.home root q, ¬other <+: folder ++ [file.1]) →
      (processFiles around a o root n s (earlier ++ p :: later)).session.tree.get?
        (folder ++ [file.1]) = some (.file (Utf8.encode file.2)) := by
  intro folder hfolder file hfile hout
  -- the files before it keep all files, itself included
  have hkept : ∀ f ∈ root :: (earlier ++ p :: later),
      (processFiles around a o root n s earlier).session.tree.get? f = s.tree.get? f := fun f hf =>
    processFiles_keeps hd n (hfiles.stands f hf) (hfiles.mono (by simp +contextual))
      fun q hq sql _ folder hfolder => hfiles.apart q (by simp [hq]) folder hfolder f hf
  rw [processFiles_append] at h ⊢
  obtain ⟨m, -, hrest⟩ := value_of_andThen_ok h
  rw [hrest] at h ⊢
  generalize (processFiles around a o root n s earlier).session = s₁ at h hkept ⊢
  have hfiles₁ := hfiles.congr hkept
  have hfound₁ : SqlFile.find around.toAccess s₁.tree p = .text sql := by
    rw [find_congr _ (hkept p (by simp)), hfound]
  have hroot₁ := hkept root (by simp)
  rw [← stagesAt?_congr hroot₁] at hfolder
  -- itself it leaves its stages, and the files as they were
  rw [processFiles] at h ⊢
  obtain ⟨changed, hchanged, hnext⟩ := value_of_andThen_ok h
  have hstaged := processFile_staged hd hfound₁ hchanged folder hfolder file hfile
  have hkept₁ : ∀ f ∈ root :: (earlier ++ p :: later),
      (processFile around a o root p s₁).session.tree.get? f = s₁.tree.get? f := fun f hf =>
    processFile_debug around o hd (hfiles₁.stands f hf)
      fun folder hfolder => hfiles₁.apart p (by simp) folder hfolder f hf
  rw [hnext, ← hstaged]
  refine processFiles_keeps hd _ (by simp [hstaged]) ((hfiles₁.congr hkept₁).mono (by simp +contextual))
    fun q hq text hqfound other hother => ?_
  have hsame : ∀ f ∈ root :: (earlier ++ p :: later),
      (processFile around a o root p s₁).session.tree.get? f = s.tree.get? f := fun f hf =>
    (hkept₁ f hf).trans (hkept f hf)
  rw [find_congr _ (hsame q (by simp [hq]))] at hqfound
  rw [stagesAt?_congr (hsame root (by simp))] at hother
  exact hout q hq text hqfound other hother

end

/-! ## Calls -/

/-- A call that writes stages, works on files outside of the folders for them and does not break off
    leaves each stage of every file that can be read, unless a later file has the folder for its own
    stages around that stage. -/
theorem call_staged {around : Surroundings} {texts : List Text} {tree : Tree} {a : Arguments}
    {o : Options} {root : Path} {ps : List Path} {code : Nat} (ha : readArguments texts = .ok (.work a))
    (hd : a.debug = true) (ho : resolve around.toAccess tree around.home a = .ok o)
    (hr : a.LeadsTo around.toAccess tree around.home root)
    (hps : collect around.toAccess tree root = .ok ps)
    (hapart : ∀ p ∈ ps, ∀ folder ∈ a.stagesAt? tree around.home root p, ∀ q ∈ ps, ¬folder <+: q)
    (hcode : (call around texts tree).code = .ok code) :
    ∀ earlier p later, ps = earlier ++ p :: later →
      ∀ sql, SqlFile.find around.toAccess tree p = .text sql →
      ∀ folder ∈ a.stagesAt? tree around.home root p, ∀ file ∈ Audit.stageFiles o sql,
      (∀ q ∈ later, ∀ text, SqlFile.find around.toAccess tree q = .text text →
        ∀ other ∈ a.stagesAt? tree around.home root q, ¬other <+: folder ++ [file.1]) →
      (call around texts tree).session.tree.get? (folder ++ [file.1])
        = some (.file (Utf8.encode file.2)) := by
  rintro earlier p later rfl sql hfound folder hfolder file hfile hout
  obtain ⟨told, rfl, hcall⟩ := call_eq_processBelow ha ho hr
  have hspares : a.Spares told.tree around.home root (earlier ++ p :: later) := by
    refine ⟨fun f hf => ?_, fun p hp folder hfolder f hf => ?_⟩
    · rcases List.mem_cons.mp hf with rfl | hf
      · exact get?_root_of_mem_collect hps (q := p) (by simp)
      · exact (mem_collect hps hf).1
    · rcases List.mem_cons.mp hf with rfl | hf
      · exact fun hpre => hapart p hp folder hfolder p hp (hpre.trans (mem_collect hps hp).2)
      · exact hapart p hp folder hfolder f hf
  have hne : earlier ++ p :: later ≠ [] := by simp
  simp only [hcall, processBelow, hps] at hcode ⊢
  obtain ⟨count, hcount, -⟩ := value_of_andThen_ok hcode
  refine Eq.trans (congrArg (Tree.get? · _) (tree_andThen _ fun s count => ?_))
    (processFiles_staged hd 0 hspares hfound hcount folder hfolder file hfile hout)
  split <;> rfl

/-- Two files, the second of them in a folder of its own. -/
def nested : Tree :=
  [(["q".toList], .folder), (["q".toList, "r".toList], .folder),
    (["q".toList, "p.sql".toList], .file (Utf8.encode "select 1".toList)),
    (["q".toList, "r".toList, "p.sql".toList], .file (Utf8.encode "select 2".toList))]

/-- The stages of both files are there. -/
theorem call_staged_nested :
    let left := (call { home := [] } ["q".toList, "--debug".toList] nested).session.tree
    left.get? ["sql_restyle_audit".toList, "p".toList, "05_final.sql".toList]
        = some (.file (Utf8.encode "SELECT 1".toList)) ∧
      left.get? ["sql_restyle_audit".toList, "r".toList, "p".toList, "05_final.sql".toList]
        = some (.file (Utf8.encode "SELECT 2".toList)) := by
  intro left
  have hroot : Arguments.LeadsTo { path := "q".toList, debug := true } {} nested [] ["q".toList] :=
    ⟨by decide, rfl, by decide, ["q".toList], .folder, rfl⟩
  have hstaged := @call_staged { home := [] } ["q".toList, "--debug".toList] nested _ {} _ _ exitOk rfl
    rfl rfl hroot rfl (by decide) rfl
  have hlater : ∀ q ∈ [["q".toList, "r".toList, "p.sql".toList]], ∀ text,
      SqlFile.find {} nested q = .text text →
      ∀ other ∈ Arguments.stagesAt? { path := "q".toList, debug := true } nested [] ["q".toList] q,
        ¬other <+: ["sql_restyle_audit".toList, "p".toList, "05_final.sql".toList] := by
    intro q hq _ _ other hother
    obtain rfl := List.mem_singleton.mp hq
    obtain rfl := Option.mem_some_iff.mp hother
    decide
  have hfinal : ∀ sql final, format {} sql = final →
      ("05_final.sql".toList, final) ∈ Audit.stageFiles {} sql := by
    rintro sql final rfl
    simp [Audit.stageFiles]
  exact ⟨hstaged [] ["q".toList, "p.sql".toList] _ rfl "select 1".toList rfl
      ["sql_restyle_audit".toList, "p".toList] rfl _ (hfinal _ _ rfl) hlater,
    hstaged [_] ["q".toList, "r".toList, "p.sql".toList] [] rfl "select 2".toList rfl
      ["sql_restyle_audit".toList, "r".toList, "p".toList] rfl _ (hfinal _ _ rfl) (by simp)⟩

/-- Of the two files one has the name of the folder around the other, and its stages take the place of
    the stages of the other. -/
theorem call_staged_namesakes :
    let texts := ["q".toList, "--debug".toList]
    let p : Path := ["q".toList, "r".toList, "p.sql".toList]
    let folder : Path := ["sql_restyle_audit".toList, "r".toList, "p".toList]
    collect {} namesakes ["q".toList] = .ok [p, ["q".toList, "r.sql".toList]] ∧
      (call { home := [] } texts namesakes).code.toOption = some exitOk ∧
      Arguments.stagesAt? { path := "q".toList, debug := true } namesakes [] ["q".toList] p = some folder ∧
      ∀ file ∈ Audit.stageFiles {} "select 2".toList,
        (call { home := [] } texts namesakes).session.tree.get? (folder ++ [file.1]) = none := by
  decide

end SqlLayout.CommandLine
