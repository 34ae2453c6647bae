import SqlLayout.Proofs.Footprint
import SqlLayout.Proofs.TreeFrame

/-! # What an audit leaves alone

Writing the stages of a text empties the folder for them, with whatever stands there. Outside of that
folder nothing is lost: folders are made where there was nothing. So a file stays as it is if none of
the folders for stages stands around it, and a file in such a folder may be gone.
-/

namespace SqlLayout

/-! ## Names of stages -/

theorem Route.partsOf_of_no_slash {s : Text} (hs : '/' ∉ s) (hne : s ≠ []) (hdot : s ≠ ['.']) :
    partsOf s = [s] := by
  have hparts : ∀ {t : Text}, '/' ∉ t → t ≠ [] → t.foldr consPart [] = [t] := by
    intro t ht hne
    induction t with
    | nil => exact absurd rfl hne
    | cons c t ih =>
        simp only [List.mem_cons, not_or] at ht
        have hc : c ≠ '/' := fun h => ht.1 h.symm
        cases t with
        | nil => simp [consPart, hc]
        | cons d t => rw [List.foldr_cons, ih ht.2 (by simp), consPart, if_neg hc]
  rw [partsOf, hparts hs hne, List.filter_cons]
  simp [hne, hdot]

namespace CommandLine

namespace Audit

open SqlLayout.Tree

theorem partsOf_stageFile (number : Int) {name : Text} (h : '/' ∉ name) :
    Route.partsOf (stageFile number name) = [stageFile number name] := by
  have hdigits : ∀ n, '/' ∉ Nat.toDigits 10 n := by
    intro n hmem
    exact absurd (Nat.isDigit_of_mem_toDigits (by decide) (by decide) hmem) (by decide)
  refine Route.partsOf_of_no_slash ?_ (by simp [stageFile]) ?_
  · have hsql : '/' ∉ ".sql".toList := by decide
    simp only [stageFile, List.mem_append, List.mem_cons, not_or]
    refine ⟨⟨?_, by decide, h⟩, hsql⟩
    split
    · rename_i hneg
      simp [writeInt, hneg, hdigits]
    · simp only [Text.padLeft, List.mem_append, List.mem_replicate, not_or]
      exact ⟨by simp, hdigits _⟩
  · intro hdot
    have hlen := congrArg List.length hdot
    simp [stageFile] at hlen
    omega

theorem stageFile_ne_dots (number : Int) (name : Text) : stageFile number name ≠ "..".toList := by
  intro h
  have hlen := congrArg List.length h
  simp [stageFile] at hlen
  omega

/-! ## Steps of an audit -/

theorem removeFolder_keepsBut (around : Surroundings) (tree : Tree) (route : Route) :
    KeepsBut (route.absolute around.home) tree (removeFolder around tree route).1 := by
  unfold removeFolder
  split
  · exact .refl _ tree
  · exact .refl _ tree
  · exact .refl _ tree
  · exact .refl _ tree
  · rename_i path hfound
    obtain ⟨rfl, -⟩ := follow_eq hfound
    split
    · exact keepsBut_thin _ _ tree
    · have hclear := keepsBut_clear (route.absolute around.home) tree
      unfold takeAway
      split
      · exact hclear
      · split
        · split <;> exact hclear
        · exact hclear.trans (keepsBut_remove _ _)

theorem makeOne_extends {around : Surroundings} {tree made : Tree} {parent : Route} {name : Text}
    (h : makeOne around tree parent name = .done made) : Extends tree made := by
  unfold makeOne at h
  split at h
  · cases h
  · cases h
  · cases h
  · cases h
  · split at h
    · cases h
    · split at h
      · cases h
        exact .refl tree
      · split at h
        · cases h
        · split at h
          · rename_i hnone
            split at h
            · cases h
            · cases h
              exact extends_put hnone .folder
          · cases h
            exact .refl tree
          · cases h

theorem makeFolders_extends (around : Surroundings) (tree : Tree) (start : Start)
    (reversed : List Text) : Extends tree (makeFolders around tree start reversed).1 := by
  induction reversed with
  | nil => exact .refl tree
  | cons name rest ih =>
      unfold makeFolders
      simp only
      split
      · rename_i hmade
        exact makeOne_extends hmade
      · exact .refl tree
      · split
        · rename_i hrest
          rwa [hrest] at ih
        · rename_i hrest
          rw [hrest] at ih
          split
          · rename_i hmade
            exact ih.trans (makeOne_extends hmade)
          · exact ih
          · exact ih

theorem makeFolder_extends (around : Surroundings) (tree : Tree) (route : Route) :
    Extends tree (makeFolder around tree route).1 := by
  unfold makeFolder
  split
  · exact .refl tree
  · exact makeFolders_extends around tree _ _

theorem putFile_keepsBut (around : Surroundings) (tree : Tree) (shown : Text) {p path : Path}
    (h : p <+: path) (content : Text) : KeepsBut p tree (putFile around tree shown path content).1 := by
  unfold putFile
  split
  · exact .refl p tree
  · exact keepsBut_put h _ tree

theorem writeFile_keepsBut (around : Surroundings) (tree : Tree) (folder : Route) {name : Text}
    (hname : name ≠ "..".toList) (content : Text) :
    KeepsBut (folder.absolute around.home) tree
      (writeFile around tree (folder.below [name]) content).1 := by
  have haround : (folder.below [name]).around = folder := by
    simp [Route.around, Route.below]
  unfold writeFile
  simp only
  split
  · exact .refl _ tree
  · split
    · exact .refl _ tree
    · exact .refl _ tree
    · exact .refl _ tree
    · rename_i path _ hfound
      obtain ⟨rfl, -⟩ := follow_eq hfound
      refine putFile_keepsBut around tree _ ?_ content
      rw [Route.absolute_below _ _ hname]
      exact List.prefix_append _ _
    · split
      · rename_i path hfound
        rw [haround] at hfound
        obtain ⟨rfl, -⟩ := follow_eq hfound
        split
        · exact .refl _ tree
        · exact putFile_keepsBut around tree _ (List.prefix_append _ _) content
      · exact .refl _ tree

theorem takeSteps_keepsBut (around : Surroundings) (route : Route) (number : Int) (s : Session)
    {steps : List StageStep} (h : ∀ step ∈ steps, '/' ∉ step.name) :
    KeepsBut (route.absolute around.home) s.tree
      (takeSteps around route number s steps).session.tree := by
  induction steps generalizing number s with
  | nil => exact .refl _ s.tree
  | cons step rest ih =>
      rw [List.forall_mem_cons] at h
      have hwrite := writeFile_keepsBut around s.tree route (stageFile_ne_dots number step.name) step.content
      rw [← partsOf_stageFile number h.1] at hwrite
      unfold takeSteps
      simp only [writeStage, if_true]
      split
      · rename_i tree fault hstage
        simp only [Prod.mk.injEq] at hstage
        rw [show tree = _ from (congrArg Prod.fst hstage.2).symm]
        exact hwrite
      · rename_i next tree hstage
        simp only [Prod.mk.injEq] at hstage
        refine KeepsBut.trans ?_ (ih next _ h.2)
        rw [show tree = _ from (congrArg Prod.fst hstage.2).symm]
        exact hwrite

theorem layOut_keepsBut (around : Surroundings) (o : Options) (verbose : Bool) (route : Route) (sql : Text)
    (s : Session) : KeepsBut (route.absolute around.home) s.tree
      (layOut around o verbose route sql s).session.tree := by
  have hnames : ∀ step ∈ steps o verbose sql, '/' ∉ step.name := by
    simp only [steps, List.forall_mem_cons]
    decide
  have hremove := removeFolder_keepsBut around s.tree route
  unfold layOut
  split
  · rename_i hremoved
    rwa [hremoved] at hremove
  · rename_i emptied hremoved
    rw [hremoved] at hremove
    have hmake := (makeFolder_extends around emptied route).keepsBut (route.absolute around.home)
    split
    · rename_i hmade
      rw [hmade] at hmake
      exact hremove.trans hmake
    · rename_i made hmade
      rw [hmade] at hmake
      have htake := takeSteps_keepsBut around route 1 (s.withTree made) hnames
      unfold Outcome.andThen
      split <;> exact (hremove.trans hmake).trans htake

end Audit

/-! ## Runs that write stages -/

theorem ok_andThen {α β : Type} (s : Session) (x : α) (next : Session → α → Outcome β) :
    (Outcome.mk s (.ok x)).andThen next = next s x := rfl

theorem tree_andThen {α β : Type} (done : Outcome α) {next : Session → α → Outcome β}
    (h : ∀ s a, (next s a).session.tree = s.tree) :
    (done.andThen next).session.tree = done.session.tree := by
  unfold Outcome.andThen
  split
  · rfl
  · exact h _ _

theorem Session.tree_foldl_sayLine (ls : List Text) (s : Session) :
    (ls.foldl sayLine s).tree = s.tree := by
  induction ls generalizing s with
  | nil => rfl
  | cons l ls ih => rw [List.foldl_cons, ih, tree_sayLine]

theorem Session.tree_checkText (s : Session) (around : Surroundings) (a : Arguments)
    (label sql laidOut : Text) : (s.checkText around a label sql laidOut).session.tree = s.tree := by
  unfold checkText
  refine (tree_andThen _ fun s _ => ?_).trans ?_
  · split
    · exact tree_foldl_sayLine _ _
    · rfl
  · split
    · unfold verify
      split
      · rfl
      · exact tree_foldl_sayLine _ _
    · rfl

section

variable {around : Surroundings} {a : Arguments} {o : Options} {root p q : Path} {s : Session}

/-- The path of the folder for the stages of a file, unless the audit folder is missing. -/
def Arguments.stagesAt? (a : Arguments) (tree : Tree) (home root p : Path) : Option Path :=
  a.auditFolder.map fun given => (Audit.folderFor (.ofText given) tree root p).absolute home

theorem stagesAt?_congr {t t' : Tree} (h : t'.get? root = t.get? root) (home p : Path) :
    a.stagesAt? t' home root p = a.stagesAt? t home root p := by
  simp only [Arguments.stagesAt?, Audit.folderFor, Tree.isFolder, h]
  rfl

theorem processFile_debug (around : Surroundings) (o : Options) (hd : a.debug = true)
    (hq : s.tree.get? q ≠ none)
    (hout : ∀ folder ∈ a.stagesAt? s.tree around.home root p, ¬folder <+: q) :
    (processFile around a o root p s).session.tree.get? q = s.tree.get? q := by
  unfold processFile
  split
  · rfl
  · rfl
  · rfl
  · rename_i sql hread
    cases hfolder : a.auditFolder with
    | none => simp only [auditRoute, hd, hfolder, Outcome.andThen]
    | some given =>
        have haudit : auditRoute a = .ok (some (.ofText given)) := by
          simp only [auditRoute, hd, hfolder]
        have hkept := Audit.layOut_keepsBut around o a.verbose
          (Audit.folderFor (.ofText given) s.tree root p) sql s q hq
          (hout _ (by simp [Arguments.stagesAt?, hfolder]))
        rw [haudit, ok_andThen]
        simp only [Option.map_some, layOutText]
        -- after the stages are written nothing but telling is left
        refine Eq.trans (congrArg (Tree.get? · q) (tree_andThen _ fun s laidOut => ?_)) hkept
        exact (tree_andThen _ fun _ _ => rfl).trans (s.tree_checkText around a p.text sql laidOut)

theorem processFiles_debug (around : Surroundings) (o : Options) (n : Nat) {ps : List Path}
    (hd : a.debug = true) (hq : s.tree.get? q ≠ none) (hroot : s.tree.get? root ≠ none)
    (hbelow : root <+: q)
    (hout : ∀ p ∈ ps, ∀ folder ∈ a.stagesAt? s.tree around.home root p, ¬folder <+: q) :
    (processFiles around a o root n s ps).session.tree.get? q = s.tree.get? q := by
  induction ps generalizing s n with
  | nil => rfl
  | cons p ps ih =>
      have hkept := processFile_debug around o hd hq (hout p (by simp))
      -- the root stays too, so the folders for the files to come are where they were
      have hkeptRoot := processFile_debug around o hd hroot
        fun folder hfolder hpre => hout p (by simp) folder hfolder (hpre.trans hbelow)
      rw [processFiles, Outcome.andThen]
      split
      · exact hkept
      · rename_i changed _
        rw [← hkept]
        refine ih _ (hkept ▸ hq) (hkeptRoot ▸ hroot) fun p' hp' folder hfolder => ?_
        rw [stagesAt?_congr hkeptRoot] at hfolder
        exact hout p' (by simp [hp']) folder hfolder

end

/-! ## Calls -/

theorem mem_sort {p : Path} {ps : List Path} : p ∈ Path.sort ps ↔ p ∈ ps := by
  have hinsert : ∀ (q : Path) (qs : List Path), p ∈ Path.insert q qs ↔ p = q ∨ p ∈ qs := by
    intro q qs
    induction qs with
    | nil => simp [Path.insert]
    | cons r qs ih =>
        rw [Path.insert]
        split
        · rw [List.mem_cons, ih, List.mem_cons]
          exact or_left_comm
        · rw [List.mem_cons]
  induction ps with
  | nil => exact Iff.rfl
  | cons q qs ih => exact (hinsert q _).trans ((or_congr_right ih).trans List.mem_cons.symm)

theorem mem_collect {access : Access} {t : Tree} {root q : Path} {ps : List Path}
    (h : collect access t root = .ok ps) (hq : q ∈ ps) : t.get? q ≠ none ∧ root <+: q := by
  unfold collect at h
  split at h
  · cases hfound : t.search access root with
    | error fault => simp [hfound, Except.map] at h
    | ok found =>
        rw [hfound] at h
        obtain rfl := Except.ok.inj h
        obtain ⟨hmem, -⟩ := List.mem_filter.mp (mem_sort.mp hq)
        obtain ⟨hkey, hpre⟩ := List.mem_filter.mp (Tree.mem_search hfound hmem)
        rw [Bool.and_eq_true, List.isPrefixOf_iff_prefix] at hpre
        exact ⟨Tree.get?_ne_none hkey, hpre.1⟩
  · rename_i bytes hroot
    obtain rfl := Except.ok.inj h
    split at hq
    · obtain rfl := List.mem_singleton.mp hq
      exact ⟨by simp [hroot], List.prefix_refl q⟩
    · simp at hq
  · obtain rfl := Except.ok.inj h
    simp at hq

theorem get?_root_of_mem_collect {access : Access} {t : Tree} {root q : Path} {ps : List Path}
    (h : collect access t root = .ok ps) (hq : q ∈ ps) : t.get? root ≠ none := by
  intro hroot
  simp only [collect, hroot, Except.ok.injEq] at h
  subst h
  simp at hq

theorem processBelow_debug {around : Surroundings} {a : Arguments} {o : Options} {root q : Path}
    {ps : List Path} {s : Session} (hd : a.debug = true)
    (hps : collect around.toAccess s.tree root = .ok ps) (hq : q ∈ ps)
    (hout : ∀ p ∈ ps, ∀ folder ∈ a.stagesAt? s.tree around.home root p, ¬folder <+: q) :
    (processBelow around a o root s).session.tree.get? q = s.tree.get? q := by
  obtain ⟨hstands, hbelow⟩ := mem_collect hps hq
  unfold processBelow
  rw [hps]
  split
  · rfl
  · rfl
  · rename_i heq
    obtain rfl := Except.ok.inj heq
    refine Eq.trans (congrArg (Tree.get? · q) (tree_andThen _ fun s count => ?_))
      (processFiles_debug around o 0 hd hstands (get?_root_of_mem_collect hps hq) hbelow hout)
    split <;> rfl

/-- A call that writes stages keeps a file that the path names, unless it stands in the folder for the
    stages of such a file. That holds however the call ends. -/
theorem call_debug {around : Surroundings} {texts : List Text} {tree : Tree} {a : Arguments}
    {ps : List Path} (ha : readArguments texts = .ok (.work a)) (hd : a.debug = true)
    (hnamed : a.path ≠ ['-']) :
    let root := (Route.ofText a.path).absolute around.home
    collect around.toAccess tree root = .ok ps → ∀ q ∈ ps,
      (∀ p ∈ ps, ∀ folder ∈ a.stagesAt? tree around.home root p, ¬folder <+: q) →
      (call around texts tree).session.tree.get? q = tree.get? q := by
  intro root hps q hq hout
  have hpath : ∀ (o : Options) (s : Session), s.tree = tree →
      (processPath around a o s).session.tree.get? q = tree.get? q := by
    rintro o s rfl
    unfold processPath
    simp only
    split
    · rfl
    · split
      · rfl
      · rfl
      · rfl
      · exact processBelow_debug hd hps hq hout
  simp only [call, ha]
  unfold work
  split
  · rfl
  · rfl
  · rename_i o _
    simp only [if_neg hnamed]
    refine hpath o _ ?_
    split <;> rfl

/-- Two files of which one has the name of the folder around the other. -/
def namesakes : Tree :=
  [(["q".toList], .folder), (["q".toList, "r".toList], .folder),
    (["q".toList, "r.sql".toList], .file (Utf8.encode "select 1".toList)),
    (["q".toList, "r".toList, "p.sql".toList], .file (Utf8.encode "select 2".toList))]

/-- With the stages put among the files, the one of the two that stands around no stages is kept. The
    other one is gone. -/
theorem call_debug_namesakes :
    let texts := ["q".toList, "--debug".toList, "--audit-folder".toList, "q".toList]
    let left := (call { home := [] } texts namesakes).session.tree
    left.get? ["q".toList, "r.sql".toList] = namesakes.get? ["q".toList, "r.sql".toList] ∧
      left.get? ["q".toList, "r".toList, "p.sql".toList] = none := by
  intro texts left
  have hkept := @call_debug { home := [] } texts namesakes _ _ rfl rfl (by decide) rfl
    ["q".toList, "r.sql".toList] (by decide) (by decide)
  exact ⟨hkept, by decide⟩

/-- A file is gone that stood in the folder for its own stages. -/
theorem call_debug_own_folder :
    let texts := ["q/q.sql".toList, "--debug".toList, "--audit-folder".toList, ".".toList]
    let p : Path := ["q".toList, "q.sql".toList]
    let tree : Tree := [(["q".toList], .folder), (p, .file (Utf8.encode "select 1".toList))]
    collect {} tree p = .ok [p] ∧ (call { home := [] } texts tree).code.toOption = some exitOk ∧
      (call { home := [] } texts tree).session.tree.get? p ≠ tree.get? p := by
  intro texts p tree
  exact ⟨rfl, by decide, by decide⟩

end CommandLine

end SqlLayout
