import SqlLayout.CommandLine.Run

/-! # Refilling files

A run in place writes only to files that are there, so that all files and folders stay where they
are. What a route leads to then depends on the contents of a file only if it leads to that file.
-/

namespace SqlLayout

namespace Tree

/-! ## Putting and getting -/

@[simp] theorem get?_nil (t : Tree) : t.get? [] = some .folder := rfl

theorem get?_of_ne_nil {p : Path} (hp : p ≠ []) (t : Tree) : t.get? p = t.lookup p := by
  rw [get?, if_neg (by simpa using hp)]

theorem ne_nil_of_file {t : Tree} {p : Path} {bytes : Bytes} (h : t.get? p = some (.file bytes)) :
    p ≠ [] := by
  rintro rfl
  exact absurd h (by simp)

theorem get?_cons {p : Path} (hp : p ≠ []) (e : Path × Node) (t : Tree) :
    get? (e :: t) p = if p = e.1 then some e.2 else t.get? p := by
  obtain ⟨q, node⟩ := e
  rw [get?_of_ne_nil hp, get?_of_ne_nil hp, List.lookup_cons]
  by_cases h : p = q
  · rw [if_pos h, beq_iff_eq.mpr h]
  · rw [if_neg h, beq_eq_false_iff_ne.mpr h]

theorem get?_put_self {p : Path} (hp : p ≠ []) (node : Node) (t : Tree) :
    (t.put p node).get? p = some node := by
  induction t with
  | nil => simp [put, get?_cons hp]
  | cons e t ih =>
      rw [put]
      split
      · rename_i he
        simp [get?_cons hp, he]
      · rename_i he
        rw [get?_cons hp, if_neg (fun h => he h.symm), ih]

theorem get?_put_of_ne {p q : Path} (h : q ≠ p) (node : Node) (t : Tree) :
    (t.put p node).get? q = t.get? q := by
  by_cases hq : q = []
  · rw [hq, get?_nil, get?_nil]
  · induction t with
    | nil => simp [put, get?_cons hq, h]
    | cons e t ih =>
        rw [put]
        split
        · rename_i he
          rw [get?_cons hq, get?_cons hq, he, if_neg h]
          exact (if_neg h).symm
        · rw [get?_cons hq, get?_cons hq, ih]

theorem keys_put {p : Path} {t : Tree} (hp : p ≠ []) (h : t.get? p ≠ none) (node : Node) :
    (t.put p node).map (·.1) = t.map (·.1) := by
  induction t with
  | nil => exact absurd rfl (get?_of_ne_nil hp [] ▸ h)
  | cons e t ih =>
      rw [put]
      split
      · rfl
      · rename_i he
        rw [get?_cons hp, if_neg (fun h => he h.symm)] at h
        rw [List.map_cons, List.map_cons, ih h]

/-! ## Refilled trees -/

/-- A tree in which some files got other contents, all of them at the given paths. -/
structure Refilled (ps : List Path) (t t' : Tree) : Prop where
  keys : t'.map (·.1) = t.map (·.1)
  node : ∀ q, t'.get? q = t.get? q ∨
    q ∈ ps ∧ ∃ old new, t.get? q = some (.file old) ∧ t'.get? q = some (.file new)

namespace Refilled

variable {ps : List Path} {t t' : Tree}

/-- What is found on a walk is the same, or is a file with other contents. -/
theorem walk (h : Refilled ps t t') (access : Access) (here : Path) (parts : List Text) :
    t'.walk access here parts = t.walk access here parts ∨
      ∃ q ∈ ps, ∃ old new, t.walk access here parts = .node q (.file old) ∧
        t'.walk access here parts = .node q (.file new) := by
  induction parts generalizing here with
  | nil =>
      rcases h.node here with hq | ⟨hmem, old, new, hold, hnew⟩
      · exact .inl (by simp only [Tree.walk, hq])
      · exact .inr ⟨here, hmem, old, new, by simp only [Tree.walk, hold], by simp only [Tree.walk, hnew]⟩
  | cons part rest ih =>
      rcases h.node here with hq | ⟨hmem, old, new, hold, hnew⟩
      · simp only [Tree.walk, hq]
        cases t.get? here with
        | none => exact .inl rfl
        | some node =>
            cases node with
            | file bytes => exact .inl rfl
            | folder =>
                simp only
                split
                · exact .inl rfl
                · split
                  · exact ih _
                  · split
                    · exact .inl rfl
                    · exact ih _
      · exact .inl (by simp only [Tree.walk, hold, hnew])

theorem follow (h : Refilled ps t t') (access : Access) (home : Path) (r : Route) :
    t'.follow access home r = t.follow access home r ∨
      ∃ q ∈ ps, ∃ old new, t.follow access home r = .node q (.file old) ∧
        t'.follow access home r = .node q (.file new) := by
  unfold Tree.follow
  split
  · exact .inl rfl
  · split
    · exact .inl rfl
    · exact h.walk access _ _

/-- Whatever cannot be looked at stays so, for the same reason. -/
theorem hides? (h : Refilled ps t t') (access : Access) : t'.hides? access = t.hides? access := by
  funext p
  rcases h.follow access [] ⟨.root, p⟩ with heq | ⟨q, -, old, new, hold, hnew⟩
  · simp only [Tree.hides?, look, heq]
  · simp only [Tree.hides?, look, hold, hnew]

theorem below (h : Refilled ps t t') (p : Path) : t'.below p = t.below p := by
  rw [Tree.below, Tree.below, h.keys]

theorem isFolder (h : Refilled ps t t') : t'.isFolder = t.isFolder := by
  funext p
  rcases h.node p with heq | ⟨-, old, new, hold, hnew⟩
  · rw [Tree.isFolder, Tree.isFolder, heq]
  · rw [Tree.isFolder, Tree.isFolder, hold, hnew]
    rfl

theorem search (h : Refilled ps t t') (access : Access) (root : Path) :
    t'.search access root = t.search access root := by
  simp only [Tree.search, h.below, h.isFolder]

end Refilled

end Tree

/-- A config file that was not refilled is found as before. -/
theorem Config.Source.find_refilled {ps : List Path} {t t' : Tree} (h : Tree.Refilled ps t t')
    {access : Access} {home : Path} {r : Route}
    (hr : ∀ p bytes, t.follow access home r = .node p (.file bytes) → p ∉ ps) :
    Config.Source.find t' home r access = Config.Source.find t home r access := by
  rcases h.follow access home r with heq | ⟨q, hmem, old, new, hold, -⟩
  · simp only [Config.Source.find, heq]
  · exact absurd hmem (hr q old hold)

namespace CommandLine

/-- The files that a path names stay the same. -/
theorem collect_refilled {ps : List Path} {t t' : Tree} (h : Tree.Refilled ps t t') (access : Access)
    (p : Path) : collect access t' p = collect access t p := by
  rcases h.node p with heq | ⟨-, old, new, hold, hnew⟩
  · simp only [collect, heq, h.search]
  · simp only [collect, hold, hnew]

end CommandLine

end SqlLayout
