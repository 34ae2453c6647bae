import SqlLayout.Proofs.Refilling

/-! # What stays in a tree

Clearing and removing take away what is below a path and nothing else, and a walk through the tree
ends where the text of its route says. So a step that works below a path leaves alone all that is
there and is not below it.
-/

namespace SqlLayout

namespace Tree

/-! ## Clearing and removing -/

theorem get?_filter {q : Path} (hq : q ≠ []) (kept : Path → Bool) (t : Tree) :
    get? (t.filter fun e => kept e.1) q = if kept q then t.get? q else none := by
  induction t with
  | nil => cases kept q <;> simp [get?_of_ne_nil hq]
  | cons e t ih =>
      rw [get?_cons hq, List.filter_cons]
      by_cases he : q = e.1
      · rw [if_pos he, he]
        cases hk : kept e.1 with
        | true => rw [if_pos rfl, get?_cons (he ▸ hq), if_pos rfl, if_pos rfl]
        | false =>
            rw [← he] at hk ⊢
            simp only [Bool.false_eq_true, if_false, ih, hk]
      · rw [if_neg he]
        split
        · rw [get?_cons hq, if_neg he, ih]
        · exact ih

/-- A folder that is cleared stays, and nothing stays in it. -/
theorem get?_clear (t : Tree) (p q : Path) :
    (t.clear p).get? q = if p <+: q ∧ q ≠ p then none else t.get? q := by
  by_cases hq : q = []
  · have hout : ¬(p <+: q ∧ q ≠ p) := by
      rintro ⟨hpre, hne⟩
      exact hne (hq.trans (List.prefix_nil.mp (hq ▸ hpre)).symm)
    rw [if_neg hout, hq, get?_nil, get?_nil]
  · have hkept : (!(p.isPrefixOf q && q != p)) = true ↔ ¬(p <+: q ∧ q ≠ p) := by
      rw [Bool.not_eq_true', Bool.eq_false_iff, ne_eq, Bool.and_eq_true, List.isPrefixOf_iff_prefix,
        bne_iff_ne]
    rw [clear, get?_filter hq fun q => !(p.isPrefixOf q && q != p)]
    simp only [hkept, ite_not]

theorem get?_remove {p q : Path} (hq : q ≠ []) (t : Tree) :
    (t.remove p).get? q = if p <+: q then none else t.get? q := by
  have hkept : (!p.isPrefixOf q) = true ↔ ¬p <+: q := by
    rw [Bool.not_eq_true', Bool.eq_false_iff, ne_eq, List.isPrefixOf_iff_prefix]
  rw [remove, get?_filter hq fun q => !p.isPrefixOf q]
  simp only [hkept, ite_not]

theorem get?_ne_none {q : Path} {t : Tree} (hq : q ∈ t.map (·.1)) : t.get? q ≠ none := by
  by_cases hnil : q = []
  · simp [hnil]
  · induction t with
    | nil => simp at hq
    | cons e t ih =>
        rw [get?_cons hnil]
        split
        · simp
        · rename_i hne
          exact ih ((List.mem_cons.mp hq).resolve_left hne)

/-! ## Walks and searches -/

/-- A walk ends where two dots take back the part before them. -/
theorem walk_eq {access : Access} {t : Tree} {here p : Path} {parts : List Text} {node : Node}
    (h : t.walk access here parts = .node p node) :
    p = parts.foldl (fun p part => if part = "..".toList then p.dropLast else p ++ [part]) here ∧
      t.get? p = some node := by
  induction parts generalizing here with
  | nil =>
      unfold walk at h
      split at h
      · rename_i found hfound
        cases h
        exact ⟨rfl, hfound⟩
      · cases h
  | cons part rest ih =>
      unfold walk at h
      split at h
      · cases h
      · cases h
      · rw [List.foldl_cons]
        split at h
        · cases h
        · split at h
          · rename_i hpart
            rw [if_pos hpart]
            exact ih h
          · rename_i hpart
            rw [if_neg hpart]
            split at h
            · cases h
            · exact ih h

theorem follow_eq {access : Access} {t : Tree} {home p : Path} {r : Route} {node : Node}
    (h : t.follow access home r = .node p node) : p = r.absolute home ∧ t.get? p = some node := by
  unfold follow at h
  split at h
  · cases h
  · split at h
    · cases h
    · exact walk_eq h

theorem mem_search {access : Access} {t : Tree} {root q : Path} {found : List Path}
    (h : t.search access root = .ok found) (hq : q ∈ found) : q ∈ t.below root := by
  unfold search at h
  simp only at h
  split at h
  · cases h
  · obtain rfl := Except.ok.inj h
    exact (List.mem_filter.mp hq).1

/-! ## Frames -/

/-- All that is there stays, but for a path and what is below it. -/
def KeepsBut (p : Path) (t t' : Tree) : Prop :=
  ∀ q, t.get? q ≠ none → ¬p <+: q → t'.get? q = t.get? q

/-- All that is there stays. -/
def Extends (t t' : Tree) : Prop :=
  ∀ q, t.get? q ≠ none → t'.get? q = t.get? q

section

variable {p : Path} {t t' u : Tree}

theorem KeepsBut.refl (p : Path) (t : Tree) : KeepsBut p t t :=
  fun _ _ _ => rfl

theorem KeepsBut.trans (h : KeepsBut p t t') (h' : KeepsBut p t' u) : KeepsBut p t u := by
  intro q hq hout
  have hsame := h q hq hout
  rw [h' q (hsame ▸ hq) hout, hsame]

theorem keepsBut_put {q : Path} (h : p <+: q) (node : Node) (t : Tree) : KeepsBut p t (t.put q node) := by
  intro r _ hout
  refine get?_put_of_ne ?_ node t
  rintro rfl
  exact hout h

theorem keepsBut_clear (p : Path) (t : Tree) : KeepsBut p t (t.clear p) := by
  intro q _ hout
  rw [get?_clear, if_neg fun h => hout h.1]

theorem keepsBut_thin (p : Path) (gone : List Path) (t : Tree) : KeepsBut p t (t.thin p gone) := by
  intro q _ hout
  by_cases hq : q = []
  · rw [hq, get?_nil, get?_nil]
  · have hkept : (!(p.isPrefixOf q && q != p && gone.contains q)) = true := by
      rw [Bool.eq_false_iff.mpr fun h => hout (List.isPrefixOf_iff_prefix.mp h)]
      rfl
    rw [thin, get?_filter hq fun q => !(p.isPrefixOf q && q != p && gone.contains q), if_pos hkept]

theorem keepsBut_remove (p : Path) (t : Tree) : KeepsBut p t (t.remove p) := by
  intro q _ hout
  by_cases hq : q = []
  · rw [hq, get?_nil, get?_nil]
  · rw [get?_remove hq, if_neg hout]

theorem Extends.refl (t : Tree) : Extends t t :=
  fun _ _ => rfl

theorem Extends.trans (h : Extends t t') (h' : Extends t' u) : Extends t u := by
  intro q hq
  have hsame := h q hq
  rw [h' q (hsame ▸ hq), hsame]

theorem Extends.keepsBut (h : Extends t t') (p : Path) : KeepsBut p t t' :=
  fun q hq _ => h q hq

theorem extends_put (h : t.get? p = none) (node : Node) : Extends t (t.put p node) := by
  intro q hq
  refine get?_put_of_ne ?_ node t
  rintro rfl
  exact hq h

end

end Tree

theorem Route.absolute_below (home : Path) (r : Route) {name : Text} (hname : name ≠ "..".toList) :
    (r.below [name]).absolute home = r.absolute home ++ [name] := by
  simp only [absolute, below, List.foldl_append, List.foldl_cons, List.foldl_nil, if_neg hname]
  rfl

end SqlLayout
