import SqlLayout.Proofs.Settling

/-! # Calls are closed before the last pass

The last pass of the first stage drops blanks between a word and an opening parenthesis. It is the
identity on texts without such blanks, and the passes before it leave none.
-/

namespace SqlLayout

namespace Spacing

/-- No blanks stand between a word and an opening parenthesis. -/
def CallsClosed (s : Text) : Prop :=
  ∀ (c : Char) (g : Text), c :: (g ++ ['(']) <:+: s → isWord c = true → g.isAllBlank = true → g = []

theorem closeCalls_sublist (s : Text) : (closeCalls s).Sublist s := by
  induction s with
  | nil => exact .slnil
  | cons c s ih =>
      rw [Gaps.closeCalls_cons]
      split
      · exact ((List.dropWhile_sublist _).trans ih).cons_cons c
      · exact ih.cons_cons c

/-- A text does not begin with blanks before a parenthesis if nothing is dropped to come to one. -/
theorem dropWhile_isBlank_eq_self_iff (s : Text) :
    ((s.dropWhile isBlank).head? = some '(' → s.dropWhile isBlank = s) ↔
      ∀ g : Text, g ++ ['('] <+: s → g.isAllBlank = true → g = [] := by
  constructor
  · rintro h g ⟨t, rfl⟩ hg
    rw [List.append_assoc, Text.dropWhile_isBlank_append hg] at h
    exact List.self_eq_append_left.mp (h rfl)
  · intro h hhead
    obtain ⟨t, ht⟩ := List.head?_eq_some_iff.mp hhead
    have hs : s.takeWhile isBlank ++ ['('] ++ t = s := by
      rw [List.append_assoc, List.singleton_append, ← ht, List.takeWhile_append_dropWhile]
    rw [h _ ⟨t, hs⟩ List.all_takeWhile] at hs
    rw [ht]
    exact hs

theorem callsClosed_cons_iff {c : Char} {s : Text} :
    CallsClosed (c :: s) ↔
      (isWord c = true → (s.dropWhile isBlank).head? = some '(' → s.dropWhile isBlank = s) ∧
        CallsClosed s := by
  rw [dropWhile_isBlank_eq_self_iff]
  constructor
  · intro h
    refine ⟨fun hc g hg => h c g ?_ hc, fun d g hg => h d g (List.infix_cons hg)⟩
    exact ((List.prefix_cons_inj c).mpr hg).isInfix
  · rintro ⟨hfirst, hrest⟩ d g hg hd
    rcases List.infix_cons_iff.mp hg with hg | hg
    · obtain ⟨rfl, htail⟩ := List.cons_prefix_cons.mp hg
      exact hfirst hd g htail
    · exact hrest d g hg hd

/-- The last pass changes a text just if blanks stand between a word and an opening parenthesis. -/
theorem closeCalls_eq_self_iff {s : Text} : closeCalls s = s ↔ CallsClosed s := by
  induction s with
  | nil => simp [CallsClosed, closeCalls]
  | cons c s ih =>
      rw [callsClosed_cons_iff, ← ih, Gaps.closeCalls_cons]
      constructor
      · intro h
        -- the rest keeps its length, so nothing was dropped in it either
        have hs : closeCalls s = s := by
          split at h
          · injection h with _ h
            have hle : s.length ≤ (closeCalls s).length :=
              calc s.length = ((closeCalls s).dropWhile isBlank).length := by rw [h]
                _ ≤ (closeCalls s).length := (List.dropWhile_sublist _).length_le
            exact (closeCalls_sublist s).eq_of_length_le hle
          · injection h
        rw [hs] at h
        refine ⟨fun hc hhead => ?_, hs⟩
        rw [if_pos (by simp [hc, hhead])] at h
        injection h
      · rintro ⟨hfirst, hs⟩
        rw [hs]
        split
        · next h =>
            simp only [Bool.and_eq_true, beq_iff_eq] at h
            rw [hfirst h.1 h.2]
        · rfl

/-- The passes before the last one leave no blanks between a word and an opening parenthesis, so that
    the last one has nothing to do and the stage ends where they do. -/
theorem closeCalls_idle (setting : Setting) (s : Text) :
    let spaced := beforeCalls (.ofSetting setting) s
    closeCalls spaced = spaced ∧ CallsClosed spaced ∧ normalize (.ofSetting setting) s = spaced := by
  intro spaced
  have hidle : closeCalls spaced = spaced := Gaps.closeCalls_beforeCalls _ s
  exact ⟨hidle, closeCalls_eq_self_iff.mp hidle, hidle⟩

end Spacing

end SqlLayout
