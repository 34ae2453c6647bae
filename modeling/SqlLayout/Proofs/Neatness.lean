import SqlLayout.Proofs.Flowing

/-! # Neat lines

After the first stage no gap is longer than a space, and no later stage makes one longer. So a line
starts and ends in a character that shows and has nothing but single spaces in between.
-/

namespace SqlLayout

/-- A line that is not empty, has no blanks at its ends, and inside only single spaces. -/
structure Neat (l : Text) : Prop where
  nonempty : l ≠ []
  first : ∀ c ∈ l.head?, isBlank c = false
  last : ∀ c ∈ l.getLast?, isBlank c = false
  spaces : ∀ c ∈ l, isBlank c = true → c = ' '
  single : l.IsChain fun c d => ¬(c = ' ' ∧ d = ' ')

theorem Neat.not_mem_lineFeed {l : Text} (h : Neat l) : '\n' ∉ l := by
  intro hmem
  exact absurd (h.spaces _ hmem rfl) (by decide)

namespace Spot

/-- The gap is a space or nothing. -/
def Snug (a : Spot) : Prop :=
  a.gap = [] ∨ a.gap = [' ']

theorem isBlank_of_mem_snug {a : Spot} (h : a.Snug) {c : Char} (hc : c ∈ a.gap) : c = ' ' := by
  rcases h with h | h <;> simp_all

/-- Spots without long gaps are written with single spaces. -/
theorem isChain_write {as : List Spot} (h : ∀ a ∈ as, a.Solid) (hs : ∀ a ∈ as, a.Snug) :
    (write as).IsChain fun c d => ¬(c = ' ' ∧ d = ' ') := by
  have hshown : ∀ {t u : Text}, (∀ c ∈ t, c ≠ ' ') → u.IsChain (fun c d => ¬(c = ' ' ∧ d = ' ')) →
      (t ++ u).IsChain fun c d => ¬(c = ' ' ∧ d = ' ') := by
    intro t u ht hu
    induction t with
    | nil => exact hu
    | cons c t ih =>
        exact List.isChain_cons.mpr ⟨fun d _ hcd => ht c (by simp) hcd.1,
          ih fun d hd => ht d (by simp [hd])⟩
  induction as with
  | nil => exact .nil
  | cons a as ih =>
      have hsolid := h a (by simp)
      have hpiece : ∀ c ∈ a.piece.text, c ≠ ' ' := by
        rintro c hc rfl
        exact absurd (isBlank_of_mem_text hsolid hc) (by decide)
      have hrest := hshown hpiece (ih (fun b hb => h b (by simp [hb])) fun b hb => hs b (by simp [hb]))
      rw [write_cons, text, List.append_assoc]
      rcases hs a (by simp) with hg | hg
      · rwa [hg]
      · rw [hg, List.singleton_append]
        refine List.isChain_cons.mpr ⟨fun d hd hcd => ?_, hrest⟩
        obtain ⟨c, cs, hc⟩ := List.exists_cons_of_ne_nil (text_ne_nil hsolid)
        rw [hc, List.cons_append, List.head?_cons, Option.mem_def, Option.some.injEq] at hd
        exact hpiece c (by simp [hc]) (hd.trans hcd.2)

/-- Spots without long gaps, and without a gap before the first, are a neat line. -/
theorem neat_write {a : Spot} {as : List Spot} (h : ∀ b ∈ a :: as, b.Solid)
    (hs : ∀ b ∈ a :: as, b.Snug) (hgap : a.gap = []) : Neat (write (a :: as)) where
  nonempty := write_ne_nil (by simp) h
  first := by
    intro c hc
    obtain ⟨d, ds, hd⟩ := List.exists_cons_of_ne_nil (text_ne_nil (h a (by simp)))
    simp only [write_cons, text, hgap, hd, List.cons_append, List.nil_append, List.head?_cons,
      Option.mem_def, Option.some.injEq] at hc
    exact hc ▸ isBlank_of_mem_text (h a (by simp)) (by simp [hd])
  last := by
    intro c hc
    have hlast := List.dropLast_append_getLast (List.cons_ne_nil a as)
    have hmem := List.getLast_mem (List.cons_ne_nil a as)
    generalize (a :: as).getLast (List.cons_ne_nil a as) = b at hlast hmem
    have hne := text_ne_nil (h b hmem)
    rw [← hlast, write_append, write_cons, write_nil, text, List.append_nil, ← List.append_assoc,
      List.getLast?_append_of_ne_nil _ hne, List.getLast?_eq_some_getLast hne, Option.mem_def,
      Option.some.injEq] at hc
    exact hc ▸ isBlank_of_mem_text (h b hmem) (List.getLast_mem hne)
  spaces := by
    intro c hc hblank
    obtain ⟨b, hb, hc⟩ := List.mem_flatMap.mp hc
    rcases List.mem_append.mp hc with hc | hc
    · exact isBlank_of_mem_snug (hs b hb) hc
    · simp [isBlank_of_mem_text (h b hb) hc] at hblank
  single := isChain_write h hs

/-! ## Gaps stay short -/

theorem snug_settle (commas : CommaStyle) (as : List Spot) : ∀ b ∈ settle commas as, b.Snug := by
  suffices h : ∀ x, ∀ b ∈ regap (.settled commas) x as, b.Snug from h none
  intro x
  induction as generalizing x with
  | nil => simp [regap]
  | cons a as ih =>
      intro b hb
      rcases List.mem_cons.mp hb with rfl | hb
      · simp only [Snug, Gaps.Rule.settled]
        split <;> simp
      · exact ih _ b hb

theorem snug_recaseWith (m : LetterCase) {es : List Edges} {as : List Spot}
    (h : ∀ a ∈ as, a.Snug) : ∀ b ∈ recaseWith m es as, b.Snug := by
  induction as generalizing es with
  | nil => cases es <;> simp [recaseWith]
  | cons a as ih =>
      cases es with
      | nil => simp [recaseWith]
      | cons e es =>
          intro b hb
          rcases List.mem_append.mp hb with hb | hb
          · have hone := h a (by simp)
            have hself : ∀ c : Spot, c ∈ [a] → c.Snug := by simpa using hone
            unfold recaseAt at hb
            split at hb
            · split at hb
              · unfold respell at hb
                split at hb
                · simp at hb
                · rcases List.mem_cons.mp hb with rfl | hb
                  · exact hone
                  · obtain ⟨p, -, rfl⟩ := List.mem_map.mp hb
                    exact Or.inl rfl
              · exact hself b hb
            · exact hself b hb
          · exact ih (fun c hc => h c (by simp [hc])) b hb

theorem snug_tidy (style : Style) (as : List Spot) : ∀ b ∈ tidy style as, b.Snug :=
  snug_recaseWith _ (snug_settle _ as)

theorem snug_led {g : Text} (hg : g = [] ∨ g = [' ']) {as : List Spot} (h : ∀ a ∈ as, a.Snug) :
    ∀ b ∈ led g as, b.Snug := by
  cases as with
  | nil => simp
  | cons a as =>
      intro b hb
      rcases List.mem_cons.mp hb with rfl | hb
      · exact hg
      · exact h b (by simp [hb])

theorem snug_cut (es : List Edges) {as : List Spot} (h : ∀ a ∈ as, a.Snug) :
    (∀ b ∈ (cut es as).1, b.Snug) ∧ ∀ l ∈ (cut es as).2, ∀ b ∈ l, b.Snug := by
  induction as generalizing es with
  | nil => cases es <;> simp [cut]
  | cons a as ih =>
      cases es with
      | nil => simp [cut]
      | cons e es =>
          obtain ⟨hlead, hsections⟩ := ih es fun b hb => h b (by simp [hb])
          have hline : ∀ b ∈ a :: (if e.closes then led [' '] (cut es as).1 else (cut es as).1),
              b.Snug := by
            intro b hb
            rcases List.mem_cons.mp hb with rfl | hb
            · exact h b (by simp)
            · split at hb
              · exact snug_led (Or.inr rfl) hlead b hb
              · exact hlead b hb
          simp only [cut]
          split
          · refine ⟨by simp, fun l hl => ?_⟩
            rcases List.mem_cons.mp hl with rfl | hl
            · exact hline
            · exact hsections l hl
          · exact ⟨hline, hsections⟩

theorem snug_of_mem_lines {es : List Edges} {as l : List Spot} (h : ∀ a ∈ as, a.Snug)
    (hl : l ∈ lines es as) : ∀ b ∈ l, b.Snug := by
  obtain ⟨hlead, hsections⟩ := snug_cut es h
  unfold lines at hl
  split at hl
  · exact hsections l hl
  · rcases List.mem_cons.mp hl with rfl | hl
    · exact hlead
    · exact hsections l hl

end Spot

end SqlLayout
