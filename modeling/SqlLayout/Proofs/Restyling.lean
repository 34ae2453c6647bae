import SqlLayout.Proofs.Lookalikes

/-! # Laying out in another style

A text that was laid out in some style, and is laid out again in a style that puts keywords in
capitals or in small letters, does not show the first style any more. This fails for lookalikes: in
capitals the dotless i becomes a letter whose small form has a dot.
-/

namespace SqlLayout

namespace Spot

theorem Clear.familiar_write {as : List Spot} (h : Clear as) : Text.Familiar (write as) := by
  have hblank : ∀ c ∈ lookalikes, isBlank c = false := by decide
  intro c hc hlook
  obtain ⟨a, ha, hmem⟩ := List.mem_flatMap.mp hc
  rcases List.mem_append.mp hmem with hgap | hpiece
  · have := List.all_eq_true.mp (h.solid a ha).1 c hgap
    rw [hblank c hlook] at this
    cases this
  · exact h.familiar a ha c hpiece hlook

/-- Laying out clear spots in a style that changes keywords forgets an earlier style. -/
theorem layOut_layOut_of_clear {m : LetterCase} (hm : m ≠ .preserve) (m' : LetterCase)
    (commas commas' : CommaStyle) {as : List Spot} (h : Clear as) :
    layOut ⟨m, commas⟩ (layOut ⟨m', commas'⟩ as) = layOut ⟨m, commas⟩ as := by
  have hlined := h.lined m' commas'
  calc layOut ⟨m, commas⟩ (layOut ⟨m', commas'⟩ as)
      = cased m (lined m commas (cased m' (lined m' commas' as))) := by
        rw [layOut_eq m commas (h.layOut _), layOut_eq m' commas' h]
    _ = cased m (cased m' (lined m commas (lined m' commas' as))) := by
        rw [lined_cased m' m commas hlined]
    _ = cased m (lined m commas (lined m' commas' as)) :=
        cased_cased m (hlined.lined m commas) m' hm
    _ = cased m (lined m commas as) := by rw [lined_lined m m' commas commas' h]
    _ = layOut ⟨m, commas⟩ as := (layOut_eq m commas h).symm

end Spot

/-! ## Texts -/

/-- Laying out puts no lookalike into a text. -/
theorem familiar_format (o : Options) {s : Text} (hs : s.Familiar) : (format o s).Familiar := by
  rw [format, Spot.layOut_read]
  exact ((Spot.clear_read hs).layOut o.style).familiar_write

/-- Options that change keywords hide the options that were used before. -/
theorem format_forgets {o : Options} (ho : LetterCase.ofSetting o.keywordCase ≠ .preserve)
    (o₁ : Options) {s : Text} (hs : s.Familiar) : format o (format o₁ s) = format o s := by
  have hclear := Spot.clear_read hs
  rw [format, format, format, Spot.layOut_read o₁.style s, Spot.layOut_read o.style s,
    Spot.layOut_written _ (hclear.layOut _).toSound]
  exact congrArg Spot.write (Spot.layOut_layOut_of_clear ho _ _ _ hclear)

/-- What comes out of formatting a text again and again shows the text and the last options only, if
    these change keywords and the text has no lookalikes. -/
theorem format_restyled {s : Text} (hs : s.Familiar) {o : Options}
    (ho : o.keywordCase ≠ .text "preserve".toList) :
    (∀ o₁, format o (format o₁ s) = format o s) ∧
      ∀ chain : List Options, format o (chain.foldl (fun t o' => format o' t) s) = format o s := by
  have hcase := mt LetterCase.ofSetting_eq_preserve.mp ho
  refine ⟨fun o₁ => format_forgets hcase o₁ hs, fun chain => ?_⟩
  induction chain generalizing s with
  | nil => rfl
  | cons o₁ chain ih =>
      rw [List.foldl_cons, ih (familiar_format o₁ hs)]
      exact format_forgets hcase o₁ hs

/-- After small letters and commas that lead, capitals. -/
theorem format_restyled_join :
    let s : Text := "select a ,b from t join u On x = 1".toList
    let small : Options := ⟨.text "lower".toList, .absent, .absent, .absent, .text "before".toList⟩
    Text.Familiar s ∧ Options.keywordCase {} ≠ .text "preserve".toList ∧
      format {} (format small s) = format {} s ∧
      format {} ([small, {}, small].foldl (fun t o => format o t) s) = format {} s := by
  intro s small
  have hs : Text.Familiar s := by
    unfold Text.Familiar
    decide
  have ho : Options.keywordCase {} ≠ .text "preserve".toList :=
    fun h => absurd (LetterCase.ofSetting_eq_preserve.mpr h) (by decide)
  obtain ⟨htwice, hchain⟩ := format_restyled hs ho
  exact ⟨hs, ho, htwice small, hchain _⟩

end SqlLayout
