import SqlLayout.Proofs.Restyling

/-! # Letter case has no say in the layout

Two texts without lookalikes that are the same but for the case of ASCII letters are laid out side
by side, each with a letter case of its own for keywords. Stage by stage the spots keep the same
gaps and the same letters.
-/

namespace SqlLayout

/-! ## Small letters -/

theorem contains_toLower (c : Char) : lookalikes.contains c.toLower = lookalikes.contains c :=
  apply_toLower lookalikes.contains (by decide) c

/-- Only word characters are capitals. -/
theorem toLower_of_not_isWord {c : Char} (h : isWord c = false) : c.toLower = c := by
  by_cases hc : c.toNat < 128
  · exact ascii_induction (P := fun c => isWord c = false → c.toLower = c) (by decide) hc h
  · exact toLower_beyond_ascii hc

theorem toLower_of_isBlank {c : Char} (h : isBlank c = true) : c.toLower = c :=
  toLower_of_not_isWord (isWord_of_isBlank h)

theorem map_toLower_of_blank {g : Text} (hg : g.isAllBlank = true) : g.map Char.toLower = g := by
  induction g with
  | nil => rfl
  | cons c g ih =>
      simp only [Text.isAllBlank_cons, Bool.and_eq_true] at hg
      rw [List.map_cons, toLower_of_isBlank hg.1, ih hg.2]

namespace Text

/-- The same characters, but for the case of ASCII letters. -/
def SameLetters (s s' : Text) : Prop :=
  List.Forall₂ (fun c d => d = c ∨ d = c.toLower ∨ d = c.toUpper) s s'

theorem SameLetters.map_toLower {s s' : Text} (h : SameLetters s s') :
    s.map Char.toLower = s'.map Char.toLower := by
  have htwice : ∀ c : Char, c.toLower.toLower = c.toLower :=
    apply_toLower Char.toLower (by decide)
  have hcapital : ∀ c : Char, c.toUpper.toLower = c.toLower := by
    intro c
    by_cases hc : c.toNat < 128
    · exact ascii_induction (P := fun c => c.toUpper.toLower = c.toLower) (by decide) hc
    · rw [toUpper_beyond_ascii hc]
  induction h with
  | nil => rfl
  | cons hcd h ih =>
      rw [List.map_cons, List.map_cons, ih]
      rcases hcd with rfl | rfl | rfl
      · rfl
      · rw [htwice]
      · rw [hcapital]

theorem Familiar.congr {s s' : Text} (h : s.map Char.toLower = s'.map Char.toLower)
    (hs : s.Familiar) : s'.Familiar := by
  intro c hc hlook
  obtain ⟨d, hd, hdc⟩ := List.mem_map.mp (h ▸ List.mem_map_of_mem hc)
  refine hs d hd (List.contains_iff_mem.mp ?_)
  rw [← contains_toLower, hdc, contains_toLower]
  exact List.contains_iff_mem.mpr hlook

/-- A blank is where it was. -/
theorem getElem?_blank {s s' : Text} (h : s.map Char.toLower = s'.map Char.toLower) (i : Nat)
    {b : Char} (hb : isBlank b = true) : s[i]? = some b → s'[i]? = some b := by
  intro hi
  have hmap := congrArg (·[i]?) h
  simp only [List.getElem?_map, hi, Option.map_some] at hmap
  obtain ⟨d, hd, hdb⟩ := Option.map_eq_some_iff.mp hmap.symm
  rw [toLower_of_isBlank hb] at hdb
  have hblank : isBlank d = true := by rw [← isBlank_toLower, hdb, hb]
  rw [hd, ← hdb, toLower_of_isBlank hblank]

end Text

theorem fold_map_toLower (w : Text) : fold (w.map Char.toLower) = fold w := by
  simp only [fold, List.map_map, Function.comp_def, foldLetter_toLower]

theorem mentionsJoin_map_toLower (w : Text) :
    Assembly.mentionsJoin (w.map Char.toLower) = Assembly.mentionsJoin w := by
  simp only [Assembly.mentionsJoin, upper, List.flatMap_map, upperChar_toLower]

theorem LetterCase.apply_map_toLower (m : LetterCase) {w : Text} (hw : ∀ c ∈ w, c ∈ letters)
    (hf : w.Familiar) : (m.apply w).map Char.toLower = w.map Char.toLower := by
  rw [apply_eq, List.map_flatMap, ← List.flatMap_pure_eq_map]
  refine List.flatMap_congr fun c hc => ?_
  obtain ⟨d, -, -, hd, hlower⟩ := m.applyChar_familiar c (hw c hc) (hf c hc)
  rw [hd, List.map_singleton, hlower]
  rfl

/-! ## Spots with the same letters -/

def Piece.small : Piece → Piece
  | word w => word (w.map Char.toLower)
  | mark c => mark c.toLower

namespace Piece

theorem text_small (p : Piece) : p.small.text = p.text.map Char.toLower := by
  cases p <;> rfl

theorem small_consChar (c : Char) (ps : List Piece) :
    consChar c.toLower (ps.map small) = (consChar c ps).map small := by
  unfold consChar
  rw [isWord_toLower]
  split
  · rcases ps with - | ⟨- | -, ps⟩ <;> rfl
  · rfl

end Piece

theorem pieces_map_toLower (s : Text) : pieces (s.map Char.toLower) = (pieces s).map Piece.small := by
  induction s with
  | nil => rfl
  | cons c s ih =>
      show Piece.consChar c.toLower (pieces (s.map Char.toLower)) = _
      rw [ih, Piece.small_consChar]
      rfl

namespace Spot

open Gaps

def small (a : Spot) : Spot :=
  ⟨a.gap, a.piece.small⟩

/-- The same gap and the same letters. -/
def Level (a b : Spot) : Prop :=
  a.small = b.small

theorem forall₂_level {as bs : List Spot} :
    List.Forall₂ Level as bs ↔ as.map small = bs.map small := by
  rw [← List.forall₂_eq_eq_eq, List.forall₂_map_left_iff, List.forall₂_map_right_iff]
  rfl

theorem read_map_toLower (s : Text) : read (s.map Char.toLower) = ((read s).1.map small, (read s).2) := by
  have hcons : ∀ (p : Piece) (r : List Spot × Text),
      consPiece p.small (r.1.map small, r.2) = ((consPiece p r).1.map small, (consPiece p r).2) := by
    rintro p ⟨as, tail⟩
    cases p with
    | word w => rfl
    | mark c =>
        simp only [Piece.small, consPiece, isBlank_toLower]
        split
        · rename_i hc
          rw [toLower_of_isBlank hc]
          cases as <;> rfl
        · rfl
  rw [read, read, pieces_map_toLower]
  induction SqlLayout.pieces s with
  | nil => rfl
  | cons p ps ih => rw [List.map_cons, List.foldr_cons, List.foldr_cons, ih, hcons]

theorem level_read {s s' : Text} (h : s.map Char.toLower = s'.map Char.toLower) :
    List.Forall₂ Level (read s).1 (read s').1 := by
  have hs := read_map_toLower s
  rw [h, read_map_toLower s'] at hs
  exact forall₂_level.mpr (congrArg Prod.fst hs).symm

theorem map_toLower_write {as : List Spot} (h : ∀ a ∈ as, a.Solid) :
    (write as).map Char.toLower = write (as.map small) := by
  induction as with
  | nil => rfl
  | cons a as ih =>
      rw [List.map_cons, write_cons, write_cons, List.map_append, ih fun b hb => h b (by simp [hb]), text,
        List.map_append, map_toLower_of_blank (h a (by simp)).1, ← Piece.text_small]
      rfl

theorem word?_small (a : Spot) : a.small.word?.map fold = a.word?.map fold := by
  obtain ⟨g, p⟩ := a
  cases p with
  | word w => exact congrArg some (fold_map_toLower w)
  | mark c => rfl

theorem mentions_small (a : Spot) : a.small.mentions = a.mentions := by
  obtain ⟨g, p⟩ := a
  cases p with
  | word w => exact mentionsJoin_map_toLower w
  | mark c => rfl

namespace Level

variable {a b : Spot} (h : Level a b)

include h

theorem gap_eq : a.gap = b.gap :=
  (Spot.mk.inj h).1

theorem piece_eq : a.piece.small = b.piece.small :=
  (Spot.mk.inj h).2

theorem fold_eq : a.word?.map fold = b.word?.map fold := by
  rw [← word?_small a, h, word?_small]

theorem mentions_eq : a.mentions = b.mentions := by
  rw [← mentions_small a, h, mentions_small]

theorem ends (ha : a.Solid) (hb : b.Solid) : Alike a.first b.first ∧ Alike a.last b.last := by
  have hpiece := h.piece_eq
  obtain ⟨g, p⟩ := a
  obtain ⟨g', p'⟩ := b
  cases p with
  | word w =>
      cases p' with
      | mark d => cases hpiece
      | word w' =>
          obtain ⟨-, hne, hw⟩ := ha
          obtain ⟨-, hne', hw'⟩ := hb
          exact alike_ends hne hne' (fun c hc => isPlain_of_isWord (hw c hc))
            fun c hc => isPlain_of_isWord (hw' c hc)
  | mark c =>
      cases p' with
      | word w' => cases hpiece
      | mark d =>
          have hcd : c = d := by
            rw [← toLower_of_not_isWord ha.2.1, ← toLower_of_not_isWord hb.2.1]
            exact Piece.mark.inj hpiece
          rw [hcd]
          exact ⟨.refl _, .refl _⟩

end Level

/-! ## Stages side by side -/

section

variable {as bs : List Spot} (h : List.Forall₂ Level as bs)

include h

theorem shape_level : shape as = shape bs := by
  induction h with
  | nil => rfl
  | cons hab h ih =>
      simp only [shape, List.map_cons] at ih ⊢
      rw [ih, hab.fold_eq]

theorem joins_level (es : List Edges) : joins es as = joins es bs :=
  joins_congr es (h.imp fun _ _ hab => hab.mentions_eq)

theorem level_led (g : Text) : List.Forall₂ Level (led g as) (led g bs) := by
  cases h with
  | nil => exact .nil
  | @cons a b as bs hab h => exact .cons (congrArg (Spot.mk g) hab.piece_eq) h

theorem level_regap (commas : CommaStyle) {x x' : Option Char} (hx : Alike x x')
    (ha : ∀ a ∈ as, a.Solid) (hb : ∀ b ∈ bs, b.Solid) :
    List.Forall₂ Level (regap (.settled commas) x as) (regap (.settled commas) x' bs) := by
  induction h generalizing x x' with
  | nil => exact .nil
  | @cons a b as bs hab h ih =>
      rw [List.forall_mem_cons] at ha hb
      obtain ⟨hfirst, hlast⟩ := hab.ends ha.1 hb.1
      refine .cons ?_ (ih hlast ha.2 hb.2)
      rw [Level, small, small, settled_congr commas hx hfirst a.gap, hab.gap_eq]
      exact congrArg (Spot.mk _) hab.piece_eq

end

/-- The word ON has the same letters, whatever the letter case is. -/
theorem small_respellIf (m m' : LetterCase) (said : Bool) {a b : Spot} (h : Level a b) :
    (respellIf m said a).piece.small = (respellIf m' said b).piece.small := by
  have hon : ∀ m, (Assembly.onWord m).map Char.toLower = "on".toList := by
    intro m
    cases m <;> decide
  cases said with
  | false => exact h.piece_eq
  | true =>
      have hfold := h.fold_eq
      have hpiece := h.piece_eq
      obtain ⟨g, p⟩ := a
      obtain ⟨g', p'⟩ := b
      cases p with
      | mark c =>
          cases p' with
          | word w' => cases hpiece
          | mark d => exact hpiece
      | word w =>
          cases p' with
          | mark d => cases hpiece
          | word w' =>
              have hww : fold w = fold w' := Option.some.inj hfold
              simp only [respellIf, if_true, respellOn, hww]
              split
              · simp only [Piece.small, hon]
              · exact hpiece

theorem level_flowFrom (m m' : LetterCase) (closed said : Bool) (es : List Edges) {as bs : List Spot}
    (h : List.Forall₂ Level as bs) :
    List.Forall₂ Level (flowFrom m closed said es as) (flowFrom m' closed said es bs) := by
  induction h generalizing closed said es with
  | nil => cases es <;> exact .nil
  | @cons a b as bs hab h ih =>
      cases es with
      | nil => exact .nil
      | cons e es =>
          rw [flowFrom, flowFrom, hab.mentions_eq, joins_level h es, hab.gap_eq]
          exact .cons (congrArg (Spot.mk _) (small_respellIf m m' _ hab)) (ih _ _ _)

theorem level_lined (m m' : LetterCase) (commas : CommaStyle) {as bs : List Spot}
    (h : List.Forall₂ Level as bs) (ha : Sound as) (hb : Sound bs) :
    List.Forall₂ Level (lined m commas as) (lined m' commas bs) := by
  have hsettled := level_regap h commas (.refl none) ha.solid hb.solid
  rw [lined, lined, phrasesAt_congr _ ha hb (shape_level h), flow_eq, flow_eq, settle, settle,
    joins_level hsettled]
  exact level_led (level_flowFrom m m' _ _ _ hsettled) []

/-- Changing keywords does not change letters. -/
theorem level_cased (m : LetterCase) {as : List Spot} (h : Clear as) :
    List.Forall₂ Level (cased m as) as := by
  have hfit := fits_phrasesAt h.toSound
  have hfam := h.familiar
  rw [cased]
  generalize phrasesAt Keyword.all as = es at hfit
  clear h
  induction hfit with
  | nil => exact .nil
  | @cons e a es as hfa hf ih =>
      rw [List.forall_mem_cons] at hfam
      refine .cons ?_ (ih hfam.2)
      rcases caseAt_cases hfa hfam.1 with h | ⟨g, w, rfl, he, hw, hwf⟩
      · rw [h m]
        rfl
      · rw [caseAt_word m he]
        exact congrArg (Spot.mk g) (congrArg Piece.word (m.apply_map_toLower hw hwf))

/-- Spots with the same letters are laid out alike. -/
theorem small_layOut (m m' : LetterCase) (commas : CommaStyle) {as bs : List Spot}
    (h : List.Forall₂ Level as bs) (ha : Clear as) (hb : Clear bs) :
    (layOut ⟨m, commas⟩ as).map small = (layOut ⟨m', commas⟩ bs).map small := by
  rw [layOut_eq m commas ha, layOut_eq m' commas hb]
  calc (cased m (lined m commas as)).map small
      = (lined m commas as).map small := forall₂_level.mp (level_cased m (ha.lined m commas))
    _ = (lined m' commas bs).map small :=
        forall₂_level.mp (level_lined m m' commas h ha.toSound hb.toSound)
    _ = (cased m' (lined m' commas bs)).map small :=
        (forall₂_level.mp (level_cased m' (hb.lined m' commas))).symm

end Spot

/-! ## Texts -/

theorem CommaStyle.ofSetting_congr {setting setting' : Setting}
    (h : setting = .text "before".toList ↔ setting' = .text "before".toList) :
    ofSetting setting = ofSetting setting' := by
  rw [← ofSetting_eq_before, ← ofSetting_eq_before] at h
  cases hs : ofSetting setting with
  | before => exact (h.mp hs).symm
  | after =>
      cases hs' : ofSetting setting' with
      | after => rfl
      | before => exact absurd (h.mpr hs') (by simp [hs])

theorem map_toLower_format {s s' : Text} (hs : s.Familiar)
    (h : s.map Char.toLower = s'.map Char.toLower) {o o' : Options}
    (hcommas : CommaStyle.ofSetting o.commaPosition = CommaStyle.ofSetting o'.commaPosition) :
    (format o s).map Char.toLower = (format o' s').map Char.toLower := by
  have ha := Spot.clear_read hs
  have hb := Spot.clear_read (hs.congr h)
  rw [format, format, Spot.layOut_read, Spot.layOut_read, Spot.map_toLower_write (ha.layOut _).solid,
    Spot.map_toLower_write (hb.layOut _).solid]
  refine congrArg Spot.write ?_
  rw [Options.style, Options.style, hcommas]
  exact Spot.small_layOut _ _ _ (Spot.level_read h) ha hb

/-- The case of ASCII letters, in the text or asked for by options, does not move a single
    character, as long as the options agree on where commas have space. -/
theorem format_sameLetters {s s' : Text} (hs : s.Familiar) (h : s.SameLetters s') {o o' : Options}
    (hcommas : o.commaPosition = .text "before".toList ↔ o'.commaPosition = .text "before".toList) :
    (format o s).length = (format o' s').length ∧
      (format o s).map Char.toLower = (format o' s').map Char.toLower ∧
      ∀ (i : Nat) (b : Char), isBlank b = true → ((format o s)[i]? = some b ↔ (format o' s')[i]? = some b) := by
  have hlower := map_toLower_format hs h.map_toLower (CommaStyle.ofSetting_congr hcommas)
  have hlength := congrArg List.length hlower
  rw [List.length_map, List.length_map] at hlength
  exact ⟨hlength, hlower, fun i b hb =>
    ⟨Text.getElem?_blank hlower i hb, Text.getElem?_blank hlower.symm i hb⟩⟩

/-- Keywords in other letters, of which capitals are made in one text and none in the other. -/
theorem format_sameLetters_join :
    let s : Text := "select a ,b from t Join u on x = 1".toList
    let s' : Text := "SELECT a ,B fRom t jOIN u ON X = 1".toList
    let kept : Options := ⟨.text "preserve".toList, .absent, .absent, .absent, .number 2⟩
    s.Familiar ∧ s.SameLetters s' ∧
      (Options.commaPosition {} = .text "before".toList ↔ kept.commaPosition = .text "before".toList) ∧
      (format {} s).map Char.toLower = (format kept s').map Char.toLower := by
  intro s s' kept
  have hs : s.Familiar := by
    unfold Text.Familiar
    decide
  have h : s.SameLetters s' := by
    unfold Text.SameLetters
    decide
  have hcommas : Options.commaPosition {} = .text "before".toList ↔
      kept.commaPosition = .text "before".toList := by
    rw [← CommaStyle.ofSetting_eq_before, ← CommaStyle.ofSetting_eq_before]
    decide
  exact ⟨hs, h, hcommas, (format_sameLetters hs h hcommas).2.1⟩

end SqlLayout
