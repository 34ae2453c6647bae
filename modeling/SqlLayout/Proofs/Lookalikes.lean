import SqlLayout.Proofs.LineLayout
import SqlLayout.Proofs.Reformatting

/-! # Texts without lookalikes

Four characters beyond ASCII stand for an ASCII letter. In a text without them a keyword is one word
of ASCII letters, and stays one in any letter case. Changing keywords is then a change at every spot
by itself, of two changes in a row the last one counts, and it makes no difference whether lines are
laid out before or after.
-/

namespace SqlLayout

/-- The characters beyond ASCII that stand for an ASCII letter. -/
def lookalikes : List Char := ['\u0130', '\u0131', '\u017f', '\u212a']

/-- None of the characters only looks like an ASCII letter. -/
def Text.Familiar (s : Text) : Prop :=
  ∀ c ∈ s, c ∉ lookalikes

namespace LetterCase

/-- An ASCII letter is written as one ASCII letter, the same but for its case. -/
theorem applyChar_familiar (m : LetterCase) : ∀ c ∈ letters, c ∉ lookalikes →
    ∃ d ∈ letters, d ∉ lookalikes ∧ m.applyChar c = [d] ∧ d.toLower = c.toLower := by
  cases m <;> decide

/-- Of two letter cases the last one counts. -/
theorem applyChar_applyChar (m m' : LetterCase) (hm : m ≠ .preserve) :
    ∀ c ∈ letters, c ∉ lookalikes → (m'.applyChar c).flatMap m.applyChar = m.applyChar c := by
  cases m with
  | preserve => exact absurd rfl hm
  | upper => cases m' <;> decide
  | lower => cases m' <;> decide

theorem splits_familiar (m : LetterCase) {c : Char} (hc : c ∉ lookalikes) : m.splits c = false := by
  rw [splits, decide_eq_false_iff_not]
  rintro ⟨-, rfl⟩
  exact hc (by decide)

section

variable {w : Text} (hw : ∀ c ∈ w, c ∈ letters) (hf : w.Familiar)

include hw hf

theorem familiar_apply (m : LetterCase) : (m.apply w).Familiar := by
  intro d hd
  rw [apply_eq, List.mem_flatMap] at hd
  obtain ⟨c, hc, hd⟩ := hd
  obtain ⟨e, -, he, heq, -⟩ := m.applyChar_familiar c (hw c hc) (hf c hc)
  rw [heq, List.mem_singleton] at hd
  exact hd ▸ he

theorem apply_apply (m m' : LetterCase) (hm : m ≠ .preserve) : m.apply (m'.apply w) = m.apply w := by
  rw [apply_eq, apply_eq, apply_eq, List.flatMap_assoc]
  exact List.flatMap_congr fun c hc => applyChar_applyChar m m' hm c (hw c hc) (hf c hc)

theorem mentionsJoin_apply (m : LetterCase) :
    Assembly.mentionsJoin (m.apply w) = Assembly.mentionsJoin w :=
  congrArg (Text.occursIn "JOIN".toList) (apply_apply hw hf .upper m (by simp))

end

end LetterCase

namespace Spot

open Phrase

/-- None of the characters of the piece only looks like an ASCII letter. -/
def Familiar (a : Spot) : Prop :=
  a.piece.text.Familiar

structure Clear (as : List Spot) : Prop extends Sound as where
  familiar : ∀ a ∈ as, a.Familiar

theorem clear_read {s : Text} (h : s.Familiar) : Clear (read s).1 where
  toSound := (sound_read s).1
  familiar := by
    intro a ha c hc
    refine h c ?_
    rw [← write_read s]
    exact List.mem_append_left _ (List.mem_flatMap.mpr ⟨a, ha, List.mem_append_right _ hc⟩)

theorem Clear.regap {rule : Gaps.Rule} (hr : rule.KeepsWords) (x : Option Char) {as : List Spot}
    (h : Clear as) : Clear (regap rule x as) where
  toSound := h.toSound.regap hr x
  familiar := by
    intro a ha
    have hmem : a.piece ∈ (Spot.regap rule x as).map piece := List.mem_map_of_mem ha
    rw [map_piece_regap] at hmem
    obtain ⟨b, hb, hab⟩ := List.mem_map.mp hmem
    rw [Familiar, ← hab]
    exact h.familiar b hb

theorem Clear.settle (commas : CommaStyle) {as : List Spot} (h : Clear as) : Clear (settle commas as) :=
  h.regap (Gaps.settled_keepsWords commas) none

/-- No lookalike stands for a letter of the word ON. -/
theorem familiar_on {w : Text} (h : fold w = "ON".toList) : w.Familiar := by
  have hnone : ∀ c ∈ lookalikes, foldLetter c ∉ "ON".toList := by decide
  intro c hc hlook
  exact hnone c hlook (h ▸ List.mem_map_of_mem hc)

theorem Akin.familiar {a b : Spot} (h : Akin a b) (ha : a.Familiar) : b.Familiar := by
  rcases h with h | ⟨w, w', -, hb, -, hw'⟩
  · rw [Familiar, h]
    exact ha
  · rw [Familiar, hb]
    exact familiar_on hw'

theorem familiar_akin {as bs : List Spot} (h : List.Forall₂ Akin as bs)
    (ha : ∀ a ∈ as, a.Familiar) : ∀ b ∈ bs, b.Familiar := by
  induction h with
  | nil => simp
  | cons hab h ih =>
      rw [List.forall_mem_cons] at ha ⊢
      exact ⟨hab.familiar ha.1, ih ha.2⟩

/-! ## What happens at spots, whatever their gaps are -/

/-- What happens at spots, if one space is taken for every gap. -/
def phrasesAt (v : List Phrase) (as : List Spot) : List Edges :=
  edges v none (collapse as)

theorem length_phrasesAt (v : List Phrase) (as : List Spot) : (phrasesAt v as).length = as.length := by
  have h := congrArg List.length (shape_collapse as)
  simp only [shape, List.length_map] at h
  rw [phrasesAt, length_edges, h]

theorem edges_eq_phrasesAt (v : List Phrase) {as bs : List Spot} (ha : Sound as) (hb : Tight none bs)
    (h : shape bs = shape as) : edges v none bs = phrasesAt v as :=
  edges_congr v hb (tight_collapse ha) rfl (h.trans (shape_collapse as).symm)

theorem phrasesAt_congr (v : List Phrase) {as bs : List Spot} (ha : Sound as) (hb : Sound bs)
    (h : shape as = shape bs) : phrasesAt v as = phrasesAt v bs :=
  edges_eq_phrasesAt v hb (tight_collapse ha) ((shape_collapse as).trans h)

/-- What only looks at pieces does not look at gaps. -/
theorem forall₂_of_regap {R : Edges → Spot → Prop} (hR : ∀ e g a, R e ⟨g, a.piece⟩ → R e a)
    {rule : Gaps.Rule} {x : Option Char} {es : List Edges} {as : List Spot}
    (h : List.Forall₂ R es (regap rule x as)) : List.Forall₂ R es as := by
  induction as generalizing es x with
  | nil => exact h
  | cons a as ih =>
      cases h with
      | cons hea h => exact .cons (hR _ _ a hea) (ih h)

theorem fits_phrasesAt {as : List Spot} (h : Sound as) :
    List.Forall₂ Fits (phrasesAt Keyword.all as) as :=
  forall₂_of_regap (fun _ _ _ hea => hea) (edges_fit Keyword.all_spelled none h.collapse.solid)

theorem keyed_phrasesAt (as : List Spot) :
    List.Forall₂ (Keyed Keyword.all) (phrasesAt Keyword.all as) as :=
  forall₂_of_regap (fun _ _ _ hea => hea) (edges_keyed Keyword.all none (collapse as))

/-! ## Changing keywords -/

/-- A spot in a letter case, if it belongs to a phrase. No word is torn. -/
def caseAt (m : LetterCase) (e : Edges) (a : Spot) : Spot :=
  match a.piece with
  | .word w => if e.inside then ⟨a.gap, .word (m.apply w)⟩ else a
  | .mark _ => a

/-- Spots with their keywords in a letter case, whatever the gaps are. -/
def cased (m : LetterCase) (as : List Spot) : List Spot :=
  List.zipWith (caseAt m) (phrasesAt Keyword.all as) as

theorem caseAt_of_not_inside (m : LetterCase) {e : Edges} (he : e.inside = false) (a : Spot) :
    caseAt m e a = a := by
  unfold caseAt
  split
  · simp [he]
  · rfl

theorem caseAt_word (m : LetterCase) {e : Edges} (he : e.inside = true) (g w : Text) :
    caseAt m e ⟨g, .word w⟩ = ⟨g, .word (m.apply w)⟩ := by
  simp only [caseAt, he, if_true]

@[simp] theorem gap_caseAt (m : LetterCase) (e : Edges) (a : Spot) : (caseAt m e a).gap = a.gap := by
  unfold caseAt
  split
  · split <;> rfl
  · rfl

/-- At a spot nothing is changed, or a word of ASCII letters is. -/
theorem caseAt_cases {e : Edges} {a : Spot} (hf : Fits e a) (ha : a.Familiar) :
    (∀ m, caseAt m e a = a) ∨ ∃ g w, a = ⟨g, .word w⟩ ∧ e.inside = true ∧
      (∀ c ∈ w, c ∈ letters) ∧ w.Familiar := by
  cases he : e.inside with
  | false => exact .inl fun m => caseAt_of_not_inside m he a
  | true =>
      obtain ⟨g, piece⟩ := a
      cases piece with
      | mark c => exact .inl fun _ => rfl
      | word w => exact .inr ⟨g, w, rfl, rfl, (hf he w rfl).2, ha⟩

theorem recaseAt_eq (m : LetterCase) {e : Edges} {a : Spot} (hf : Fits e a) (ha : a.Familiar) :
    recaseAt m e a = [caseAt m e a] := by
  cases he : e.inside with
  | false => rw [recaseAt_of_not_inside m he, caseAt_of_not_inside m he]
  | true =>
      obtain ⟨g, piece⟩ := a
      cases piece with
      | mark c => rfl
      | word w =>
          obtain ⟨hne, hw⟩ := hf he w rfl
          simp only [recaseAt, he, if_true, caseAt]
          exact respell_whole m g hne hw fun c hc => m.splits_familiar (ha c hc)

section

variable {es : List Edges} {as : List Spot} (hf : List.Forall₂ Fits es as)
  (hs : ∀ a ∈ as, a.Familiar)

include hf hs

theorem recaseWith_eq (m : LetterCase) : recaseWith m es as = List.zipWith (caseAt m) es as := by
  induction hf with
  | nil => rfl
  | @cons e a es as hfa hf ih =>
      rw [recaseWith, recaseAt_eq m hfa (hs a (by simp)), ih fun b hb => hs b (by simp [hb])]
      rfl

/-- Of two changes the last one counts. -/
theorem zipWith_caseAt_caseAt (m m' : LetterCase) (hm : m ≠ .preserve) :
    List.zipWith (caseAt m) es (List.zipWith (caseAt m') es as) = List.zipWith (caseAt m) es as := by
  induction hf with
  | nil => rfl
  | @cons e a es as hfa hf ih =>
      simp only [List.zipWith_cons_cons, ih fun b hb => hs b (by simp [hb]), List.cons.injEq, and_true]
      rcases caseAt_cases hfa (hs a (by simp)) with h | ⟨g, w, rfl, he, hw, hwf⟩
      · rw [h m']
      · rw [caseAt_word m' he, caseAt_word m he, caseAt_word m he, LetterCase.apply_apply hw hwf m m' hm]

theorem mentions_zipWith_caseAt (m : LetterCase) :
    List.Forall₂ (fun a b => a.mentions = b.mentions) as (List.zipWith (caseAt m) es as) := by
  induction hf with
  | nil => exact .nil
  | @cons e a es as hfa hf ih =>
      refine .cons ?_ (ih fun b hb => hs b (by simp [hb]))
      rcases caseAt_cases hfa (hs a (by simp)) with h | ⟨g, w, rfl, he, hw, hwf⟩
      · rw [h m]
      · rw [caseAt_word m he]
        exact (LetterCase.mentionsJoin_apply hw hwf m).symm

theorem familiar_zipWith_caseAt (m : LetterCase) :
    ∀ b ∈ List.zipWith (caseAt m) es as, b.Familiar := by
  induction hf with
  | nil => simp
  | @cons e a es as hfa hf ih =>
      intro b hb
      rcases List.mem_cons.mp hb with rfl | hb
      · have ha := hs a (by simp)
        rcases caseAt_cases hfa ha with h | ⟨g, w, rfl, he, hw, hwf⟩
        · rwa [h m]
        · rw [caseAt_word m he]
          exact LetterCase.familiar_apply hw hwf m
      · exact ih (fun d hd => hs d (by simp [hd])) b hb

end

section

variable {as : List Spot} (m : LetterCase) (h : Clear as)

include h

theorem cased_eq : cased m as = recaseWith m (phrasesAt Keyword.all as) as :=
  (recaseWith_eq (fits_phrasesAt h.toSound) h.familiar m).symm

theorem shape_cased : shape (cased m as) = shape as := by
  rw [cased_eq m h]
  exact shape_recaseWith m (fits_phrasesAt h.toSound)
    fun a ha c hc => m.splits_familiar (h.familiar a ha c hc)

theorem Clear.cased : Clear (cased m as) where
  toSound := cased_eq m h ▸ sound_recaseWith m (fits_phrasesAt h.toSound) h.toSound
  familiar := familiar_zipWith_caseAt (fits_phrasesAt h.toSound) h.familiar m

/-- Of two changes of keywords the last one counts. -/
theorem cased_cased (m' : LetterCase) (hm : m ≠ .preserve) : cased m (cased m' as) = cased m as := by
  rw [Spot.cased, phrasesAt_congr _ (h.cased m').toSound h.toSound (shape_cased m' h), Spot.cased,
    zipWith_caseAt_caseAt (fits_phrasesAt h.toSound) h.familiar m m' hm, Spot.cased]

/-- Keywords may be changed before gaps are settled, or after. -/
theorem settle_cased (commas : CommaStyle) :
    settle commas (cased m as) = cased m (settle commas as) := by
  rw [cased_eq m h, cased_eq m (h.settle commas),
    phrasesAt_congr _ (h.settle commas).toSound h.toSound (shape_settle commas as)]
  exact regap_recaseWith commas m (Gaps.Alike.refl none) (fits_phrasesAt h.toSound)

end

/-! ## Laying out lines -/

/-- Spots with lines laid out, their keywords as they are. -/
def lined (m : LetterCase) (commas : CommaStyle) (as : List Spot) : List Spot :=
  flow m (phrasesAt Keyword.headings as) (settle commas as)

theorem length_headings (commas : CommaStyle) (as : List Spot) :
    (phrasesAt Keyword.headings as).length = (settle commas as).length := by
  have h := congrArg List.length (shape_settle commas as)
  simp only [shape, List.length_map] at h
  rw [length_phrasesAt, h]

theorem akin_lined (m : LetterCase) (commas : CommaStyle) (as : List Spot) :
    List.Forall₂ Akin (settle commas as) (lined m commas as) :=
  akin_flow m (length_headings commas as)

theorem shape_lined (m : LetterCase) (commas : CommaStyle) (as : List Spot) :
    shape (lined m commas as) = shape as :=
  (shape_akin (akin_lined m commas as)).symm.trans (shape_settle commas as)

theorem Clear.lined (m : LetterCase) (commas : CommaStyle) {as : List Spot} (h : Clear as) :
    Clear (lined m commas as) where
  toSound := (h.settle commas).toSound.flow m _
  familiar := familiar_akin (akin_lined m commas as) (h.settle commas).familiar

/-- Of two layouts of lines the last one counts. -/
theorem lined_lined (m m' : LetterCase) (commas commas' : CommaStyle) {as : List Spot} (h : Clear as) :
    lined m commas (lined m' commas' as) = lined m commas as := by
  rw [lined, phrasesAt_congr _ (h.lined m' commas').toSound h.toSound (shape_lined m' commas' as),
    lined, flow_settle_flow commas m m' (length_headings commas' as), settle_settle, lined]

/-- The word of a phrase is not the word ON. -/
theorem respellIf_keyword (m : LetterCase) (said : Bool) {g w : Text}
    (hw : ∃ p ∈ Keyword.all, fold w ∈ p.words) :
    respellIf m said ⟨g, .word w⟩ = ⟨g, .word w⟩ := by
  have hon : fold w ≠ "ON".toList := by
    obtain ⟨p, hp, hmem⟩ := hw
    exact fun h => Keyword.on_not_mem p hp (h ▸ hmem)
  cases said with
  | false => rfl
  | true => simp only [respellIf, if_true, respellOn, if_neg hon]

theorem piece_respellIf_caseAt (m m' : LetterCase) (said : Bool) {e : Edges} {a : Spot} (hf : Fits e a)
    (hk : Keyed Keyword.all e a) (ha : a.Familiar) (g : Text) :
    ⟨g, (respellIf m' said (caseAt m e a)).piece⟩ = caseAt m e ⟨g, (respellIf m' said a).piece⟩ := by
  cases he : e.inside with
  | false => rw [caseAt_of_not_inside m he, caseAt_of_not_inside m he]
  | true =>
      obtain ⟨gap, piece⟩ := a
      cases piece with
      | mark c => cases said <;> rfl
      | word w =>
          have hword := hk he w rfl
          have hfold : fold (m.apply w) = fold w :=
            (m.apply_whole (hf he w rfl).2 fun c hc => m.splits_familiar (ha c hc)).2
          rw [caseAt_word m he, respellIf_keyword m' said (hfold ▸ hword), respellIf_keyword m' said hword,
            caseAt_word m he]

theorem flowFrom_caseAt (m m' : LetterCase) (closed said : Bool) {es hs : List Edges} {as : List Spot}
    (hf : List.Forall₂ Fits es as) (hk : List.Forall₂ (Keyed Keyword.all) es as)
    (hfam : ∀ a ∈ as, a.Familiar) :
    flowFrom m' closed said hs (List.zipWith (caseAt m) es as)
      = List.zipWith (caseAt m) es (flowFrom m' closed said hs as) := by
  induction hf generalizing closed said hs with
  | nil => cases hs <;> rfl
  | @cons e a es as hfa hf ih =>
      obtain ⟨hka, hk⟩ := List.forall₂_cons.mp hk
      have hrest : ∀ b ∈ as, b.Familiar := fun b hb => hfam b (by simp [hb])
      cases hs with
      | nil => rfl
      | cons x hs =>
          -- both walks find the same at the spot
          obtain ⟨hsame, hjoins⟩ := List.forall₂_cons.mp (mentions_zipWith_caseAt (.cons hfa hf) hfam m)
          obtain ⟨b, hb⟩ : ∃ b, (if x.opens then a.mentions || joins hs as else said) = b := ⟨_, rfl⟩
          have hb' : (if x.opens then (caseAt m e a).mentions
              || joins hs (List.zipWith (caseAt m) es as) else said) = b := by
            rw [← hsame, ← joins_congr hs hjoins, hb]
          rw [List.zipWith_cons_cons, flowFrom_cons m' hb', flowFrom_cons m' hb, List.zipWith_cons_cons,
            gap_caseAt, piece_respellIf_caseAt m m' b hfa hka (hfam a (by simp)), ih x.closes b hk hrest]

theorem zipWith_caseAt_led (m : LetterCase) (es : List Edges) (g : Text) (as : List Spot) :
    List.zipWith (caseAt m) es (led g as) = led g (List.zipWith (caseAt m) es as) := by
  cases as with
  | nil => cases es <;> rfl
  | cons a as =>
      cases es with
      | nil => rfl
      | cons e es =>
          obtain ⟨gap, piece⟩ := a
          cases piece with
          | mark c => rfl
          | word w =>
              simp only [led_cons, List.zipWith_cons_cons, caseAt]
              split <;> rfl

/-- Keywords may be changed before lines are laid out, or after. -/
theorem lined_cased (m m' : LetterCase) (commas : CommaStyle) {as : List Spot} (h : Clear as) :
    lined m' commas (cased m as) = cased m (lined m' commas as) := by
  have hsettled := h.settle commas
  have hshape := shape_settle commas as
  have hfit := fits_phrasesAt hsettled.toSound
  have hlined := (h.lined m' commas).toSound
  rw [lined, phrasesAt_congr _ (h.cased m).toSound h.toSound (shape_cased m h), settle_cased m h commas,
    cased, flow_eq, ← joins_congr _ (mentions_zipWith_caseAt hfit hsettled.familiar m),
    flowFrom_caseAt m m' _ _ hfit (keyed_phrasesAt _) hsettled.familiar, ← zipWith_caseAt_led, ← flow_eq,
    ← lined, cased, phrasesAt_congr _ hsettled.toSound h.toSound hshape,
    phrasesAt_congr _ hlined h.toSound (shape_lined m' commas as)]

/-- Laying out clear spots is laying out lines and changing keywords. -/
theorem layOut_eq (m : LetterCase) (commas : CommaStyle) {as : List Spot} (h : Clear as) :
    layOut ⟨m, commas⟩ as = cased m (lined m commas as) := by
  have hsettled := h.settle commas
  have htidy : tidy ⟨m, commas⟩ as = settle commas (cased m as) := by
    rw [settle_cased m h, tidy, recase, cased_eq m hsettled,
      edges_eq_phrasesAt _ hsettled.toSound (tight_settle commas h.toSound) rfl]
  rw [layOut, htidy, edges_eq_phrasesAt _ (h.cased m).toSound (tight_settle commas (h.cased m).toSound)
    (shape_settle commas _), ← lined, lined_cased m m commas h]

theorem Clear.layOut (style : Style) {as : List Spot} (h : Clear as) : Clear (layOut style as) :=
  layOut_eq style.letterCase style.commas h ▸ (h.lined _ _).cased _

end Spot

end SqlLayout
