import SqlLayout.Proofs.Shapes

/-! # Keywords that were changed

Changing keywords leaves no keyword to change. A word that was left belongs to no phrase afterwards
either, since a changed word next to it makes no phrase that the word itself did not make: what is
left of a keyword between dots is no word of a phrase.
-/

namespace SqlLayout

open Phrase

namespace Spot

/-- A spot is in a letter case, if it belongs to a phrase. -/
def CasedAt (m : LetterCase) (e : Edges) (a : Spot) : Prop :=
  e.inside = true → ∀ w, a.word? = some w → m.apply w = w

theorem recaseWith_of_cased {m : LetterCase} {es : List Edges} {as : List Spot}
    (hc : List.Forall₂ (CasedAt m) es as) (h : ∀ a ∈ as, a.Solid) : recaseWith m es as = as := by
  induction hc with
  | nil => rfl
  | @cons e a es as hca hc ih =>
      have hone : recaseAt m e a = [a] := by
        cases he : e.inside with
        | false => exact recaseAt_of_not_inside m he a
        | true =>
            have hsolid := h a (by simp)
            obtain ⟨g, piece⟩ := a
            cases piece with
            | mark c => rfl
            | word w =>
                obtain ⟨-, hne, hw⟩ := hsolid
                have hp := pieces_append_word (s := []) hne hw rfl
                rw [List.append_nil] at hp
                simp [recaseAt, he, hca he w rfl, respell, hp, show SqlLayout.pieces [] = [] from rfl]
      rw [recaseWith, hone, ih fun b hb => h b (by simp [hb])]
      rfl

/-- The word at the last spot, or before the spots. -/
def lastWord : (before : Option Text) → List Spot → Option Text
  | before, [] => before
  | _, a :: as => lastWord a.word? as

theorem cased_append {m : LetterCase} (v : List Phrase) {before : Option Text} {as bs : List Spot}
    (ha : ∀ a ∈ as, ∀ w, a.word? = some w → m.apply w = w)
    (hb : List.Forall₂ (CasedAt m) (edges v (lastWord before as) bs) bs) :
    List.Forall₂ (CasedAt m) (edges v before (as ++ bs)) (as ++ bs) := by
  induction as generalizing before with
  | nil => exact hb
  | cons a as ih => exact .cons (fun _ => ha a (by simp)) (ih (fun b hb => ha b (by simp [hb])) hb)

theorem lastWord_map (before : Option Text) (ps : List Piece) :
    lastWord before (ps.map (Spot.mk []))
      = ps.getLast?.elim before fun p => (Spot.mk [] p).word? := by
  induction ps generalizing before with
  | nil => rfl
  | cons p ps ih =>
      rw [List.map_cons, lastWord, ih]
      cases ps with
      | nil => rfl
      | cons q ps => simp [List.getLast?_eq_some_getLast]

/-- What happens at a spot needs a word of a phrase there. -/
def Keyed (v : List Phrase) (e : Edges) (a : Spot) : Prop :=
  e.inside = true → ∀ w, a.word? = some w → ∃ p ∈ v, fold w ∈ p.words

theorem edges_keyed (v : List Phrase) (before : Option Text) (as : List Spot) :
    List.Forall₂ (Keyed v) (edges v before as) as := by
  induction as generalizing before with
  | nil => exact .nil
  | cons a as ih =>
      refine .cons (fun he w hw => ?_) (ih _)
      rw [hw] at he
      exact mem_words_of_inside he

/-- Where a phrase of two words begins, one began before the change. -/
def Weakens (before' before : Option Text) : Prop :=
  ∀ w, paired Keyword.all before' w = true → paired Keyword.all before w = true

theorem lastWord_respell {before : Option Text} {g t l : Text} (hne : SqlLayout.pieces t ≠ [])
    (h : lastWord before (respell g t) = some l) : .word l ∈ SqlLayout.pieces t := by
  obtain ⟨p, ps, hp⟩ := List.exists_cons_of_ne_nil hne
  have hlast : (lastWord before (respell g t))
      = (p :: ps).getLast?.elim before fun p => (Spot.mk [] p).word? := by
    rw [← lastWord_map, respell, hp]
    rfl
  rw [hlast, List.getLast?_eq_some_getLast (List.cons_ne_nil p ps)] at h
  have hmem := List.getLast_mem (List.cons_ne_nil p ps)
  rw [hp]
  cases hl : (p :: ps).getLast (List.cons_ne_nil p ps) with
  | mark c => simp [hl] at h
  | word k =>
      simp only [hl, Option.elim_some, word?_word, Option.some.injEq] at h
      rwa [hl, h] at hmem

theorem weakens_respell (m : LetterCase) {g w : Text} (hne : w ≠ [])
    (hw : ∀ c ∈ w, c ∈ letters) (hword : ∃ p ∈ Keyword.all, fold w ∈ p.words)
    (before : Option Text) : Weakens (lastWord before (respell g (m.apply w))) (some w) := by
  intro b hb
  rcases pieces_keyword m hne hw hword with ⟨f, hp, hfold⟩ | htorn
  · have hlast : lastWord before (respell g (m.apply w)) = some f := by
      simp only [respell, hp, List.map_nil, lastWord, word?_word]
    rw [hlast] at hb
    rwa [← paired_congr _ (show (some f).map fold = (some w).map fold by simp [hfold]) rfl]
  · obtain ⟨f, ps, hp, -⟩ := respell_eq (m := m) hne hw g
    cases hl : lastWord before (respell g (m.apply w)) with
    | none => simp [hl] at hb
    | some l =>
        obtain ⟨q, hq, hmem⟩ := mem_words_of_paired_left (hl ▸ hb)
        exact absurd hmem (htorn l (lastWord_respell (by simp [hp]) hl) q hq)

theorem ahead_recaseWith (m : LetterCase) {es : List Edges} {as : List Spot}
    (hf : List.Forall₂ Fits es as)
    (hk : List.Forall₂ (Keyed Keyword.all) es as) {word : Option Text}
    (h : paired Keyword.all word (ahead (recaseWith m es as)) = true) :
    paired Keyword.all word (ahead as) = true := by
  cases hf with
  | nil => exact h
  | @cons e a es as hfa hf =>
      cases he : e.inside with
      | false =>
          simpa only [recaseWith, recaseAt_of_not_inside m he, List.cons_append, ahead] using h
      | true =>
          obtain ⟨g, piece⟩ := a
          cases piece with
          | mark c => exact h
          | word l =>
              obtain ⟨hne, hl⟩ := hfa he l rfl
              obtain ⟨f, ps, hp, hr⟩ := respell_eq (m := m) hne hl g
              simp only [recaseWith, recaseAt, he, if_true, hr, List.cons_append, ahead, word?_word,
                reach] at h ⊢
              split at h
              · rename_i hg
                rw [if_pos hg]
                rcases pieces_keyword m hne hl ((List.forall₂_cons.mp hk).1 he l rfl) with
                  ⟨f', hp', hfold⟩ | htorn
                · obtain ⟨rfl, -⟩ : f = f' ∧ ps = [] := by simpa [hp] using hp'
                  rwa [← paired_congr _ rfl (show (some f).map fold = (some l).map fold by simp [hfold])]
                · obtain ⟨q, hq, hmem⟩ := mem_words_of_paired_right h
                  exact absurd hmem (htorn f (by simp [hp]) q hq)
              · simp at h

/-- The words of a changed keyword are in the letter case. -/
theorem apply_of_mem_respell (m : LetterCase) {g w : Text} (hw : ∀ c ∈ w, c ∈ letters) {b : Spot}
    (hb : b ∈ respell g (m.apply w)) {l : Text} (hl : b.word? = some l) : m.apply l = l := by
  have hpiece : .word l ∈ SqlLayout.pieces (m.apply w) := by
    obtain ⟨g', piece⟩ := b
    have hmem := List.mem_map_of_mem (f := Spot.piece) hb
    rw [map_piece_respell] at hmem
    cases piece with
    | mark c => simp at hl
    | word l' =>
        simp only [word?_word, Option.some.injEq] at hl
        exact hl ▸ hmem
  refine LetterCase.apply_of_forall fun d hd => (LetterCase.mem_apply (w := w) hw ?_).2
  rw [← spell_pieces (m.apply w)]
  exact List.mem_flatMap.mpr ⟨_, hpiece, hd⟩

/-- After the change every keyword is in the letter case. -/
theorem cased_recaseWith (m : LetterCase) {before before' : Option Text} {as : List Spot}
    (hb : Weakens before' before) (h : ∀ a ∈ as, a.Solid) :
    List.Forall₂ (CasedAt m)
      (edges Keyword.all before' (recaseWith m (edges Keyword.all before as) as))
      (recaseWith m (edges Keyword.all before as) as) := by
  induction as generalizing before before' with
  | nil => exact .nil
  | cons a as ih =>
      have hfit := edges_fit Keyword.all_spelled before h
      obtain ⟨hfa, hfit⟩ := List.forall₂_cons.mp hfit
      have hsolid : ∀ b ∈ as, b.Solid := fun b hb => h b (by simp [hb])
      simp only [edges, recaseWith]
      generalize he : Edges.ofWords Keyword.all (reach before a) a.word? (ahead as) = e at hfa
      cases hin : e.inside with
      | false =>
          rw [recaseAt_of_not_inside m hin, List.singleton_append, edges]
          refine .cons (fun hin' w hw => ?_) (ih (fun _ h => h) hsolid)
          -- the word belonged to no phrase, so it belongs to none now
          rw [← he, Edges.inside_ofWords, Bool.or_eq_false_iff, Bool.or_eq_false_iff] at hin
          rw [Edges.inside_ofWords, hin.2, Bool.or_false, Bool.or_eq_true] at hin'
          rcases hin' with hin' | hin'
          · have hreach : paired Keyword.all (reach before a) a.word? = true := by
              unfold reach at hin' ⊢
              split at hin'
              · rename_i hg
                rw [if_pos hg]
                exact hb _ hin'
              · simp at hin'
            simp [hreach] at hin
          · have hahead := ahead_recaseWith m hfit (edges_keyed _ _ _) hin'
            simp [hahead] at hin
      | true =>
          obtain ⟨g, piece⟩ := a
          cases piece with
          | mark c => simp [← he, Edges.inside] at hin
          | word w =>
              obtain ⟨hne, hw⟩ := hfa hin w rfl
              have hword := mem_words_of_inside (he ▸ hin)
              simp only [recaseAt, hin, if_true]
              exact cased_append _ (fun b hb l hl => apply_of_mem_respell m hw hb hl)
                (ih (weakens_respell m hne hw hword before') hsolid)

theorem cased_recase (m : LetterCase) {as : List Spot} (h : Sound as) :
    List.Forall₂ (CasedAt m) (edges Keyword.all none (recase m as)) (recase m as) :=
  cased_recaseWith m (fun _ h => h) h.solid

end Spot

end SqlLayout
