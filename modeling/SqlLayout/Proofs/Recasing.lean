import SqlLayout.Keyword
import SqlLayout.Proofs.Characters
import SqlLayout.Proofs.Edges
import SqlLayout.Proofs.Respacing

/-! # Recasing spots

Keywords are changed word by word. A changed word is one word again, unless a dotted capital i was
made small: its dot takes the word apart. What is left of the word on either side is no part of a
phrase of two words.
-/

namespace SqlLayout

namespace Phrase

/-- Phrases are spelled in capitals. -/
def Spelled (vocabulary : List Phrase) : Prop :=
  ∀ p ∈ vocabulary, ∀ w ∈ p.words, ∀ c ∈ w, c ∈ capitals

instance (vocabulary : List Phrase) : Decidable (Spelled vocabulary) := by
  unfold Spelled
  infer_instance

theorem mem_words_of_paired_left {v : List Phrase} {a : Text} {b : Option Text}
    (h : paired v (some a) b = true) : ∃ p ∈ v, fold a ∈ p.words := by
  cases b with
  | none => simp at h
  | some b => exact ⟨_, List.contains_iff_mem.mp h, by simp [words]⟩

theorem mem_words_of_paired_right {v : List Phrase} {a : Option Text} {b : Text}
    (h : paired v a (some b) = true) : ∃ p ∈ v, fold b ∈ p.words := by
  cases a with
  | none => simp at h
  | some a => exact ⟨_, List.contains_iff_mem.mp h, by simp [words]⟩

theorem mem_words_of_inside {v : List Phrase} {before after : Option Text} {w : Text}
    (h : (Edges.ofWords v before (some w) after).inside = true) : ∃ p ∈ v, fold w ∈ p.words := by
  rw [Edges.inside_ofWords, Bool.or_eq_true, Bool.or_eq_true] at h
  rcases h with (h | h) | h
  · exact mem_words_of_paired_right h
  · exact mem_words_of_paired_left h
  · exact ⟨_, List.contains_iff_mem.mp h, by simp [words]⟩

theorem letters_of_inside {v : List Phrase} (hv : Spelled v) {before after : Option Text} {w : Text}
    (h : (Edges.ofWords v before (some w) after).inside = true) : ∀ c ∈ w, c ∈ letters := by
  obtain ⟨p, hp, hw⟩ := mem_words_of_inside h
  exact fun c hc => mem_letters (hv p hp _ hw _ (List.mem_map_of_mem hc))

end Phrase

namespace Keyword

theorem all_unlinked : Phrase.Unlinked all := by decide

theorem all_spelled : Phrase.Spelled all := by decide

/-- No word of a phrase ends in the letter i. -/
theorem word_last : ∀ p ∈ all, ∀ w ∈ p.words, w.getLast? ≠ some 'I' := by
  decide

/-- What comes after a letter i in a word of a phrase is no such word. -/
theorem word_not_suffix :
    ∀ p ∈ all, ∀ w ∈ p.words, ∀ q ∈ all, ∀ l ∈ q.words, ¬ 'I' :: l <:+ w := by
  decide

theorem on_not_mem : ∀ p ∈ all, "ON".toList ∉ p.words := by decide

end Keyword

/-! ## Words in a letter case -/

namespace LetterCase

theorem apply_nil (m : LetterCase) : m.apply [] = [] := by
  cases m <;> rfl

theorem apply_cons (m : LetterCase) (c : Char) (w : Text) :
    m.apply (c :: w) = m.applyChar c ++ m.apply w := by
  simp only [apply_eq, List.flatMap_cons]

theorem apply_append (m : LetterCase) (s t : Text) : m.apply (s ++ t) = m.apply s ++ m.apply t := by
  simp only [apply_eq, List.flatMap_append]

/-- The characters that a letter is written with are not changed again; all but the dot are
    letters. -/
theorem mem_applyChar {m : LetterCase} {c d : Char} (hc : c ∈ letters) (hd : d ∈ m.applyChar c) :
    (d ∈ letters ∨ d = dot) ∧ m.applyChar d = [d] := by
  cases h : m.splits c with
  | false =>
      obtain ⟨e, he, heq, -, hfix⟩ := m.applyChar_letter c hc h
      rw [heq, List.mem_singleton] at hd
      subst hd
      exact ⟨Or.inl he, hfix⟩
  | true =>
      rw [(applyChar_split h).1] at hd
      simp only [splits, decide_eq_true_eq] at h
      obtain ⟨rfl, -⟩ := h
      simp only [List.mem_cons, List.not_mem_nil, or_false] at hd
      rcases hd with rfl | rfl <;> decide

theorem mem_apply {m : LetterCase} {w : Text} (hw : ∀ c ∈ w, c ∈ letters) {d : Char}
    (hd : d ∈ m.apply w) : (d ∈ letters ∨ d = dot) ∧ m.applyChar d = [d] := by
  rw [apply_eq, List.mem_flatMap] at hd
  obtain ⟨c, hc, hd⟩ := hd
  exact mem_applyChar (hw c hc) hd

/-- A text is left if each of its characters is. -/
theorem apply_of_forall {m : LetterCase} {w : Text} (h : ∀ d ∈ w, m.applyChar d = [d]) :
    m.apply w = w := by
  induction w with
  | nil => exact apply_nil m
  | cons d w ih =>
      rw [apply_cons, h d (by simp), ih fun b hb => h b (by simp [hb])]
      rfl

theorem applyChar_starts (m : LetterCase) {c : Char} (hc : c ∈ letters) :
    ∃ d ds, m.applyChar c = d :: ds ∧ isWord d = true := by
  cases h : m.splits c with
  | false =>
      obtain ⟨d, hd, heq, -, -⟩ := m.applyChar_letter c hc h
      exact ⟨d, [], heq, isWord_of_mem_letters d hd⟩
  | true => exact ⟨'i', [dot], (applyChar_split h).1, by decide⟩

end LetterCase

theorem isPlain_of_mem_letters {c : Char} (h : c ∈ letters ∨ c = dot) :
    Gaps.isPlain c = true ∧ isBlank c = false := by
  rcases h with h | rfl
  · have hw := isWord_of_mem_letters c h
    exact ⟨Gaps.isPlain_of_isWord hw, isBlank_of_isWord hw⟩
  · decide

theorem pieces_dotted (s : Text) :
    pieces (['i', dot] ++ s) = .word ['i'] :: .mark dot :: pieces s := by
  rw [show ['i', dot] ++ s = ['i'] ++ dot :: s from rfl,
    pieces_append_word (by simp) (by decide) (by simp [isWord_dot]),
    pieces_cons_mark isWord_dot]

/-- What is left of a word where a dotted i was made small: the letters up to one, or the ones after
    one. -/
def Torn (w l : Text) : Prop :=
  l.getLast? = some 'I' ∨ 'I' :: l <:+ w

theorem Torn.cons {w l : Text} (h : Torn w l) (c : Char) : Torn (c :: w) l :=
  h.imp id fun h => h.trans (List.suffix_cons c w)

/-- The pieces of a changed word: either it is one word as before, or it is torn at dots. -/
theorem pieces_apply (m : LetterCase) {w : Text} (hne : w ≠ []) (hw : ∀ c ∈ w, c ∈ letters) :
    (∃ f, pieces (m.apply w) = [.word f] ∧ fold f = fold w) ∨
      ∃ f ps, pieces (m.apply w) = .word f :: ps ∧ (fold f).getLast? = some 'I' ∧
        ∀ l, .word l ∈ ps → Torn (fold w) (fold l) := by
  induction w with
  | nil => exact absurd rfl hne
  | cons c w ih =>
      have hc := hw c (by simp)
      have hcons : fold (c :: w) = foldLetter c :: fold w := rfl
      have ih := fun hne => ih hne fun b hb => hw b (by simp [hb])
      rw [LetterCase.apply_cons, hcons]
      cases hs : m.splits c with
      | true =>
          obtain ⟨heq, hI⟩ := LetterCase.applyChar_split hs
          rw [heq, pieces_dotted, hI]
          refine Or.inr ⟨['i'], .mark dot :: pieces (m.apply w), rfl, rfl, fun l hl => ?_⟩
          have hl : .word l ∈ pieces (m.apply w) := by simpa using hl
          cases w with
          | nil => simp [LetterCase.apply_nil, pieces] at hl
          | cons d w =>
              rcases ih (by simp) with ⟨f, hp, hf⟩ | ⟨f, ps, hp, hI, hps⟩
              · rw [hp, List.mem_singleton, Piece.word.injEq] at hl
                rw [hl, hf]
                exact Or.inr List.suffix_rfl
              · rw [hp] at hl
                rcases List.mem_cons.mp hl with hl | hl
                · rw [Piece.word.injEq] at hl
                  exact Or.inl (hl ▸ hI)
                · exact (hps l hl).cons _
      | false =>
          obtain ⟨d, hd, heq, hfold, -⟩ := m.applyChar_letter c hc hs
          have hdw := isWord_of_mem_letters d hd
          rw [heq, ← hfold, show pieces ([d] ++ m.apply w)
            = Piece.consChar d (pieces (m.apply w)) from rfl]
          cases w with
          | nil => exact Or.inl ⟨[d], by simp [LetterCase.apply_nil, pieces, Piece.consChar, hdw], rfl⟩
          | cons e w =>
              rcases ih (by simp) with ⟨f, hp, hf⟩ | ⟨f, ps, hp, hI, hps⟩
              · exact Or.inl ⟨d :: f, by simp [hp, Piece.consChar, hdw], by rw [← hf]; rfl⟩
              · refine Or.inr ⟨d :: f, ps, by simp [hp, Piece.consChar, hdw], ?_,
                  fun l hl => (hps l hl).cons _⟩
                obtain ⟨x, xs, hx⟩ := List.exists_cons_of_ne_nil
                  (show fold f ≠ [] from fun h => by simp [h] at hI)
                rw [show fold (d :: f) = foldLetter d :: fold f from rfl, hx,
                  List.getLast?_cons_cons, ← hx, hI]

/-- A changed keyword is one word as before, or none of its pieces is a keyword. -/
theorem pieces_keyword (m : LetterCase) {w : Text} (hne : w ≠ []) (hw : ∀ c ∈ w, c ∈ letters)
    (hword : ∃ p ∈ Keyword.all, fold w ∈ p.words) :
    (∃ f, pieces (m.apply w) = [.word f] ∧ fold f = fold w) ∨
      ∀ l, .word l ∈ pieces (m.apply w) → ∀ p ∈ Keyword.all, fold l ∉ p.words := by
  obtain ⟨q, hq, hmem⟩ := hword
  refine (pieces_apply m hne hw).imp_right fun ⟨f, ps, hp, hI, hps⟩ l hl p hpall hl' => ?_
  have htorn : Torn (fold w) (fold l) := by
    rw [hp] at hl
    rcases List.mem_cons.mp hl with hl | hl
    · rw [Piece.word.injEq] at hl
      exact Or.inl (hl ▸ hI)
    · exact hps l hl
  rcases htorn with h | h
  · exact Keyword.word_last p hpall _ hl' h
  · exact Keyword.word_not_suffix q hq _ hmem p hpall _ hl' h

/-! ## Recased spots -/

namespace Spot

open Phrase

/-- The spots of a text without blanks, after a gap. -/
def respell (g t : Text) : List Spot :=
  match SqlLayout.pieces t with
  | [] => []
  | p :: ps => ⟨g, p⟩ :: ps.map (Spot.mk [])

theorem map_piece_respell (g t : Text) : (respell g t).map piece = SqlLayout.pieces t := by
  unfold respell
  cases SqlLayout.pieces t with
  | nil => rfl
  | cons p ps => simp [Function.comp_def]

/-- A spot in a letter case, if it belongs to a phrase. -/
def recaseAt (m : LetterCase) (e : Edges) (a : Spot) : List Spot :=
  match a.piece with
  | .word w => if e.inside then respell a.gap (m.apply w) else [a]
  | .mark _ => [a]

/-- Spots in a letter case, given what happens at them. -/
def recaseWith (m : LetterCase) : List Edges → List Spot → List Spot
  | e :: es, a :: as => recaseAt m e a ++ recaseWith m es as
  | _, _ => []

/-- Spots with their keywords in a letter case. -/
def recase (m : LetterCase) (as : List Spot) : List Spot :=
  recaseWith m (edges Keyword.all none as) as

theorem write_respell (g : Text) {t : Text} (ht : t ≠ []) : write (respell g t) = g ++ t := by
  have hs := spell_pieces t
  cases hp : SqlLayout.pieces t with
  | nil =>
      rw [hp] at hs
      exact absurd hs.symm ht
  | cons p ps =>
      rw [hp] at hs
      have hmap : write (ps.map (Spot.mk [])) = spell ps := by
        simp [write, spell, List.flatMap_map, text]
      simp only [respell, hp, write_cons, hmap, text, List.append_assoc]
      rw [← hs]
      rfl

theorem apply_ne_nil (m : LetterCase) {w : Text} (hne : w ≠ []) (hw : ∀ c ∈ w, c ∈ letters) :
    m.apply w ≠ [] := by
  cases w with
  | nil => exact absurd rfl hne
  | cons c w =>
      obtain ⟨d, ds, hd, -⟩ := m.applyChar_starts (hw c (by simp))
      simp [LetterCase.apply_cons, hd]

/-- What happens at a spot fits the spot: only a word of letters belongs to a phrase. -/
def Fits (e : Edges) (a : Spot) : Prop :=
  e.inside = true → ∀ w, a.word? = some w → w ≠ [] ∧ ∀ c ∈ w, c ∈ letters

theorem edges_fit {v : List Phrase} (hv : Spelled v) (before : Option Text) {as : List Spot}
    (h : ∀ a ∈ as, a.Solid) : List.Forall₂ Fits (edges v before as) as := by
  induction as generalizing before with
  | nil => exact .nil
  | cons a as ih =>
      refine .cons (fun he w hw => ?_) (ih a.word? fun b hb => h b (by simp [hb]))
      rw [hw] at he
      refine ⟨?_, letters_of_inside hv he⟩
      obtain ⟨-, hpiece⟩ := h a (by simp)
      obtain ⟨gap, piece⟩ := a
      cases piece with
      | mark c => simp at hw
      | word l =>
          simp only [word?_word, Option.some.injEq] at hw
          exact hw ▸ hpiece.1

theorem write_recaseAt_of_inside (m : LetterCase) {e : Edges} {g w : Text} (he : e.inside = true)
    (hf : Fits e ⟨g, .word w⟩) : write (recaseAt m e ⟨g, .word w⟩) = g ++ m.apply w := by
  obtain ⟨hne, hw⟩ := hf he w rfl
  simp only [recaseAt, he, if_true]
  exact write_respell g (apply_ne_nil m hne hw)

theorem recaseAt_of_not_inside (m : LetterCase) {e : Edges} (he : e.inside = false) (a : Spot) :
    recaseAt m e a = [a] := by
  unfold recaseAt
  split
  · simp [he]
  · rfl

theorem flatMap_marks (m : LetterCase) (g : Text) :
    (marks g).flatMap (Casing.recasePart m) = g := by
  simp [marks, List.flatMap_map, Casing.recasePart, Piece.text]

/-- The second stage changes the keywords among spots. -/
theorem recase_write (m : LetterCase) {as : List Spot} (h : Sound as) {tail : Text}
    (ht : tail.isAllBlank = true) :
    Casing.recase m (write as ++ tail) = write (recase m as) ++ tail := by
  rw [Casing.recase, parts_write _ h ht]
  suffices hscan : ∀ {before as}, Scan Keyword.all before as → Sound as →
      (parts Keyword.all tail as).flatMap (Casing.recasePart m)
        = write (recaseWith m (edges Keyword.all before as) as) ++ tail from
    hscan (scan Keyword.all_unlinked as none (by simp [reach])) h
  intro before as hs h
  have hfit := edges_fit Keyword.all_spelled before h.solid
  induction hs with
  | nil => simp [parts_nil, flatMap_marks, recaseWith]
  | @step before a as free loose rest ih =>
      rw [edges, Edges.ofWords_loose free loose] at hfit ⊢
      obtain ⟨hfa, hfit⟩ := List.forall₂_cons.mp hfit
      have ih := ih h.tail hfit
      obtain ⟨g, piece⟩ := a
      cases piece with
      | mark c =>
          rw [parts_mark, List.flatMap_append, flatMap_marks, List.flatMap_cons, ih, recaseWith]
          simp [Casing.recasePart, Piece.text, recaseAt, text]
      | word w =>
          rw [parts_word _ _ h loose, List.flatMap_append, flatMap_marks, List.flatMap_cons, ih,
            recaseWith, write_append]
          simp only [word?_word] at hfa ⊢
          cases ha : alone Keyword.all (some w) with
          | true =>
              rw [ha] at hfa
              rw [write_recaseAt_of_inside m rfl hfa, ofWord_eq, if_pos ha]
              simp only [Casing.recasePart, List.append_assoc]
          | false =>
              rw [recaseAt_of_not_inside m rfl, ofWord_eq, if_neg (by simp [ha])]
              simp [Casing.recasePart, Piece.text, text]
  | @pair before g w w' as bound rest ih =>
      have hreach : paired Keyword.all (some w) (reach (some w') ⟨[' '], .word w'⟩) = true := bound
      rw [edges, edges] at hfit ⊢
      simp only [ahead, word?_word, reach, if_true, Edges.ofWords_first Keyword.all_unlinked bound,
        Edges.ofWords_second bound] at hfit ⊢
      obtain ⟨hfa, hfit⟩ := List.forall₂_cons.mp hfit
      obtain ⟨hfb, hfit⟩ := List.forall₂_cons.mp hfit
      have hspace : m.applyChar ' ' = [' '] := by cases m <;> decide
      rw [parts_pair _ _ _ _ bound, List.flatMap_append, flatMap_marks, List.flatMap_cons,
        ih h.tail.tail hfit, recaseWith, recaseWith, write_append, write_append,
        write_recaseAt_of_inside m rfl hfa, write_recaseAt_of_inside m rfl hfb]
      simp only [Casing.recasePart, LetterCase.apply_append, LetterCase.apply_cons, hspace,
        List.append_assoc, List.cons_append, List.nil_append]

/-! ## Soundness -/

theorem respell_eq {m : LetterCase} {w : Text} (hne : w ≠ []) (hw : ∀ c ∈ w, c ∈ letters)
    (g : Text) : ∃ f ps, SqlLayout.pieces (m.apply w) = .word f :: ps ∧
      respell g (m.apply w) = ⟨g, .word f⟩ :: ps.map (Spot.mk []) := by
  rcases pieces_apply m hne hw with ⟨f, hp, -⟩ | ⟨f, ps, hp, -, -⟩
  · exact ⟨f, [], hp, by simp [respell, hp]⟩
  · exact ⟨f, ps, hp, by simp [respell, hp]⟩

/-- Pieces without blanks between them are sound spots. -/
theorem sound_of_parted {p : Piece} {ps : List Piece} (h : Piece.Parted (p :: ps))
    (hb : ∀ c, .mark c ∈ p :: ps → isBlank c = false) {g : Text} (hg : g.isAllBlank = true) :
    Sound (⟨g, p⟩ :: ps.map (Spot.mk [])) := by
  induction ps generalizing p g with
  | nil =>
      refine .cons ⟨hg, ?_⟩ (by simp) .nil
      cases h with
      | mark hc => exact ⟨hc, hb _ (by simp)⟩
      | word hne hw => exact ⟨hne, hw⟩
  | cons q ps ih =>
      have hb' : ∀ c, .mark c ∈ q :: ps → isBlank c = false :=
        fun c hc => hb c (List.mem_cons_of_mem p hc)
      cases h with
      | mark hc h => exact .cons ⟨hg, hc, hb _ (by simp)⟩ (by simp [Apart]) (ih h hb' rfl)
      | word hne hw hnext h =>
          refine .cons ⟨hg, hne, hw⟩ ?_ (ih h hb' rfl)
          intro b hb _ hword
          simp only [List.map_cons, List.head?_cons, Option.mem_def, Option.some.injEq] at hb
          subst hb
          cases q with
          | word l => exact absurd rfl (hnext l ps)
          | mark d => simp at hword

theorem mem_of_mem_pieces {s : Text} {c : Char} (h : .mark c ∈ SqlLayout.pieces s) : c ∈ s := by
  rw [← spell_pieces s]
  exact List.mem_flatMap.mpr ⟨_, h, by simp [Piece.text]⟩

theorem sound_respell {m : LetterCase} {g w : Text} (hg : g.isAllBlank = true) (hne : w ≠ [])
    (hw : ∀ c ∈ w, c ∈ letters) : Sound (respell g (m.apply w)) := by
  obtain ⟨f, ps, hp, hr⟩ := respell_eq (m := m) hne hw g
  rw [hr]
  refine sound_of_parted (hp ▸ pieces_parted (m.apply w)) (fun c hc => ?_) hg
  have hmem := mem_of_mem_pieces (hp ▸ hc)
  exact (isPlain_of_mem_letters (LetterCase.mem_apply hw hmem).1).2

/-- Recased spots begin where the spot did, with a word if there was one. -/
theorem recaseAt_head {m : LetterCase} {e : Edges} {a : Spot} (hf : Fits e a) :
    ∃ b bs, recaseAt m e a = b :: bs ∧ b.gap = a.gap ∧ b.word?.isSome = a.word?.isSome := by
  cases he : e.inside with
  | false => exact ⟨a, [], recaseAt_of_not_inside m he a, rfl, rfl⟩
  | true =>
      obtain ⟨g, piece⟩ := a
      cases piece with
      | mark c => exact ⟨_, [], rfl, rfl, rfl⟩
      | word w =>
          obtain ⟨hne, hw⟩ := hf he w rfl
          obtain ⟨f, ps, -, hr⟩ := respell_eq (m := m) hne hw g
          exact ⟨⟨g, .word f⟩, ps.map (Spot.mk []), by simp only [recaseAt, he, if_true, hr], rfl, rfl⟩

theorem sound_recaseAt {m : LetterCase} {e : Edges} {a : Spot} (hf : Fits e a) (ha : a.Solid) :
    Sound (recaseAt m e a) := by
  have hone : Sound [a] := .cons ha (by simp) .nil
  cases he : e.inside with
  | false => rwa [recaseAt_of_not_inside m he]
  | true =>
      obtain ⟨g, piece⟩ := a
      cases piece with
      | mark c => exact hone
      | word w =>
          obtain ⟨hne, hw⟩ := hf he w rfl
          simp only [recaseAt, he, if_true]
          exact sound_respell ha.1 hne hw

/-- The words among recased spots come from a word. -/
theorem isSome_of_mem_recaseAt {m : LetterCase} {e : Edges} {a b : Spot} (hb : b ∈ recaseAt m e a)
    (hw : b.word?.isSome = true) : a.word?.isSome = true := by
  obtain ⟨g, piece⟩ := a
  cases piece with
  | word w => rfl
  | mark c =>
      simp only [recaseAt, List.mem_singleton] at hb
      exact hb ▸ hw

theorem Sound.append {as bs : List Spot} (ha : Sound as) (hb : Sound bs)
    (h : ∀ a ∈ as.getLast?, ∀ b ∈ bs.head?, Apart a b) : Sound (as ++ bs) :=
  ⟨fun a hm => (List.mem_append.mp hm).elim (ha.solid a) (hb.solid a), ha.apart.append hb.apart h⟩

theorem sound_recaseWith (m : LetterCase) {es : List Edges} {as : List Spot}
    (hf : List.Forall₂ Fits es as) (h : Sound as) : Sound (recaseWith m es as) := by
  induction hf with
  | nil => exact .nil
  | @cons e a es as hfa hf ih =>
      refine (sound_recaseAt hfa h.head).append (ih h.tail) fun x hx y hy hwx hwy => ?_
      have hwa := isSome_of_mem_recaseAt (List.mem_of_getLast? hx) hwx
      cases hf with
      | nil => simp [recaseWith] at hy
      | @cons e' b es as hfb hf =>
          obtain ⟨b', bs, hr, hgap, hword⟩ := recaseAt_head (m := m) hfb
          simp only [recaseWith, hr, List.cons_append, List.head?_cons, Option.mem_def,
            Option.some.injEq] at hy
          subst hy
          rw [hgap]
          exact h.next hwa (hword ▸ hwy)

theorem Sound.recase (m : LetterCase) {as : List Spot} (h : Sound as) : Sound (recase m as) :=
  sound_recaseWith m (edges_fit Keyword.all_spelled none h.solid) h

end Spot

end SqlLayout
