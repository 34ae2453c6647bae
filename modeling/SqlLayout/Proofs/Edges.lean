import SqlLayout.Phrase
import SqlLayout.Proofs.Spots

/-! # Edges of phrases

Reading takes phrases from left to right, two words before one. Where no word is the second of one
phrase and the first of another, what is taken can be told at every word from the words next to
it: whether a phrase opens there and whether one closes there.
-/

namespace SqlLayout

namespace Phrase

def words : Phrase → List Text
  | one word => [word]
  | two first second => [first, second]

def first? : Phrase → Option Text
  | one _ => none
  | two first _ => some first

def second? : Phrase → Option Text
  | one _ => none
  | two _ second => some second

/-- The word that ends a phrase. -/
def last : Phrase → Text
  | one word => word
  | two _ second => second

/-- No word ends one phrase of two words and begins another. -/
def Unlinked (vocabulary : List Phrase) : Prop :=
  ∀ p ∈ vocabulary, ∀ q ∈ vocabulary, ∀ w ∈ p.second?, w ∉ q.first?

instance (vocabulary : List Phrase) : Decidable (Unlinked vocabulary) := by
  unfold Unlinked
  infer_instance

/-- No phrase ends in a word that begins one of two words. -/
def Closed (vocabulary : List Phrase) : Prop :=
  ∀ p ∈ vocabulary, ∀ q ∈ vocabulary, p.last ∉ q.first?

instance (vocabulary : List Phrase) : Decidable (Closed vocabulary) := by
  unfold Closed
  infer_instance

/-- Whether two words are a phrase, if they are there. -/
def paired (vocabulary : List Phrase) : Option Text → Option Text → Bool
  | some a, some b => vocabulary.contains (.two (fold a) (fold b))
  | _, _ => false

/-- Whether a word is a phrase, if it is there. -/
def alone (vocabulary : List Phrase) : Option Text → Bool
  | some a => vocabulary.contains (.one (fold a))
  | none => false

@[simp] theorem paired_none_left (v : List Phrase) (b : Option Text) : paired v none b = false := rfl

@[simp] theorem paired_none_right (v : List Phrase) (a : Option Text) : paired v a none = false := by
  cases a <;> rfl

@[simp] theorem alone_none (v : List Phrase) : alone v none = false := rfl

theorem Unlinked.paired {v : List Phrase} (hv : Unlinked v) {a b : Option Text}
    (h : paired v a b = true) (c : Option Text) : paired v b c = false := by
  cases a with
  | none => simp at h
  | some a =>
      cases b with
      | none => rfl
      | some b =>
          cases c with
          | none => rfl
          | some c =>
              rw [Bool.eq_false_iff]
              intro h'
              simp only [Phrase.paired, List.contains_iff_mem] at h h'
              exact hv _ h _ h' _ rfl rfl

end Phrase

/-- What happens at a word, or at a mark. -/
structure Edges where
  opens : Bool
  closes : Bool
  deriving DecidableEq

namespace Edges

open Phrase

/-- What happens at a word, given the words that one space separates from it. -/
def ofWords (v : List Phrase) (before word after : Option Text) : Edges where
  opens := !paired v before word && (paired v word after || alone v word)
  closes := paired v before word || (alone v word && !paired v word after)

/-- Whether the word belongs to a phrase. -/
def inside (e : Edges) : Bool :=
  e.opens || e.closes

@[simp] theorem ofWords_none (v : List Phrase) (before after : Option Text) :
    ofWords v before none after = ⟨false, false⟩ := by
  simp [ofWords]

/-- A word belongs to a phrase if it is one, or is one together with a word next to it. -/
theorem inside_ofWords (v : List Phrase) (before word after : Option Text) :
    (ofWords v before word after).inside
      = (paired v before word || paired v word after || alone v word) := by
  simp only [inside, ofWords]
  cases paired v before word <;> cases paired v word after <;> cases alone v word <;> rfl

theorem ofWords_loose {v : List Phrase} {before word after : Option Text}
    (free : paired v before word = false) (loose : paired v word after = false) :
    ofWords v before word after = ⟨alone v word, alone v word⟩ := by
  simp [ofWords, free, loose]

theorem ofWords_first {v : List Phrase} (hv : Unlinked v) {before word after : Option Text}
    (h : paired v word after = true) : ofWords v before word after = ⟨true, false⟩ := by
  have free : paired v before word = false := by
    rw [Bool.eq_false_iff]
    intro hb
    simp [hv.paired hb after] at h
  simp [ofWords, free, h]

theorem ofWords_second {v : List Phrase} {before word after : Option Text}
    (h : paired v before word = true) : ofWords v before word after = ⟨false, true⟩ := by
  simp [ofWords, h]

/-- The word before counts only if it makes a phrase. -/
theorem ofWords_free {v : List Phrase} {before word : Option Text}
    (free : paired v before word = false) (after : Option Text) :
    ofWords v before word after = ofWords v none word after := by
  simp [ofWords, free]

/-- A word that ends a phrase begins no other. -/
theorem paired_of_closes {v : List Phrase} (hv : Closed v) {before word after : Option Text}
    (h : (ofWords v before word after).closes = true) (next : Option Text) :
    paired v word next = false := by
  obtain _ | w := word
  · rfl
  obtain _ | x := next
  · rfl
  have hend : ∃ p ∈ v, p.last = fold w := by
    simp only [ofWords, Bool.or_eq_true, Bool.and_eq_true] at h
    rcases h with h | ⟨h, -⟩
    · obtain _ | b := before
      · simp at h
      · exact ⟨.two (fold b) (fold w), List.contains_iff_mem.mp h, rfl⟩
    · exact ⟨.one (fold w), List.contains_iff_mem.mp h, rfl⟩
  obtain ⟨p, hp, hlast⟩ := hend
  rw [Bool.eq_false_iff]
  intro hnext
  exact hv p hp _ (List.contains_iff_mem.mp hnext) (by rw [hlast]; rfl)

end Edges

namespace Spot

open Phrase

/-- The word before a spot, if one space separates them. -/
def reach (before : Option Text) (a : Spot) : Option Text :=
  if a.gap = [' '] then before else none

/-- The word at the first spot, if one space comes before it. -/
def ahead : List Spot → Option Text
  | [] => none
  | a :: _ => reach a.word? a

/-- What happens at every spot, given the word before them. -/
def edges (v : List Phrase) : (before : Option Text) → List Spot → List Edges
  | _, [] => []
  | before, a :: as =>
    .ofWords v (reach before a) a.word? (ahead as) :: edges v a.word? as

@[simp] theorem length_edges (v : List Phrase) (before : Option Text) (as : List Spot) :
    (edges v before as).length = as.length := by
  induction as generalizing before with
  | nil => rfl
  | cons a as ih => simp only [edges, List.length_cons, ih]

theorem paired_reach (v : List Phrase) (a b : Spot) :
    paired v (reach a.word? b) b.word? = paired v a.word? (reach b.word? b) := by
  unfold reach
  split <;> simp

/-- A way to read spots: one at a time, or two that are a phrase. -/
inductive Scan (v : List Phrase) : (before : Option Text) → List Spot → Prop where
  | nil {before : Option Text} : Scan v before []
  /-- A spot that is no part of a phrase of two words. -/
  | step {before : Option Text} {a : Spot} {as : List Spot}
      (free : paired v (reach before a) a.word? = false)
      (loose : paired v a.word? (ahead as) = false) (rest : Scan v a.word? as) :
      Scan v before (a :: as)
  /-- Two words that are a phrase. -/
  | pair {before : Option Text} {g w w' : Text} {as : List Spot}
      (bound : paired v (some w) (some w') = true) (rest : Scan v (some w') as) :
      Scan v before (⟨g, .word w⟩ :: ⟨[' '], .word w'⟩ :: as)

/-- Spots can be read if none of them is the second word of a phrase begun before. -/
theorem scan {v : List Phrase} (hv : Unlinked v) : ∀ (as : List Spot) (before : Option Text),
    (∀ a ∈ as.head?, paired v (reach before a) a.word? = false) → Scan v before as
  | [], _, _ => .nil
  | [a], before, free => .step (free a rfl) (by simp [ahead]) .nil
  | a :: b :: as, before, free => by
      cases loose : paired v a.word? (ahead (b :: as)) with
      | false =>
          refine .step (free a rfl) loose (scan hv (b :: as) a.word? ?_)
          intro b' hb'
          simp only [List.head?_cons, Option.mem_def, Option.some.injEq] at hb'
          subst hb'
          rw [paired_reach]
          exact loose
      | true =>
          obtain ⟨g, p⟩ := a
          obtain ⟨g', p'⟩ := b
          cases p with
          | mark c => simp at loose
          | word w =>
              cases p' with
              | mark c => simp [ahead, reach] at loose
              | word w' =>
                  simp only [ahead, reach, word?_word] at loose
                  split at loose
                  · rename_i hg
                    subst hg
                    refine .pair loose (scan hv as (some w') ?_)
                    intro b' _
                    unfold reach
                    split
                    · exact hv.paired loose _
                    · rfl
                  · simp at loose

/-! ## Parts of spots -/

/-- The parts of spots with blanks at the end. -/
def parts (v : List Phrase) (tail : Text) (as : List Spot) : List Part :=
  Part.ofPieces v (as.flatMap pieces ++ tail.map .mark)

theorem parts_write (v : List Phrase) {as : List Spot} (h : Sound as) {tail : Text}
    (ht : tail.isAllBlank = true) : SqlLayout.parts v (write as ++ tail) = parts v tail as := by
  rw [SqlLayout.parts, pieces_write h ht, parts]

/-- Characters outside of all pieces, as parts. -/
def marks (g : Text) : List Part :=
  g.map fun c => .plain (.mark c)

theorem ofPieces_marks (v : List Phrase) (g : Text) (ps : List Piece) :
    Part.ofPieces v (g.map .mark ++ ps) = marks g ++ Part.ofPieces v ps := by
  induction g with
  | nil => rfl
  | cons c g ih =>
      simp only [List.map_cons, List.cons_append, Part.ofPieces, ih]
      rfl

/-- Only a single blank with a word after it makes the reader look at two words. -/
theorem ofPieces_word {v : List Phrase} {w : Text} {ps : List Piece}
    (h : ∀ c l qs, ps = .mark c :: .word l :: qs →
      ¬(c = ' ' ∧ v.contains (.two (fold w) (fold l)) = true)) :
    Part.ofPieces v (.word w :: ps) = Part.ofWord v w :: Part.ofPieces v ps := by
  match ps with
  | [] => rfl
  | .word _ :: _ => rfl
  | [.mark _] => rfl
  | .mark _ :: .mark _ :: _ => rfl
  | .mark c :: .word l :: qs => exact if_neg (h c l qs rfl)

theorem ofWord_eq (v : List Phrase) (w : Text) :
    Part.ofWord v w = if alone v (some w) then .phrase w else .plain (.word w) := rfl

theorem parts_nil (v : List Phrase) (tail : Text) : parts v tail [] = marks tail := by
  have h := ofPieces_marks v tail []
  simpa [parts, Part.ofPieces] using h

theorem parts_mark (v : List Phrase) (tail g : Text) (c : Char) (as : List Spot) :
    parts v tail (⟨g, .mark c⟩ :: as) = marks g ++ .plain (.mark c) :: parts v tail as := by
  simp only [parts, List.flatMap_cons, pieces, List.append_assoc, ofPieces_marks]
  rfl

theorem parts_word (v : List Phrase) (tail : Text) {g w : Text} {as : List Spot}
    (h : Sound (⟨g, .word w⟩ :: as)) (loose : paired v (some w) (ahead as) = false) :
    parts v tail (⟨g, .word w⟩ :: as) = marks g ++ Part.ofWord v w :: parts v tail as := by
  simp only [parts, List.flatMap_cons, pieces, List.append_assoc, ofPieces_marks, List.cons_append,
    List.nil_append, List.append_cancel_left_eq]
  apply ofPieces_word
  rintro c l qs heq ⟨rfl, hc⟩
  cases as with
  | nil => rcases tail with - | ⟨d, - | ⟨e, tail⟩⟩ <;> simp at heq
  | cons b as =>
      obtain ⟨gap, piece⟩ := b
      have hsolid := h.tail.head
      rcases gap with - | ⟨d, - | ⟨e, gap⟩⟩
      · cases piece with
        | word _ => simp [pieces] at heq
        | mark d =>
            simp only [List.flatMap_cons, pieces, List.map_nil, List.cons_append, List.nil_append,
              List.cons.injEq, Piece.mark.injEq] at heq
            obtain ⟨rfl, -⟩ := heq
            exact absurd hsolid.2.2 (by decide)
      · cases piece with
        | mark _ => simp [pieces] at heq
        | word l' =>
            simp only [List.flatMap_cons, pieces, List.map_cons, List.map_nil, List.cons_append,
              List.nil_append, List.cons.injEq, Piece.mark.injEq, Piece.word.injEq] at heq
            obtain ⟨rfl, rfl, -⟩ := heq
            simp only [ahead, reach, word?_word, if_true, paired] at loose
            rw [loose] at hc
            exact absurd hc (by simp)
      · simp [pieces] at heq

theorem parts_pair (v : List Phrase) (tail g : Text) {w w' : Text} (as : List Spot)
    (bound : paired v (some w) (some w') = true) :
    parts v tail (⟨g, .word w⟩ :: ⟨[' '], .word w'⟩ :: as)
      = marks g ++ .phrase (w ++ ' ' :: w') :: parts v tail as := by
  simp only [parts, List.flatMap_cons, pieces, List.append_assoc, ofPieces_marks, List.cons_append,
    List.nil_append, List.map_cons, List.map_nil, List.append_cancel_left_eq]
  exact if_pos ⟨rfl, bound⟩

end Spot

end SqlLayout
