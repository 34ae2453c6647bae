import SqlLayout.Proofs.CaseBlindness
import SqlLayout.Proofs.Twins

/-! # A text and its layout side by side

A text without lookalikes and its layout have the same letters but for their case. Before a spot the
layout has a line feed if a clause begins there, a space if a heading ends before it, and otherwise
the gap of the first stage.
-/

namespace SqlLayout

open Gaps Twin

namespace Spot

/-- The gap before a spot, given the character before it. -/
def gapBefore (commas : CommaStyle) (closed : Bool) (e : Edges) (c : Char) (a : Spot) : Text :=
  if e.opens then ['\n'] else if closed then [' '] else Rule.settled commas (some c) a.gap a.first

/-- Spots laid out, given the character before them and whether a heading ended there. -/
inductive Laid (commas : CommaStyle) :
    (before : Option Char) → (closed : Bool) → List Edges → List Spot → List Spot → Prop where
  | nil {before : Option Char} {closed : Bool} : Laid commas before closed [] [] []
  | cons {before : Option Char} {closed : Bool} {e : Edges} {es : List Edges} {a b : Spot}
      {as bs : List Spot} (small : b.piece.small = a.piece.small)
      (gap : ∀ c ∈ before, b.gap = gapBefore commas closed e c a)
      (rest : Laid commas a.last e.closes es as bs) : Laid commas before closed (e :: es) (a :: as) (b :: bs)

theorem toLower_of_foldLetter {c : Char} (h : foldLetter c = 'O' ∨ foldLetter c = 'N') :
    c.toLower = (foldLetter c).toLower := by
  by_cases hc : c.toNat < 128
  · exact ascii_induction
      (P := fun c => foldLetter c = 'O' ∨ foldLetter c = 'N' → c.toLower = (foldLetter c).toLower)
      (by decide) hc h
  · rcases foldLetter_beyond_ascii hc with heq | ⟨hmem, -⟩
    · rw [heq]
    · rcases h with h | h <;> exact absurd (h ▸ hmem) (by decide)

/-- Two words ON are the same but for their case. -/
theorem map_toLower_on {w : Text} (h : fold w = "ON".toList) : w.map Char.toLower = "on".toList := by
  have hletters : ∀ c ∈ w, c.toLower = (foldLetter c).toLower := by
    intro c hc
    have hmem : foldLetter c ∈ "ON".toList := h ▸ List.mem_map_of_mem hc
    exact toLower_of_foldLetter (by simpa using hmem)
  calc w.map Char.toLower = (fold w).map Char.toLower := by
        rw [fold, List.map_map]
        exact List.map_congr_left hletters
    _ = "on".toList := by rw [h]; rfl

theorem Akin.small {a b : Spot} (h : Akin a b) : b.piece.small = a.piece.small := by
  rcases h with h | ⟨w, w', ha, hb, hw, hw'⟩
  · rw [h]
  · rw [ha, hb, Piece.small, Piece.small, map_toLower_on hw, map_toLower_on hw']

theorem laid_flowFrom (m : LetterCase) (commas : CommaStyle) (before : Option Char) (closed said : Bool)
    {es : List Edges} {as : List Spot} (h : es.length = as.length) :
    Laid commas before closed es as (flowFrom m closed said es (regap (.settled commas) before as)) := by
  induction as generalizing before closed said es with
  | nil =>
      obtain rfl := List.length_eq_zero_iff.mp h
      exact .nil
  | cons a as ih =>
      cases es with
      | nil => simp at h
      | cons e es =>
          rw [List.length_cons, List.length_cons, Nat.add_right_cancel_iff] at h
          rw [regap, flowFrom]
          refine .cons (akin_respellIf m _ ⟨_, a.piece⟩ _).small (fun c hc => ?_) (ih _ _ _ h)
          obtain rfl := hc
          rfl

theorem Laid.led {commas : CommaStyle} {closed : Bool} {es : List Edges} {as bs : List Spot}
    (h : Laid commas none closed es as bs) (g : Text) : Laid commas none closed es as (led g bs) := by
  cases h with
  | nil => exact .nil
  | cons small _ rest => exact .cons small (by simp) rest

theorem Laid.level {commas : CommaStyle} {before : Option Char} {closed : Bool} {es : List Edges}
    {as bs cs : List Spot} (h : Laid commas before closed es as bs) (hcs : List.Forall₂ Level cs bs) :
    Laid commas before closed es as cs := by
  induction h generalizing cs with
  | nil =>
      cases hcs
      exact .nil
  | cons small gap rest ih =>
      cases hcs with
      | cons hc hcs =>
          exact .cons (hc.piece_eq.trans small) (fun c hbefore => hc.gap_eq.trans (gap c hbefore)) (ih hcs)

theorem laid_layOut (m : LetterCase) (commas : CommaStyle) {as : List Spot} (h : Clear as) :
    Laid commas none false (phrasesAt Keyword.headings as) as (layOut ⟨m, commas⟩ as) := by
  rw [layOut_eq m commas h]
  refine Laid.level ?_ (level_cased m (h.lined m commas))
  rw [lined, flow_eq]
  exact (laid_flowFrom m commas none false _ (length_phrasesAt Keyword.headings as)).led []

/-! ## Twins of spots -/

/-- The characters of two texts, with what is before the first of them. -/
def twinsOfText (left right : Text) (noted : Bool) : Text → Text → List Twin
  | c :: s, d :: t => ⟨left, c, right, d, noted⟩ :: twinsOfText [] [] noted s t
  | _, _ => []

/-- The characters of spots, noted if they belong to a phrase. -/
def twins : List Edges → List Spot → List Spot → List Twin
  | e :: es, a :: as, b :: bs =>
    twinsOfText a.gap b.gap e.inside a.piece.text b.piece.text ++ twins es as bs
  | _, _, _ => []

section

variable (left right : Text) (noted : Bool) {s t : Text}

theorem lefts_twinsOfText (hlen : s.length = t.length) (hne : s ≠ []) :
    lefts (twinsOfText left right noted s t) = left ++ s := by
  induction s generalizing left right t with
  | nil => exact absurd rfl hne
  | cons c s ih =>
      cases t with
      | nil => simp at hlen
      | cons d t =>
          rw [twinsOfText, lefts_cons]
          cases s with
          | nil => cases t <;> simp_all [twinsOfText]
          | cons c' s =>
              rw [ih [] [] (by simpa using hlen) (by simp)]
              rfl

theorem rights_twinsOfText (hlen : s.length = t.length) (hne : s ≠ []) :
    rights (twinsOfText left right noted s t) = right ++ t := by
  induction s generalizing left right t with
  | nil => exact absurd rfl hne
  | cons c s ih =>
      cases t with
      | nil => simp at hlen
      | cons d t =>
          rw [twinsOfText, rights_cons]
          cases s with
          | nil => cases t <;> simp_all [twinsOfText]
          | cons c' s =>
              rw [ih [] [] (by simpa using hlen) (by simp)]
              rfl

theorem mem_twinsOfText {k : Twin} (h : k ∈ twinsOfText left right noted s t) :
    (k.left = left ∨ k.left = []) ∧ (k.right = right ∨ k.right = []) ∧ k.noted = noted ∧
      (k.char, k.other) ∈ s.zip t := by
  induction s generalizing left right t with
  | nil => simp [twinsOfText] at h
  | cons c s ih =>
      cases t with
      | nil => simp [twinsOfText] at h
      | cons d t =>
          rw [twinsOfText, List.mem_cons] at h
          rcases h with rfl | h
          · exact ⟨.inl rfl, .inl rfl, rfl, by simp⟩
          · obtain ⟨hl, hr, hn, hmem⟩ := ih [] [] h
            exact ⟨.inr (by simpa using hl), .inr (by simpa using hr), hn, by simp [hmem]⟩

theorem head?_twinsOfText {k : Twin} (h : k ∈ (twinsOfText left right noted s t).head?) :
    k.left = left ∧ k.right = right ∧ k.noted = noted ∧ some k.char = s.head? := by
  cases s with
  | nil => simp [twinsOfText] at h
  | cons c s =>
      cases t with
      | nil => simp [twinsOfText] at h
      | cons d t =>
          obtain rfl := Option.some.inj h
          exact ⟨rfl, rfl, rfl, rfl⟩

theorem getLast?_twinsOfText (hlen : s.length = t.length) {k : Twin}
    (h : k ∈ (twinsOfText left right noted s t).getLast?) :
    k.noted = noted ∧ some k.char = s.getLast? := by
  induction s generalizing left right t with
  | nil => simp [twinsOfText] at h
  | cons c s ih =>
      cases t with
      | nil => simp at hlen
      | cons d t =>
          cases s with
          | nil =>
              cases t with
              | nil =>
                  obtain rfl := Option.some.inj h
                  exact ⟨rfl, rfl⟩
              | cons d' t => simp at hlen
          | cons c' s =>
              cases t with
              | nil => simp at hlen
              | cons d' t =>
                  rw [twinsOfText, twinsOfText, List.getLast?_cons_cons, ← twinsOfText] at h
                  rw [List.getLast?_cons_cons]
                  exact ih [] [] (by simpa using hlen) h

theorem mem_twins {es : List Edges} {as bs : List Spot} {k : Twin} (h : k ∈ twins es as bs) :
    ∃ p ∈ es.zip as, k.noted = p.1.inside ∧ k.char ∈ p.2.piece.text := by
  induction es generalizing as bs with
  | nil => simp [twins] at h
  | cons e es ih =>
      cases as with
      | nil => simp [twins] at h
      | cons a as =>
          cases bs with
          | nil => simp [twins] at h
          | cons b bs =>
              rw [twins, List.mem_append] at h
              rcases h with h | h
              · obtain ⟨-, -, hnoted, hmem⟩ := mem_twinsOfText _ _ _ h
                exact ⟨(e, a), by simp, hnoted, (List.of_mem_zip hmem).1⟩
              · obtain ⟨p, hp, hk⟩ := ih h
                exact ⟨p, List.mem_cons_of_mem _ hp, hk⟩

/-- Within a piece neighbors are in one word. -/
theorem isChain_twinsOfText {R : Twin → Twin → Prop}
    (hwithin : ∀ j k : Twin, k.Bare → k.noted = j.noted → isWord j.char = true → isWord k.char = true → R j k)
    (hs : s.length ≤ 1 ∨ ∀ c ∈ s, isWord c = true) :
    (twinsOfText left right noted s t).IsChain R := by
  induction s generalizing left right t with
  | nil => simp [twinsOfText]
  | cons c s ih =>
      cases t with
      | nil => simp [twinsOfText]
      | cons d t =>
          rw [twinsOfText]
          refine List.isChain_cons.mpr ⟨fun k hk => ?_, ih [] [] ?_⟩
          · obtain ⟨hl, hr, hn, hc⟩ := head?_twinsOfText _ _ _ hk
            cases s with
            | nil => simp [twinsOfText] at hk
            | cons c' s =>
                obtain rfl := Option.some.inj hc
                rcases hs with hs | hs
                · simp at hs
                · exact hwithin _ k ⟨hl, hr⟩ hn (hs c (by simp)) (hs k.char (by simp))
          · rcases hs with hs | hs
            · refine .inl ?_
              rw [List.length_cons] at hs
              omega
            · exact .inr fun c' hc' => hs c' (by simp [hc'])

end

theorem Solid.short_or_word {a : Spot} (h : a.Solid) :
    a.piece.text.length ≤ 1 ∨ ∀ c ∈ a.piece.text, isWord c = true := by
  obtain ⟨gap, piece⟩ := a
  cases piece with
  | mark c => exact .inl (by simp [Piece.text])
  | word w => exact .inr h.2.2

theorem map_toLower_text {a b : Spot} (h : b.piece.small = a.piece.small) :
    a.piece.text.map Char.toLower = b.piece.text.map Char.toLower := by
  rw [← Piece.text_small, ← Piece.text_small, h]

theorem length_text {a b : Spot} (h : b.piece.small = a.piece.small) :
    a.piece.text.length = b.piece.text.length := by
  simpa using congrArg List.length (map_toLower_text h)

namespace Laid

variable {commas : CommaStyle} {before : Option Char} {closed : Bool} {es : List Edges}
  {as bs : List Spot} (h : Laid commas before closed es as bs)

include h

theorem lefts_twins (ha : ∀ a ∈ as, a.Solid) : lefts (twins es as bs) = write as := by
  induction h with
  | nil => rfl
  | cons small gap rest ih =>
      rw [List.forall_mem_cons] at ha
      rw [twins, lefts_append, lefts_twinsOfText _ _ _ (length_text small) (text_ne_nil ha.1), ih ha.2]
      rfl

theorem rights_twins (ha : ∀ a ∈ as, a.Solid) : rights (twins es as bs) = write bs := by
  induction h with
  | nil => rfl
  | cons small gap rest ih =>
      rw [List.forall_mem_cons] at ha
      rw [twins, rights_append, rights_twinsOfText _ _ _ (length_text small) (text_ne_nil ha.1), ih ha.2]
      rfl

/-- What is between neighbors, within a piece and between two. -/
theorem isChain_twins {R : Twin → Twin → Prop} (ha : ∀ a ∈ as, a.Solid)
    (hwithin : ∀ j k : Twin, k.Bare → k.noted = j.noted → isWord j.char = true → isWord k.char = true → R j k)
    (hbetween : (es.zip as).IsChain fun p q => ∀ j k : Twin, some j.char = p.2.last →
      j.noted = p.1.inside → some k.char = q.2.first → k.noted = q.1.inside → k.left = q.2.gap →
      k.right = gapBefore commas p.1.closes q.1 j.char q.2 → R j k) :
    (twins es as bs).IsChain R := by
  induction h with
  | nil => exact .nil
  | @cons before closed e es a b as bs small gap rest ih =>
      rw [List.forall_mem_cons] at ha
      rw [List.zip_cons_cons] at hbetween
      rw [twins]
      refine .append (isChain_twinsOfText _ _ _ hwithin ha.1.short_or_word) (ih ha.2 hbetween.tail)
        fun j hj k hk => ?_
      obtain ⟨hjn, hjc⟩ := getLast?_twinsOfText _ _ _ (length_text small) hj
      cases rest with
      | nil => simp [twins] at hk
      | @cons _ _ e' es a' b' as bs small' gap' rest =>
          rw [List.zip_cons_cons, List.isChain_cons_cons] at hbetween
          have hne : twinsOfText a'.gap b'.gap e'.inside a'.piece.text b'.piece.text ≠ [] := by
            intro hnil
            have hlefts := lefts_twinsOfText a'.gap b'.gap e'.inside (length_text small')
              (text_ne_nil (ha.2 a' (by simp)))
            rw [hnil] at hlefts
            exact text_ne_nil (ha.2 a' (by simp)) (List.append_eq_nil_iff.mp hlefts.symm).2
          rw [twins, List.head?_append_of_ne_nil _ hne] at hk
          obtain ⟨hleft, hright, hkn, hkc⟩ := head?_twinsOfText _ _ _ hk
          exact hbetween.1 j k hjc hjn hkc hkn hleft (hright.trans (gap' j.char hjc.symm))

/-- Twins are even, if the characters of the first text are ASCII. -/
theorem even_twins (ha : ∀ a ∈ as, a.Solid) (hb : ∀ b ∈ bs, b.Solid)
    (hascii : ∀ a ∈ as, ∀ c ∈ a.piece.text, c.toNat < 128) : ∀ k ∈ twins es as bs, k.Even := by
  induction h with
  | nil => simp [twins]
  | @cons before closed e es a b as bs small gap rest ih =>
      rw [List.forall_mem_cons] at ha hb hascii
      intro k hk
      rw [twins, List.mem_append] at hk
      rcases hk with hk | hk
      · obtain ⟨hl, hr, -, hmem⟩ := mem_twinsOfText _ _ _ hk
        have hc := (List.of_mem_zip hmem).1
        have hsame : k.char.toLower = k.other.toLower := by
          have hall : List.Forall₂ (fun c d : Char => c.toLower = d.toLower) a.piece.text b.piece.text := by
            have hmap := map_toLower_text small
            rw [← List.forall₂_eq_eq_eq, List.forall₂_map_left_iff, List.forall₂_map_right_iff] at hmap
            exact hmap
          exact List.forall₂_zip hall hmem
        refine ⟨?_, ?_, hascii.1 _ hc, ?_, hsame, isBlank_of_mem_text ha.1 hc⟩
        · rcases hl with hl | hl <;> simp [hl, ha.1.1]
        · rcases hr with hr | hr <;> simp [hr, hb.1.1]
        · by_contra hother
          have hsmall : ∀ c : Char, c.toNat < 128 → c.toLower.toNat < 128 := fun c hc =>
            ascii_induction (P := fun c => c.toLower.toNat < 128) (by decide) hc
          rw [toLower_beyond_ascii hother] at hsame
          exact hother (hsame ▸ hsmall _ (hascii.1 _ hc))
      · exact ih ha.2 hb.2 hascii.2 k hk

end Laid

end Spot

/-! ## Twins of a text and its layout -/

/-- All characters that show are ASCII. -/
def Text.ShowsAscii (s : Text) : Prop :=
  ∀ c ∈ s, isBlank c = false → c.toNat < 128

instance (s : Text) : Decidable s.ShowsAscii :=
  inferInstanceAs (Decidable (∀ c ∈ s, _))

theorem Text.ShowsAscii.familiar {s : Text} (h : s.ShowsAscii) : s.Familiar := by
  have hlookalikes : ∀ c ∈ lookalikes, isBlank c = false ∧ ¬c.toNat < 128 := by decide
  intro c hc hlook
  obtain ⟨hshown, hascii⟩ := hlookalikes c hlook
  exact hascii (h c hc hshown)

/-- The characters of a text and of its layout. -/
def formatTwins (o : Options) (s : Text) : List Twin :=
  Spot.twins (Spot.phrasesAt Keyword.headings (Spot.read s).1) (Spot.read s).1
    (Spot.layOut o.style (Spot.read s).1)

section

variable (o : Options) {s : Text} (h : s.ShowsAscii)

include h

theorem laid_format : Spot.Laid o.style.commas none false
    (Spot.phrasesAt Keyword.headings (Spot.read s).1) (Spot.read s).1
    (Spot.layOut o.style (Spot.read s).1) :=
  Spot.laid_layOut o.style.letterCase o.style.commas (Spot.clear_read h.familiar)

theorem lefts_formatTwins : lefts (formatTwins o s) ++ (Spot.read s).2 = s := by
  rw [formatTwins, (laid_format o h).lefts_twins (Spot.sound_read s).1.solid, Spot.write_read]

theorem rights_formatTwins : rights (formatTwins o s) = format o s := by
  rw [formatTwins, (laid_format o h).rights_twins (Spot.sound_read s).1.solid, format, Spot.layOut_read]

theorem even_formatTwins : ∀ k ∈ formatTwins o s, k.Even := by
  have hclear := Spot.clear_read h.familiar
  refine (laid_format o h).even_twins hclear.solid (hclear.layOut o.style).solid fun a ha c hc => ?_
  refine h c ?_ (Spot.isBlank_of_mem_text (hclear.solid a ha) hc)
  rw [← Spot.write_read s]
  exact List.mem_append_left _ (List.mem_flatMap.mpr ⟨a, ha, List.mem_append_right _ hc⟩)

theorem mem_of_mem_formatTwins {k : Twin} (hk : k ∈ formatTwins o s) : k.char ∈ s := by
  rw [← lefts_formatTwins o h]
  exact List.mem_append_left _ (List.mem_flatMap.mpr ⟨k, hk, by simp⟩)

end

end SqlLayout
