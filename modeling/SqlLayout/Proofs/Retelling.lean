import SqlLayout.Proofs.Flowing
import SqlLayout.Proofs.Occurrences

/-! # Pieces written anew

All stages together write every piece anew, character by character, after a new gap. Only the letters
of keywords and of the word ON change, and a keyword that is torn at a dot gets no gaps inside.
-/

namespace SqlLayout

open Phrase

/-! ## The word ON in a letter case -/

namespace LetterCase

/-- A letter of the word ON, as it is written in a join clause. -/
def onChar : LetterCase → Char → Text
  | .lower => lowerChar
  | _ => upperChar

theorem onChar_of_letters : ∀ c ∈ letters,
    (foldLetter c = 'O' → upperChar c = ['O'] ∧ lowerChar c = ['o']) ∧
      (foldLetter c = 'N' → upperChar c = ['N'] ∧ lowerChar c = ['n']) := by
  decide

theorem flatMap_onChar (m : LetterCase) {w : Text} (h : fold w = "ON".toList) :
    w.flatMap m.onChar = Assembly.onWord m := by
  have hlen := congrArg List.length h
  match w, hlen with
  | [a, b], _ =>
      obtain ⟨ha, hb⟩ : foldLetter a = 'O' ∧ foldLetter b = 'N' := by simpa [fold] using h
      have ha' := (onChar_of_letters a (mem_letters (by rw [ha]; decide))).1 ha
      have hb' := (onChar_of_letters b (mem_letters (by rw [hb]; decide))).2 hb
      cases m <;> simp [onChar, ha', hb', Assembly.onWord]

/-- A word ON whose letters are in a letter case is written so already. -/
theorem onWord_of_applied {m : LetterCase} (hm : m ≠ .preserve) {w : Text}
    (h : fold w = "ON".toList) (hw : ∀ c ∈ w, m.applyChar c = [c]) : Assembly.onWord m = w := by
  have hchar : m.onChar = m.applyChar := by
    cases m with
    | upper => rfl
    | lower => rfl
    | preserve => exact absurd rfl hm
  rw [← flatMap_onChar m h, hchar, ← apply_eq, apply_of_forall hw]

theorem applyChar_kinds (m : LetterCase) :
    (∀ c, m.applyChar c = [c]) ∨ m.applyChar = upperChar ∨ m.applyChar = lowerChar := by
  cases m with
  | upper => exact Or.inr (Or.inl rfl)
  | lower => exact Or.inr (Or.inr rfl)
  | preserve => exact Or.inl fun _ => rfl

end LetterCase

namespace Keyword

theorem mem_all_of_mem_headings : ∀ p ∈ headings, p ∈ all := by decide

end Keyword

/-! ## Pieces written anew -/

namespace Piece

/-- Whether a piece is a word. -/
def isWord : Piece → Bool
  | word _ => true
  | mark _ => false

end Piece

/-- Pieces are written anew character by character, after new gaps. `k` characters come before them,
    and `joined` says that a word comes right before them. A character may only change where its
    number has the property. -/
inductive Retold (P : Nat → Prop) : (k : Nat) → (joined : Bool) → List Piece → Text → Prop where
  | nil {k : Nat} {joined : Bool} : Retold P k joined [] []
  | cons {k : Nat} {joined : Bool} {p : Piece} {ps : List Piece} {g t : Text} {f : Char → Text}
      (blank : g.isAllBlank = true) (apart : joined = true → p.isWord = true → g ≠ [])
      (shown : ∀ c ∈ p.text, f c ≠ [] ∧ ∀ d ∈ f c, isBlank d = false)
      (kept : (∀ c ∈ p.text, f c = [c]) ∨
        (∀ j < p.text.length, P (k + j)) ∧ (f = upperChar ∨ f = lowerChar))
      (rest : Retold P (k + p.text.length) p.isWord ps t) :
      Retold P k joined (p :: ps) (g ++ p.text.flatMap f ++ t)

/-- The first gap may be dropped. -/
theorem Retold.led {P : Nat → Prop} {k : Nat} {joined : Bool} {ps : List Piece} {t : Text}
    (h : Retold P k joined ps t) (hps : ∀ p ∈ ps, p.text ≠ []) :
    Retold P k false ps (t.dropWhile isBlank) := by
  cases h with
  | nil => exact .nil
  | @cons _ _ p ps g t f blank apart shown kept rest =>
      have hdrop : (g ++ p.text.flatMap f ++ t).dropWhile isBlank = [] ++ p.text.flatMap f ++ t := by
        obtain ⟨c, cs, hc⟩ := List.exists_cons_of_ne_nil (hps p (by simp))
        obtain ⟨hne, hall⟩ := shown c (by simp [hc])
        obtain ⟨d, ds, hd⟩ := List.exists_cons_of_ne_nil hne
        rw [List.append_assoc, Text.dropWhile_isBlank_append blank, hc, List.flatMap_cons, hd]
        exact Text.dropWhile_isBlank_cons (hall d (by simp [hd])) _
      rw [hdrop]
      exact .cons rfl (by simp) shown kept rest

namespace Spot

theorem isSome_word? (a : Spot) : a.word?.isSome = a.piece.isWord := by
  obtain ⟨g, piece⟩ := a
  cases piece <;> rfl

/-- What is left of a torn keyword is no part of a heading. -/
theorem not_inside_of_torn (before after : Option Text) {a : Spot}
    (h : ∀ w, a.word? = some w → ∀ p ∈ Keyword.all, fold w ∉ p.words) :
    (Edges.ofWords Keyword.headings before a.word? after).opens = false ∧
      (Edges.ofWords Keyword.headings before a.word? after).closes = false := by
  have hin : (Edges.ofWords Keyword.headings before a.word? after).inside = false := by
    rw [Bool.eq_false_iff]
    intro hin
    cases hw : a.word? with
    | none => simp [hw, Edges.inside] at hin
    | some w =>
        obtain ⟨p, hp, hmem⟩ := mem_words_of_inside (hw ▸ hin)
        exact h w hw p (Keyword.mem_all_of_mem_headings p hp) hmem
  simpa [Edges.inside] using hin

/-- The pieces of a torn keyword stay next to each other. -/
theorem flowFrom_torn (m : LetterCase) (said : Bool) (before : Option Text) (ps : List Piece)
    (rest : List Spot)
    (htorn : ∀ l, .word l ∈ ps → ∀ p ∈ Keyword.all, fold l ∉ p.words)
    (hon : ∀ p ∈ ps, ∀ g, (respellIf m said ⟨g, p⟩).piece = p) :
    ∃ before',
      write (flowFrom m false said (edges Keyword.headings before (ps.map (Spot.mk []) ++ rest))
          (ps.map (Spot.mk []) ++ rest))
        = spell ps ++ write (flowFrom m false said (edges Keyword.headings before' rest) rest) := by
  induction ps generalizing before with
  | nil => exact ⟨before, rfl⟩
  | cons p ps ih =>
      obtain ⟨before', ih⟩ := ih (Spot.mk [] p).word? (fun l hl => htorn l (by simp [hl]))
        fun q hq => hon q (by simp [hq])
      refine ⟨before', ?_⟩
      have hp : ∀ w, (Spot.mk [] p).word? = some w → ∀ q ∈ Keyword.all, fold w ∉ q.words := by
        intro w hw
        cases p with
        | mark c => simp at hw
        | word l =>
            simp only [word?_word, Option.some.injEq] at hw
            exact hw ▸ htorn l (by simp)
      have hcalm := fun after => not_inside_of_torn (reach before ⟨[], p⟩) after hp
      simp only [List.map_cons, List.cons_append, edges, flowFrom, hcalm, Bool.false_eq_true, if_false,
        write_cons, ih, text, hon p (by simp), List.nil_append]
      simp [spell]

/-- After the first piece of a torn keyword the others follow without gaps. -/
theorem flowFrom_respelled (m : LetterCase) (said : Bool) (before : Option Text) {w f : Text}
    {ps : List Piece} (rest : List Spot) (hne : w ≠ []) (hw : ∀ c ∈ w, c ∈ letters)
    (hword : ∃ p ∈ Keyword.all, fold w ∈ p.words)
    (hp : SqlLayout.pieces (m.apply w) = .word f :: ps)
    (hon : ∀ p ∈ ps, ∀ g, (respellIf m said ⟨g, p⟩).piece = p) :
    ∃ before' closed', write (flowFrom m
        (Edges.ofWords Keyword.headings before (some f) (ahead (ps.map (Spot.mk []) ++ rest))).closes said
        (edges Keyword.headings (some f) (ps.map (Spot.mk []) ++ rest)) (ps.map (Spot.mk []) ++ rest))
      = spell ps ++ write (flowFrom m closed' said (edges Keyword.headings before' rest) rest) := by
  have htorn := pieces_keyword m hne hw hword
  rw [hp] at htorn
  rcases htorn with ⟨f', hf', -⟩ | htorn
  · obtain ⟨-, rfl⟩ : f = f' ∧ ps = [] := by simpa using hf'
    exact ⟨_, _, rfl⟩
  · have hfirst : ∀ l, word? ⟨[], .word f⟩ = some l → ∀ p ∈ Keyword.all, fold l ∉ p.words := by
      intro l hl
      obtain rfl : f = l := by simpa using hl
      exact htorn f (by simp)
    have hcalm := not_inside_of_torn before (ahead (ps.map (Spot.mk []) ++ rest)) hfirst
    rw [word?_word] at hcalm
    rw [hcalm.2]
    obtain ⟨before', h⟩ := flowFrom_torn m said (some f) ps rest (fun l hl => htorn l (by simp [hl])) hon
    exact ⟨before', false, h⟩

/-! ## Gaps of laid out spots -/

/-- The gap before a laid out spot, given whether a heading begins there and whether one ended right
    before it. -/
def gapAt (opens closed : Bool) (a : Spot) : Text :=
  if opens then ['\n'] else if closed then [' '] else a.gap

theorem isAllBlank_gapAt (opens closed : Bool) {a : Spot} (h : a.Solid) :
    (gapAt opens closed a).isAllBlank = true := by
  unfold gapAt
  split
  · rfl
  · split
    · rfl
    · exact h.1

theorem gapAt_ne_nil (opens closed : Bool) {a : Spot} (h : a.gap ≠ []) : gapAt opens closed a ≠ [] := by
  unfold gapAt
  split
  · simp
  · split
    · simp
    · exact h

/-! ## Laying out writes pieces anew -/

theorem applyChar_shown (m : LetterCase) {c : Char} (hc : c ∈ letters) :
    m.applyChar c ≠ [] ∧ ∀ d ∈ m.applyChar c, isBlank d = false := by
  obtain ⟨d, ds, hd, -⟩ := m.applyChar_starts hc
  exact ⟨by simp [hd], fun b hb => (isPlain_of_mem_letters (LetterCase.mem_applyChar hc hb).1).2⟩

theorem letters_of_on {w : Text} (h : fold w = "ON".toList) : ∀ c ∈ w, c ∈ letters := by
  intro c hc
  have hsub : ∀ d ∈ "ON".toList, d ∈ capitals := by decide
  have hmem : foldLetter c ∈ "ON".toList := h ▸ List.mem_map_of_mem hc
  exact mem_letters (hsub _ hmem)

/-- The last stage writes a piece anew only if it is the word ON. -/
theorem text_respellIf (m : LetterCase) (said : Bool) {a : Spot} (h : a.Solid) :
    ∃ f : Char → Text, (respellIf m said a).piece.text = a.piece.text.flatMap f ∧
      (∀ c ∈ a.piece.text, f c ≠ [] ∧ ∀ d ∈ f c, isBlank d = false) ∧
      ((∀ c ∈ a.piece.text, f c = [c]) ∨
        a.word?.map fold = some "ON".toList ∧ (f = upperChar ∨ f = lowerChar)) := by
  have hkept : ∃ f : Char → Text, a.piece.text = a.piece.text.flatMap f ∧
      (∀ c ∈ a.piece.text, f c ≠ [] ∧ ∀ d ∈ f c, isBlank d = false) ∧
      ∀ c ∈ a.piece.text, f c = [c] :=
    ⟨fun c => [c], (List.flatMap_singleton' _).symm,
      fun c hc => ⟨by simp, by simpa using isBlank_of_mem_text h hc⟩, fun _ _ => rfl⟩
  cases said with
  | false =>
      obtain ⟨f, htext, hshown, hf⟩ := hkept
      exact ⟨f, htext, hshown, Or.inl hf⟩
  | true =>
      rcases piece_respellOn m a with hp | ⟨w, hw, hfold, hp⟩
      · obtain ⟨f, htext, hshown, hf⟩ := hkept
        exact ⟨f, by rw [respellIf, if_pos rfl, hp, ← htext], hshown, Or.inl hf⟩
      · obtain ⟨m', hm', hkind⟩ : ∃ m' : LetterCase, m.onChar = m'.applyChar ∧
            (m.onChar = upperChar ∨ m.onChar = lowerChar) := by
          cases m
          · exact ⟨.upper, rfl, Or.inl rfl⟩
          · exact ⟨.lower, rfl, Or.inr rfl⟩
          · exact ⟨.upper, rfl, Or.inl rfl⟩
        refine ⟨m.onChar, ?_, fun c hc => ?_, Or.inr ⟨by rw [word?, hw, Option.map_some, hfold], hkind⟩⟩
        · rw [respellIf, if_pos rfl, hp, hw]
          exact (LetterCase.flatMap_onChar m hfold).symm
        · rw [hm']
          rw [hw] at hc
          exact applyChar_shown m' (letters_of_on hfold c hc)

/-- The last stage leaves what the second stage made of a keyword. -/
theorem respellIf_of_mem_pieces (m : LetterCase) {w : Text} (hw : ∀ c ∈ w, c ∈ letters)
    (hne : w ≠ []) (hword : ∃ p ∈ Keyword.all, fold w ∈ p.words) {p : Piece}
    (hp : p ∈ SqlLayout.pieces (m.apply w)) (said : Bool) (g : Text) :
    (respellIf m said ⟨g, p⟩).piece = p := by
  cases said with
  | false => rfl
  | true =>
      rcases piece_respellOn m ⟨g, p⟩ with h | ⟨l, rfl, hfold, h⟩
      · exact h
      · rw [respellIf, if_pos rfl, h]
        by_cases hm : m = .preserve
        · -- an unchanged keyword is not the word ON
          subst hm
          have hpieces := pieces_append_word (s := []) hne
            (fun c hc => isWord_of_mem_letters c (hw c hc)) rfl
          rw [List.append_nil] at hpieces
          rw [show LetterCase.preserve.apply w = w from rfl, hpieces,
            show SqlLayout.pieces [] = [] from rfl, List.mem_singleton, Piece.word.injEq] at hp
          obtain ⟨q, hq, hmem⟩ := hword
          exact absurd (hfold ▸ hp ▸ hmem) (Keyword.on_not_mem q hq)
        · rw [LetterCase.onWord_of_applied hm hfold fun c hc => ?_]
          refine (LetterCase.mem_apply (w := w) hw ?_).2
          rw [← spell_pieces (m.apply w)]
          exact List.mem_flatMap.mpr ⟨_, hp, hc⟩

/-- Changing keywords and laying out write pieces anew, if the letters of keywords and of the word ON
    may change. -/
theorem retold_flow (m : LetterCase) {P : Nat → Prop} {k : Nat} {es : List Edges} {as : List Spot}
    (hm : Marked P k es as) (hf : List.Forall₂ Fits es as)
    (hk : List.Forall₂ (Keyed Keyword.all) es as) (hs : ∀ a ∈ as, a.Solid) {word : Option Text}
    (ht : Tight word as) (before : Option Text) (closed said : Bool) :
    Retold P k word.isSome (as.map piece)
      (write (flowFrom m closed said (edges Keyword.headings before (recaseWith m es as))
        (recaseWith m es as))) := by
  induction hf generalizing k word before closed said with
  | nil => exact .nil
  | @cons e a es as hfa hf ih =>
      obtain ⟨hka, hk⟩ := List.forall₂_cons.mp hk
      have ih := ih hm.2 hk (fun b hb => hs b (by simp [hb])) ht.2
      rw [isSome_word?] at ih
      have hsolid := hs a (by simp)
      have hblank := fun opens => isAllBlank_gapAt opens closed hsolid
      have hapart : ∀ opens, word.isSome = true → a.piece.isWord = true → gapAt opens closed a ≠ [] := by
        intro opens hw ha
        refine gapAt_ne_nil opens closed ?_
        rw [ht.1 hw (by rw [isSome_word?, ha])]
        simp
      obtain hsame | ⟨he, w, hpiece⟩ : recaseAt m e a = [a] ∨
          (e.inside = true ∧ ∃ w, a.piece = .word w) := by
        cases he : e.inside with
        | false => exact Or.inl (recaseAt_of_not_inside m he a)
        | true =>
            obtain ⟨g, piece⟩ := a
            cases piece with
            | mark c => exact Or.inl rfl
            | word w => exact Or.inr ⟨rfl, w, rfl⟩
      · rw [recaseWith, hsame, List.singleton_append, edges, flowFrom_cons m rfl, write_cons, text]
        obtain ⟨f, htext, hshown, hkept⟩ := text_respellIf m _ hsolid
        rw [htext]
        exact .cons (hblank _) (hapart _) hshown
          (hkept.imp_right fun h => ⟨fun j hj => hm.1 (Or.inr h.1) j hj, h.2⟩) (ih _ _ _)
      · obtain ⟨g, piece⟩ := a
        obtain rfl : piece = .word w := hpiece
        obtain ⟨hne, hw⟩ := hfa he w rfl
        have hword := hka he w rfl
        have hon := fun p hp => respellIf_of_mem_pieces m hw hne hword (p := p) hp
        obtain ⟨f, ps, hp, hr⟩ := respell_eq (m := m) hne hw g
        have hspell := spell_pieces (m.apply w)
        rw [hp] at hspell hon
        simp only [recaseWith, recaseAt, he, if_true, hr, List.cons_append]
        rw [edges, flowFrom_cons m rfl, word?_word]
        generalize (if (Edges.ofWords Keyword.headings _ _ _).opens then _ else said) = said'
        obtain ⟨before', closed', hrest⟩ := flowFrom_respelled m said' (reach before ⟨g, .word f⟩)
          (recaseWith m es as) hne hw hword hp fun p hp g' => hon p (by simp [hp]) said' g'
        have hall : ∀ t u : Text, t ++ f ++ (spell ps ++ u) = t ++ w.flatMap m.applyChar ++ u := by
          intro t u
          rw [← LetterCase.apply_eq, ← hspell]
          simp [spell, Piece.text]
        rw [write_cons, text, hon _ (by simp), hrest, Piece.text, hall]
        refine .cons (hblank _) (hapart _) (fun c hc => applyChar_shown m (hw c hc)) ?_ (ih _ _ _)
        exact (m.applyChar_kinds).imp (fun h c _ => h c) fun h => ⟨fun j hj => hm.1 (Or.inl he) j hj, h⟩

end Spot

end SqlLayout
