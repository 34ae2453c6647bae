import SqlLayout.Proofs.Recasing

/-! # Shapes

After the first stage one space stands between words next to each other. What belongs to a phrase
then depends on the shape of the spots only: the words, whatever their letter case, and where marks
stand between them. Changing keywords and settling gaps do not get in each other's way, and keywords
that were changed once stay as they are.
-/

namespace SqlLayout

open Phrase

namespace Phrase

theorem paired_congr (v : List Phrase) {a a' b b' : Option Text} (ha : a.map fold = a'.map fold)
    (hb : b.map fold = b'.map fold) : paired v a b = paired v a' b' := by
  cases a <;> cases a' <;> cases b <;> cases b' <;> simp_all [paired]

theorem alone_congr (v : List Phrase) {a a' : Option Text} (ha : a.map fold = a'.map fold) :
    alone v a = alone v a' := by
  cases a <;> cases a' <;> simp_all [alone]

end Phrase

theorem Edges.ofWords_congr (v : List Phrase) {before before' word word' after after' : Option Text}
    (hb : before.map fold = before'.map fold) (hw : word.map fold = word'.map fold)
    (ha : after.map fold = after'.map fold) :
    ofWords v before word after = ofWords v before' word' after' := by
  simp only [ofWords, paired_congr v hb hw, paired_congr v hw ha, alone_congr v hw]

namespace Gaps

/-- The rule leaves one space between words. -/
def Rule.Singles (rule : Rule) : Prop :=
  ∀ x g y, isWord x = true → isWord y = true → g ≠ [] → rule (some x) g (some y) = [' ']

theorem settled_singles (commas : CommaStyle) : (Rule.settled commas).Singles := by
  intro x g y hx hy hg
  simp [Rule.settled, hg, spaced_plain commas (isPlain_of_isWord hx) (isPlain_of_isWord hy)]

theorem single_singles : Rule.single.Singles := by
  intro x g y _ _ hg
  simp [Rule.single, hg]

theorem single_keepsWords : Rule.single.KeepsWords where
  blank := Rule.single_blank
  whole _ _ _ _ := rfl
  apart x g y hx hy hg := by simp [single_singles x g y hx hy hg]

end Gaps

namespace Spot

/-- One space stands between two words, the first of which may come before the spots. -/
def Tight : (before : Option Text) → List Spot → Prop
  | _, [] => True
  | before, a :: as =>
    (before.isSome = true → a.word?.isSome = true → a.gap = [' ']) ∧ Tight a.word? as

/-- The words of spots, in any letter case, and the places of marks. -/
def shape (as : List Spot) : List (Option Text) :=
  as.map fun a => a.word?.map fold

theorem ahead_of_tight {word : Text} {as : List Spot} (h : Tight (some word) as) :
    ahead as = as.head?.bind word? := by
  cases as with
  | nil => rfl
  | cons a as =>
      cases hw : a.word? with
      | none => simp [ahead, reach, hw]
      | some w =>
          have hgap := h.1 rfl (by simp [hw])
          simp [ahead, reach, hgap, hw]

theorem reach_of_tight {before : Option Text} {a : Spot} {as : List Spot} {word : Text}
    (h : Tight before (a :: as)) (hw : a.word? = some word) : reach before a = before := by
  cases before with
  | none => simp [reach]
  | some b => simp [reach, h.1 rfl (by simp [hw])]

/-- Spots of one shape have phrases at the same places. -/
theorem edges_congr (v : List Phrase) {before before' : Option Text} {as bs : List Spot}
    (ha : Tight before as) (hb : Tight before' bs) (hbefore : before.map fold = before'.map fold)
    (hshape : shape as = shape bs) : edges v before as = edges v before' bs := by
  induction as generalizing before before' bs with
  | nil =>
      cases bs with
      | nil => rfl
      | cons b bs => simp [shape] at hshape
  | cons a as ih =>
      cases bs with
      | nil => simp [shape] at hshape
      | cons b bs =>
          simp only [shape, List.map_cons, List.cons.injEq] at hshape
          obtain ⟨hword, hrest⟩ := hshape
          rw [edges, edges, ih ha.2 hb.2 hword hrest]
          congr 1
          cases hwa : a.word? with
          | none =>
              rw [hwa] at hword
              simp [Option.map_eq_none_iff.mp hword.symm]
          | some w =>
              obtain ⟨w', hwb, -⟩ := Option.map_eq_some_iff.mp (hword.symm.trans (by rw [hwa]; rfl))
              have hwa' := hwa ▸ ha.2
              have hwb' := hwb ▸ hb.2
              rw [reach_of_tight ha hwa, hwb, reach_of_tight hb hwb, ahead_of_tight hwa',
                ahead_of_tight hwb']
              refine Edges.ofWords_congr v hbefore (by rw [← hwa, ← hwb, hword]) ?_
              cases as with
              | nil =>
                  cases bs with
                  | nil => rfl
                  | cons d bs => simp at hrest
              | cons d as =>
                  cases bs with
                  | nil => simp at hrest
                  | cons d' bs =>
                      simp only [List.map_cons, List.cons.injEq] at hrest
                      exact hrest.1

theorem shape_eq_of_map_piece {as bs : List Spot} (h : as.map piece = bs.map piece) :
    shape as = shape bs := by
  have hp : ∀ as : List Spot, shape as
      = (as.map piece).map fun p => (Spot.mk [] p).word?.map fold := by
    intro as
    simp only [shape, List.map_map]
    rfl
  rw [hp, hp, h]

/-! ## Settled spots -/

theorem tight_regap {rule : Gaps.Rule} (hr : rule.Singles) {before : Option Text} {x : Option Char}
    {as : List Spot} (h : Sound as)
    (hx : before.isSome = true → ∃ c, x = some c ∧ isWord c = true)
    (hgap : before.isSome = true → ∀ a ∈ as.head?, a.word?.isSome = true → a.gap ≠ []) :
    Tight before (regap rule x as) := by
  induction as generalizing before x with
  | nil => trivial
  | cons a as ih =>
      refine ⟨fun hb hw => ?_, ih h.tail (fun hw => isWord_last h.head hw) fun hw b hb hwb => ?_⟩
      · obtain ⟨c, rfl, hc⟩ := hx hb
        obtain ⟨d, hd, hdw⟩ := isWord_first h.head hw
        rw [hd]
        exact hr c a.gap d hc hdw (hgap hb a rfl hw)
      · cases as with
        | nil => simp at hb
        | cons d as =>
            simp only [List.head?_cons, Option.mem_def, Option.some.injEq] at hb
            exact hb ▸ h.next hw (hb.symm ▸ hwb)

theorem tight_settle (commas : CommaStyle) {as : List Spot} (h : Sound as) :
    Tight none (settle commas as) :=
  tight_regap (Gaps.settled_singles commas) h (by simp) (by simp)

theorem shape_settle (commas : CommaStyle) (as : List Spot) : shape (settle commas as) = shape as :=
  shape_eq_of_map_piece (map_piece_regap _ _ as)

/-- Spots with one space for every gap that is not empty. -/
def collapse (as : List Spot) : List Spot :=
  regap .single none as

theorem Sound.collapse {as : List Spot} (h : Sound as) : Sound (collapse as) :=
  h.regap Gaps.single_keepsWords none

theorem tight_collapse {as : List Spot} (h : Sound as) : Tight none (collapse as) :=
  tight_regap Gaps.single_singles h (by simp) (by simp)

theorem shape_collapse (as : List Spot) : shape (collapse as) = shape as :=
  shape_eq_of_map_piece (map_piece_regap _ _ as)

theorem collapse_write {as : List Spot} (h : Sound as) {tail : Text} (ht : tail.isAllBlank = true) :
    ∃ tail', tail'.isAllBlank = true ∧
      Spacing.collapse (write as ++ tail) = write (collapse as) ++ tail' := by
  rw [Gaps.collapse_eq, respace_write Gaps.single_keepsWords h ht]
  exact ⟨_, Gaps.Rule.single_blank _ _ _ ht, rfl⟩

/-- What happens at settled spots does not depend on the style of commas. -/
theorem edges_settle (v : List Phrase) (commas : CommaStyle) {as bs : List Spot} (ha : Sound as)
    (hb : Tight none bs) (h : shape as = shape bs) :
    edges v none (settle commas as) = edges v none bs :=
  edges_congr v (tight_settle commas ha) hb rfl ((shape_settle commas as).trans h)

end Spot

/-! ## Settling after recasing -/

namespace Gaps

/-- The first stage does not tell two characters apart. -/
def Alike (x y : Option Char) : Prop :=
  x = y ∨ ∃ c d, x = some c ∧ y = some d ∧ isPlain c = true ∧ isPlain d = true

theorem Alike.refl (x : Option Char) : Alike x x :=
  Or.inl rfl

theorem alike_ends {w w' : Text} (hne : w ≠ []) (hne' : w' ≠ []) (hw : ∀ c ∈ w, isPlain c = true)
    (hw' : ∀ c ∈ w', isPlain c = true) :
    Alike w.head? w'.head? ∧ Alike w.getLast? w'.getLast? :=
  ⟨.inr ⟨_, _, List.head?_eq_some_head hne, List.head?_eq_some_head hne',
      hw _ (List.head_mem _), hw' _ (List.head_mem _)⟩,
    .inr ⟨_, _, List.getLast?_eq_some_getLast hne, List.getLast?_eq_some_getLast hne',
      hw _ (List.getLast_mem _), hw' _ (List.getLast_mem _)⟩⟩

theorem settled_congr (commas : CommaStyle) {x x' y y' : Option Char} (hx : Alike x x')
    (hy : Alike y y') (g : Text) :
    Rule.settled commas x g y = Rule.settled commas x' g y' := by
  have hleft : ∀ {c d} (z : Option Char), isPlain c = true → isPlain d = true →
      spaced commas (some c) (!g.isEmpty) z = spaced commas (some d) (!g.isEmpty) z := by
    intro c d z hc hd
    simp only [isPlain, Bool.not_eq_true', Bool.or_eq_false_iff] at hc hd
    have hne := fun e => ne_of_beq_false (a := c) (b := e)
    have hne' := fun e => ne_of_beq_false (a := d) (b := e)
    cases z <;> simp [spaced, hc, hd, hne, hne']
  have hright : ∀ {c d} (z : Option Char), isPlain c = true → isPlain d = true →
      spaced commas z (!g.isEmpty) (some c) = spaced commas z (!g.isEmpty) (some d) := by
    intro c d z hc hd
    simp only [isPlain, Bool.not_eq_true', Bool.or_eq_false_iff] at hc hd
    have hne := fun e => ne_of_beq_false (a := c) (b := e)
    have hne' := fun e => ne_of_beq_false (a := d) (b := e)
    cases z <;> simp [spaced, hc, hd, hne, hne']
  unfold Rule.settled
  rcases hx with rfl | ⟨c, c', rfl, rfl, hc, hc'⟩ <;>
    rcases hy with rfl | ⟨d, d', rfl, rfl, hd, hd'⟩
  · rfl
  · rw [hright _ hd hd']
  · rw [hleft _ hc hc']
  · rw [hleft _ hc hc', hright _ hd hd']

end Gaps

namespace Spot

open Gaps

theorem regap_append (rule : Rule) (x : Option Char) (as bs : List Spot) :
    regap rule x (as ++ bs) = regap rule x as ++ regap rule (lastChar x as) bs := by
  induction as generalizing x with
  | nil => rfl
  | cons a as ih => simp only [List.cons_append, regap, lastChar, ih]

/-- Pieces of plain characters without blanks are left as they are. -/
theorem regap_plain (commas : CommaStyle) {c : Char} (hc : isPlain c = true) (ps : List Piece)
    (hps : ∀ p ∈ ps, p.text ≠ [] ∧ ∀ d ∈ p.text, isPlain d = true) :
    regap (.settled commas) (some c) (ps.map (Spot.mk [])) = ps.map (Spot.mk []) ∧
      Alike (lastChar (some c) (ps.map (Spot.mk []))) (some c) := by
  induction ps generalizing c with
  | nil => exact ⟨rfl, Alike.refl _⟩
  | cons p ps ih =>
      obtain ⟨hne, hp⟩ := hps p (by simp)
      have hfirst : p.text.head? = some (p.text.head hne) := List.head?_eq_some_head hne
      have hlast : p.text.getLast? = some (p.text.getLast hne) := List.getLast?_eq_some_getLast hne
      have hl := hp _ (List.getLast_mem hne)
      obtain ⟨hrest, hend⟩ := ih hl fun q hq => hps q (by simp [hq])
      simp only [List.map_cons, regap, Spot.first, last, lastChar, hfirst, hlast, hrest]
      refine ⟨?_, ?_⟩
      · simp [Rule.settled, spaced_plain commas hc (hp _ (List.head_mem hne))]
      · rcases hend with hend | ⟨d, d', hd, hd', hpd, hpd'⟩
        · exact Or.inr ⟨_, c, hend, rfl, hl, hc⟩
        · exact Or.inr ⟨d, c, hd, rfl, hpd, hc⟩

theorem plain_of_mem_pieces {t : Text} (ht : ∀ d ∈ t, isPlain d = true) {p : Piece}
    (hp : p ∈ SqlLayout.pieces t) : p.text ≠ [] ∧ ∀ d ∈ p.text, isPlain d = true := by
  have hparted : ∀ {ps}, Piece.Parted ps → ∀ p ∈ ps, p.text ≠ [] := by
    intro ps h
    induction h with
    | nil => simp
    | mark hc h ih => simpa [Piece.text] using ih
    | word hne hw hps h ih => simpa [Piece.text, hne] using ih
  refine ⟨hparted (pieces_parted t) p hp, fun d hd => ht d ?_⟩
  rw [← spell_pieces t]
  exact List.mem_flatMap.mpr ⟨p, hp, hd⟩

/-- A changed word is settled like the word. -/
theorem regap_respell (commas : CommaStyle) (m : LetterCase) {w : Text} (hne : w ≠ [])
    (hw : ∀ c ∈ w, c ∈ letters) {x x' : Option Char} (hx : Alike x x') (g : Text) :
    regap (.settled commas) x (respell g (m.apply w))
        = respell (Rule.settled commas x' g w.head?) (m.apply w) ∧
      Alike (lastChar x (respell g (m.apply w))) w.getLast? := by
  have hplain : ∀ d ∈ m.apply w, isPlain d = true :=
    fun d hd => (isPlain_of_mem_letters (LetterCase.mem_apply hw hd).1).1
  have hwp : ∀ c ∈ w, isPlain c = true := fun c hc => (isPlain_of_mem_letters (Or.inl (hw c hc))).1
  obtain ⟨f, ps, hp, -⟩ := respell_eq (m := m) hne hw g
  have hpieces := fun p (h : p ∈ SqlLayout.pieces (m.apply w)) => plain_of_mem_pieces hplain h
  rw [hp] at hpieces
  obtain ⟨hfne, hf⟩ := hpieces (.word f) (by simp)
  have hfirst : f.head? = some (f.head hfne) := List.head?_eq_some_head hfne
  have hlast : f.getLast? = some (f.getLast hfne) := List.getLast?_eq_some_getLast hfne
  have hl := hf _ (List.getLast_mem hfne)
  obtain ⟨hrest, hend⟩ := regap_plain commas hl ps
    fun p hp => hpieces p (List.mem_cons_of_mem _ hp)
  simp only [Piece.text] at hrest hend
  have hwfirst : w.head? = some (w.head hne) := List.head?_eq_some_head hne
  have hwlast : w.getLast? = some (w.getLast hne) := List.getLast?_eq_some_getLast hne
  simp only [respell, hp, regap, lastChar, Spot.first, last, Piece.text, hlast, hrest]
  refine ⟨?_, ?_⟩
  · have hlike : Alike f.head? w.head? :=
      Or.inr ⟨_, _, hfirst, hwfirst, hf _ (List.head_mem hfne), hwp _ (List.head_mem hne)⟩
    rw [settled_congr commas hx hlike]
  · rw [hwlast]
    rcases hend with hend | ⟨d, d', hd, hd', hpd, -⟩
    · exact Or.inr ⟨_, _, hend, rfl, hl, hwp _ (List.getLast_mem hne)⟩
    · exact Or.inr ⟨d, _, hd, rfl, hpd, hwp _ (List.getLast_mem hne)⟩

/-- Gaps can be settled before keywords are changed, or after. -/
theorem regap_recaseWith (commas : CommaStyle) (m : LetterCase) {x x' : Option Char}
    (hx : Alike x x') {es : List Edges} {as : List Spot} (hf : List.Forall₂ Fits es as) :
    regap (.settled commas) x (recaseWith m es as)
      = recaseWith m es (regap (.settled commas) x' as) := by
  induction hf generalizing x x' with
  | nil => rfl
  | @cons e a es as hfa hf ih =>
      simp only [recaseWith, regap, regap_append]
      cases he : e.inside with
      | false =>
          simp only [recaseAt_of_not_inside m he, regap, lastChar, ih (Alike.refl _),
            settled_congr commas hx (Alike.refl _)]
      | true =>
          obtain ⟨g, piece⟩ := a
          cases piece with
          | mark c =>
              simp only [recaseAt, regap, lastChar, ih (Alike.refl _),
                settled_congr commas hx (Alike.refl _)]
          | word w =>
              obtain ⟨hne, hw⟩ := hfa he w rfl
              obtain ⟨hr, hend⟩ := regap_respell commas m hne hw hx g
              simp only [recaseAt, he, if_true, hr, ih hend, Spot.first, last, Piece.text]

theorem settle_recase (commas : CommaStyle) (m : LetterCase) {as : List Spot} (h : Sound as)
    (ht : Tight none as) : settle commas (recase m as) = recase m (settle commas as) := by
  rw [recase, recase, edges_settle _ commas h ht rfl, settle, settle,
    regap_recaseWith commas m (Alike.refl none) (edges_fit Keyword.all_spelled none h.solid)]

end Spot

end SqlLayout
