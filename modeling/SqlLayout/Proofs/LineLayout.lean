import SqlLayout.Proofs.LineEdges
import SqlLayout.Proofs.Neatness

/-! # Lines of a formatted text

A formatted text has a line for every boundary of the text, and one more if something comes before the
first of them. Every line is neat, and has a boundary at its start only.
-/

namespace SqlLayout

open Phrase

/-! ## Lines of a text -/

/-- The lines of a text, without line feeds; an empty text has none. -/
def linesOf (t : Text) : List Text :=
  if t = [] then [] else t.splitOn '\n'

theorem joinWith_eq (separator : Text) (ls : List Text) :
    Text.joinWith separator ls = separator.intercalate ls := by
  induction ls with
  | nil => rfl
  | cons l ls ih =>
      cases ls with
      | nil => simp [Text.joinWith, List.intercalate]
      | cons k ls => rw [Text.joinWith, ih]; simp [List.intercalate]

/-- The lines of texts under each other are the texts, if these are neat. -/
theorem linesOf_joinWith {ls : List Text} (h : ∀ l ∈ ls, Neat l) :
    linesOf (Text.joinWith ['\n'] ls) = ls := by
  cases ls with
  | nil => rfl
  | cons l ls =>
      have hne : Text.joinWith ['\n'] (l :: ls) ≠ [] := by
        have hl := (h l (by simp)).nonempty
        cases ls with
        | nil => exact hl
        | cons k ls => simp [Text.joinWith, hl]
      rw [linesOf, if_neg hne, joinWith_eq,
        List.splitOn_intercalate '\n' (fun l hl => (h l hl).not_mem_lineFeed) (by simp)]

/-! ## Words that are not torn -/

namespace LetterCase

/-- Without a dotted i, a word of letters stays one word. -/
theorem apply_whole (m : LetterCase) {w : Text} (hw : ∀ c ∈ w, c ∈ letters)
    (hs : ∀ c ∈ w, m.splits c = false) :
    (∀ d ∈ m.apply w, isWord d = true) ∧ fold (m.apply w) = fold w := by
  induction w with
  | nil => rw [apply_nil]; simp
  | cons c w ih =>
      obtain ⟨hword, hfold⟩ := ih (fun d hd => hw d (by simp [hd])) fun d hd => hs d (by simp [hd])
      obtain ⟨d, hd, heq, hfd, -⟩ := m.applyChar_letter c (hw c (by simp)) (hs c (by simp))
      rw [apply_cons, heq, List.singleton_append]
      refine ⟨fun b hb => ?_, ?_⟩
      · rcases List.mem_cons.mp hb with rfl | hb
        · exact isWord_of_mem_letters b hd
        · exact hword b hb
      · rw [show fold (d :: m.apply w) = foldLetter d :: fold (m.apply w) from rfl, hfd, hfold]
        rfl

end LetterCase

namespace Spot

/-- Without a dotted i, a changed word is one spot. -/
theorem respell_whole (m : LetterCase) (g : Text) {w : Text} (hne : w ≠ [])
    (hw : ∀ c ∈ w, c ∈ letters) (hs : ∀ c ∈ w, m.splits c = false) :
    respell g (m.apply w) = [⟨g, .word (m.apply w)⟩] := by
  have hpieces := pieces_append_word (s := []) (apply_ne_nil m hne hw) (m.apply_whole hw hs).1 rfl
  rw [List.append_nil, show SqlLayout.pieces [] = [] from rfl] at hpieces
  simp only [respell, hpieces, List.map_nil]

theorem shape_recaseWith (m : LetterCase) {es : List Edges} {as : List Spot}
    (hf : List.Forall₂ Fits es as) (hs : ∀ a ∈ as, ∀ c ∈ a.piece.text, m.splits c = false) :
    shape (recaseWith m es as) = shape as := by
  induction hf with
  | nil => rfl
  | @cons e a es as hfa hf ih =>
      have ih := ih fun b hb => hs b (by simp [hb])
      have hone : shape (recaseAt m e a) = shape [a] := by
        cases he : e.inside with
        | false => rw [recaseAt_of_not_inside m he]
        | true =>
            obtain ⟨g, piece⟩ := a
            cases piece with
            | mark c => rfl
            | word w =>
                obtain ⟨hne, hw⟩ := hfa he w rfl
                have hwhole := hs ⟨g, .word w⟩ (by simp)
                simp [recaseAt, he, respell_whole m g hne hw hwhole, shape, (m.apply_whole hw hwhole).2]
      have happend : ∀ bs cs : List Spot, shape (bs ++ cs) = shape bs ++ shape cs :=
        fun bs cs => List.map_append
      rw [recaseWith, happend, hone, ih]
      rfl

theorem shape_tidy (style : Style) {as : List Spot} (h : Sound as)
    (hs : ∀ a ∈ as, ∀ c ∈ a.piece.text, style.letterCase.splits c = false) :
    shape (tidy style as) = shape as := by
  have hsettled := h.settle style.commas
  rw [tidy, recase, shape_recaseWith _ (edges_fit Keyword.all_spelled none hsettled.solid),
    shape_settle]
  intro a ha
  have hmem : a.piece ∈ (settle style.commas as).map piece := List.mem_map_of_mem ha
  rw [settle, map_piece_regap] at hmem
  obtain ⟨b, hb, hab⟩ := List.mem_map.mp hmem
  exact hab ▸ hs b hb

theorem tight_tidy (style : Style) {as : List Spot} (h : Sound as) : Tight none (tidy style as) := by
  have hsettled := h.settle style.commas
  have ht := tight_settle style.commas h
  rw [tidy, ← settle_settle style.commas style.commas as, ← settle_recase _ _ hsettled ht]
  exact tight_settle _ (hsettled.recase _)

/-! ## Lines of spots -/

theorem tight_map_respellIf (m : LetterCase) (said : Bool) {before : Option Text} {as : List Spot}
    (h : Tight before as) {before' : Option Text} (hb : before'.isSome = before.isSome) :
    Tight before' (as.map (respellIf m said)) := by
  induction as generalizing before before' with
  | nil => trivial
  | cons a as ih =>
      have hword : (respellIf m said a).word?.isSome = a.word?.isSome :=
        (akin_respellIf m said a (respellIf m said a).gap).isSome_word?.symm
      have hgap : (respellIf m said a).gap = a.gap := by
        cases said with
        | false => rfl
        | true => exact gap_respellOn m a
      refine ⟨fun hb' hw => ?_, ih h.2 hword⟩
      rw [hgap]
      exact h.1 (hb ▸ hb') (hword ▸ hw)

theorem akin_line (m : LetterCase) (as : List Spot) : List.Forall₂ Akin as (line m as) := by
  rw [line_eq]
  generalize as.any mentions = said
  induction as with
  | nil => exact .nil
  | cons a as ih => exact .cons (akin_respellIf m said a _) ih

/-- A line as it is written. -/
def written (m : LetterCase) (l : List Spot) : List Spot :=
  led [] (line m l)

theorem edges_written (v : List Phrase) (m : LetterCase) {l : List Spot} (h : Tight none l) :
    edges v none (written m l) = edges v none l := by
  have ht : Tight none (line m l) := by
    rw [line_eq]
    exact tight_map_respellIf m _ h rfl
  have htw : Tight none (written m l) := by
    rw [written]
    cases hl : line m l with
    | nil => trivial
    | cons a as =>
        rw [hl] at ht
        exact ⟨by simp, ht.2⟩
  exact edges_congr v htw h rfl ((shape_led [] _).trans (shape_akin (akin_line m l)).symm)

theorem format_eq_joinWith (o : Options) {as : List Spot} (h : Sound as) {tail : Text}
    (ht : tail.isAllBlank = true) :
    format o (write as ++ tail) = Text.joinWith ['\n']
      ((lines (edges Keyword.headings none (tidy o.style as)) (tidy o.style as)).map
        fun l => write (written o.style.letterCase l)) := by
  have hne : ∀ l ∈ (lines (edges Keyword.headings none (tidy o.style as)) (tidy o.style as)).map
      (line o.style.letterCase), l ≠ [] := by
    intro k hk
    obtain ⟨l, hl, rfl⟩ := List.mem_map.mp hk
    rw [line_eq]
    simpa using (sound_of_mem_lines (h.tidy o.style) hl).1
  have hjoin := joinWith_write hne
  rw [List.map_map] at hjoin
  rw [format, layOut_write o.style h ht]
  exact hjoin.symm

theorem bounded_write {as : List Spot} (h : Sound as) {tail : Text} (ht : tail.isAllBlank = true) :
    bounded (write as ++ tail) = parts Keyword.headings tail as := by
  rw [bounded_eq, parts_write _ h ht]

theorem scan_headings (as : List Spot) : Scan Keyword.headings none as :=
  scan Keyword.headings_unlinked as none (by simp [reach])

/-- Where no heading is opened but at the first spot, there is no boundary but at the start. -/
theorem isPhrase_of_mem_tail {a : Spot} {as : List Spot} (h : Sound (a :: as)) (hgap : a.gap = [])
    (hes : ∀ e ∈ (edges Keyword.headings none (a :: as)).tail, e.opens = false) :
    ∀ p ∈ (parts Keyword.headings [] (a :: as)).tail, p.isPhrase = false := by
  have hcount := countP_parts Keyword.headings_unlinked [] (scan_headings (a :: as)) h
  obtain ⟨e, es, he⟩ : ∃ e es, edges Keyword.headings none (a :: as) = e :: es := ⟨_, _, rfl⟩
  rw [he] at hes
  have hrest : es.countP Edges.opens = 0 :=
    List.countP_eq_zero.mpr fun e' he' => by simp [hes e' he']
  rw [he, List.countP_cons, hrest] at hcount
  have hnone : ∀ {ps : List Part}, ps.countP Part.isPhrase = 0 → ∀ p ∈ ps, p.isPhrase = false :=
    fun hps p hp => Bool.eq_false_iff.mpr (List.countP_eq_zero.mp hps p hp)
  cases ho : e.opens with
  | true =>
      obtain ⟨q, ps, hparts⟩ := parts_of_opens [] (scan_headings (a :: as)) h hgap (by simp [he, ho])
      rw [hparts, List.countP_cons, if_pos (show Part.isPhrase (.phrase q) = true from rfl),
        if_pos ho] at hcount
      rw [hparts, List.tail_cons]
      exact hnone (by omega)
  | false =>
      intro p hp
      exact hnone (by simpa [ho] using hcount) p (List.mem_of_mem_tail hp)

theorem sound_written (m : LetterCase) {l : List Spot} (h : Sound l) : Sound (written m l) := by
  have hline : ∀ (said : Bool) {as : List Spot}, Sound as → Sound (as.map (respellIf m said)) := by
    intro said as hs
    have hgap : ∀ a, (respellIf m said a).gap = a.gap := by
      intro a
      cases said with
      | false => rfl
      | true => exact gap_respellOn m a
    have hword : ∀ a, (respellIf m said a).word?.isSome = a.word?.isSome :=
      fun a => (akin_respellIf m said a (respellIf m said a).gap).isSome_word?.symm
    refine ⟨fun b hb => ?_, (List.isChain_map _).mpr (hs.apart.imp fun a b hab => ?_)⟩
    · obtain ⟨a, ha, rfl⟩ := List.mem_map.mp hb
      exact solid_respellIf m said (hs.solid a ha) (hgap a ▸ (hs.solid a ha).1)
    · rw [Apart, hword, hword, hgap]
      exact hab
  rw [written, line_eq]
  exact (hline _ h).led rfl

theorem snug_written (m : LetterCase) {l : List Spot} (h : ∀ a ∈ l, a.Snug) :
    ∀ a ∈ written m l, a.Snug := by
  refine snug_led (Or.inl rfl) fun b hb => ?_
  rw [line_eq] at hb
  obtain ⟨a, ha, rfl⟩ := List.mem_map.mp hb
  have hgap : (respellIf m (l.any mentions) a).gap = a.gap := by
    unfold respellIf
    split
    · exact gap_respellOn m a
    · rfl
  rw [Snug, hgap]
  exact h a ha

theorem written_ne_nil (m : LetterCase) {l : List Spot} (h : l ≠ []) :
    ∃ a as, written m l = a :: as ∧ a.gap = [] := by
  obtain ⟨a, as, rfl⟩ := List.exists_cons_of_ne_nil h
  rw [written, line_eq]
  exact ⟨_, _, rfl, rfl⟩

/-- Every line is neat and has a boundary at its start at most. -/
theorem line_written (style : Style) {as : List Spot} (h : Sound as) {l : List Spot}
    (hl : l ∈ lines (edges Keyword.headings none (tidy style as)) (tidy style as)) :
    Neat (write (written style.letterCase l)) ∧
      ∀ p ∈ (bounded (write (written style.letterCase l))).tail, p.isPhrase = false := by
  obtain ⟨hne, hsound⟩ := sound_of_mem_lines (h.tidy style) hl
  have hs := sound_written style.letterCase hsound
  have hsnug := snug_written style.letterCase (snug_of_mem_lines (snug_tidy style as) hl)
  have htight := tight_of_mem_lines (tight_tidy style h) hl
  have hes := (edges_of_mem_lines Keyword.headings_closed (tidy style as)).1 l hl
  rw [← edges_written Keyword.headings style.letterCase htight] at hes
  have hbounded := bounded_write hs (show Text.isAllBlank [] = true from rfl)
  obtain ⟨a, bs, hw, hgap⟩ := written_ne_nil style.letterCase hne
  rw [List.append_nil] at hbounded
  rw [hbounded]
  rw [hw] at hs hsnug hes ⊢
  exact ⟨neat_write hs.solid hsnug hgap, isPhrase_of_mem_tail hs hgap hes⟩

/-- Every line but the first begins with a boundary. -/
theorem boundary_written (style : Style) {as : List Spot} (h : Sound as) {l : List Spot}
    (hl : l ∈ (lines (edges Keyword.headings none (tidy style as)) (tidy style as)).tail) :
    ∃ p ps, bounded (write (written style.letterCase l)) = .phrase p :: ps := by
  obtain ⟨hne, hsound⟩ := sound_of_mem_lines (h.tidy style) (List.mem_of_mem_tail hl)
  have hs := sound_written style.letterCase hsound
  have htight := tight_of_mem_lines (tight_tidy style h) (List.mem_of_mem_tail hl)
  have ho := (edges_of_mem_lines Keyword.headings_closed (tidy style as)).2 l hl
  rw [← edges_written Keyword.headings style.letterCase htight] at ho
  have hbounded := bounded_write hs (show Text.isAllBlank [] = true from rfl)
  obtain ⟨a, bs, hw, hgap⟩ := written_ne_nil style.letterCase hne
  rw [List.append_nil] at hbounded
  rw [hbounded]
  rw [hw] at hs ho ⊢
  exact parts_of_opens [] (scan_headings _) hs hgap ho

/-- The lines of a formatted text are the lines of its spots, each as it is written. -/
theorem linesOf_format (o : Options) {as : List Spot} (h : Sound as) {tail : Text}
    (ht : tail.isAllBlank = true) : linesOf (format o (write as ++ tail))
      = (lines (edges Keyword.headings none (tidy o.style as)) (tidy o.style as)).map
        fun l => write (written o.style.letterCase l) := by
  rw [format_eq_joinWith o h ht]
  apply linesOf_joinWith
  intro t ht
  obtain ⟨l, hl, rfl⟩ := List.mem_map.mp ht
  exact (line_written o.style h hl).1

/-- Every line of a formatted text is written from spots. -/
theorem exists_written (o : Options) (s : Text) {t : Text} (ht : t ∈ linesOf (format o s)) :
    ∃ as l, Sound as ∧ l ∈ lines (edges Keyword.headings none (tidy o.style as)) (tidy o.style as) ∧
      t = write (written o.style.letterCase l) := by
  obtain ⟨hs, hblank⟩ := sound_read s
  rw [← write_read s, linesOf_format o hs hblank] at ht
  obtain ⟨l, hl, rfl⟩ := List.mem_map.mp ht
  exact ⟨(read s).1, l, hs, hl, rfl⟩

/-- Nothing is written only if there is nothing to write. -/
theorem write_layOut_eq_nil (style : Style) {as : List Spot} (h : Sound as)
    (hshape : shape (tidy style as) = shape as) : write (layOut style as) = [] ↔ as.isEmpty = true := by
  have hlen : (layOut style as).length = as.length := by
    have hflow := (akin_flow style.letterCase
      (length_edges Keyword.headings none (tidy style as))).length_eq
    have hlen := congrArg List.length hshape
    simp only [shape, List.length_map] at hlen
    exact hflow.symm.trans hlen
  have hempty : layOut style as = [] ↔ as.isEmpty = true := by
    rw [List.isEmpty_iff, ← List.length_eq_zero_iff, hlen, List.length_eq_zero_iff]
  rw [← hempty]
  constructor
  · exact fun h' => Decidable.byContradiction fun hne => write_ne_nil hne (h.layOut style).solid h'
  · intro h'
    rw [h', write_nil]

end Spot

/-! ## The layout of formatted texts -/

/-- The lines of a formatted text: there are none if the text is blank. They are neat, have no boundary
    but at their start, where all but the first have one, and are as many as the boundaries of the
    text and what comes before them ask for. -/
theorem format_lines (o : Options) (s : Text) (h : '\u0130' ∉ s) :
    (format o s = [] ↔ s.isAllBlank = true) ∧
      (∀ l ∈ linesOf (format o s), Neat l ∧ ∀ p ∈ (bounded l).tail, p.isPhrase = false) ∧
      (∀ l ∈ (linesOf (format o s)).tail, ∃ p ps, bounded l = .phrase p :: ps) ∧
      (linesOf (format o s)).length = (bounded (Spacing.collapse s)).countP Part.isPhrase
        + if (leadText (bounded (Spacing.collapse s))).isAllBlank then 0 else 1 := by
  obtain ⟨hs, ht⟩ := Spot.sound_read s
  have hwrite := Spot.write_read s
  obtain ⟨as, tail, has, htail⟩ : ∃ as tail, (Spot.read s).1 = as ∧ (Spot.read s).2 = tail :=
    ⟨_, _, rfl, rfl⟩
  rw [has] at hs
  rw [htail] at ht
  rw [has, htail] at hwrite
  -- no word is torn, so what is read stays the same through the first two stages
  have hsplits : ∀ a ∈ as, ∀ c ∈ a.piece.text, o.style.letterCase.splits c = false := by
    intro a ha c hc
    rw [LetterCase.splits, decide_eq_false_iff_not]
    rintro ⟨-, rfl⟩
    refine h (hwrite ▸ List.mem_append_left _ (List.mem_flatMap.mpr ⟨a, ha, ?_⟩))
    exact List.mem_append_right _ hc
  have hshape := Spot.shape_tidy o.style hs hsplits
  have htight := Spot.tight_tidy o.style hs
  obtain ⟨tail', ht', hcollapse⟩ := Spot.collapse_write hs ht
  have hedges : Spot.edges Keyword.headings none (Spot.tidy o.style as)
      = Spot.edges Keyword.headings none (Spot.collapse as) :=
    Spot.edges_congr _ htight (Spot.tight_collapse hs) rfl
      (hshape.trans (Spot.shape_collapse as).symm)
  have hformat := Spot.format_eq_joinWith o hs ht
  have hlines : linesOf (format o s)
      = (Spot.lines (Spot.edges Keyword.headings none (Spot.tidy o.style as))
          (Spot.tidy o.style as)).map fun l => Spot.write (Spot.written o.style.letterCase l) := by
    rw [← hwrite, hformat, linesOf_joinWith]
    intro t ht
    obtain ⟨l, hl, rfl⟩ := List.mem_map.mp ht
    exact (Spot.line_written o.style hs hl).1
  refine ⟨?_, fun t ht => ?_, fun t ht => ?_, ?_⟩
  · rw [← hwrite, Spot.isAllBlank_write hs.solid ht, format, Spot.layOut_write o.style hs ht,
      Spot.write_layOut_eq_nil o.style hs hshape]
  · rw [hlines] at ht
    obtain ⟨l, hl, rfl⟩ := List.mem_map.mp ht
    exact Spot.line_written o.style hs hl
  · rw [hlines, ← List.map_tail] at ht
    obtain ⟨l, hl, rfl⟩ := List.mem_map.mp ht
    exact Spot.boundary_written o.style hs hl
  · rw [hlines, List.length_map, Spot.length_lines _ (Spot.length_edges _ _ _), hedges, ← hwrite,
      hcollapse, Spot.bounded_write hs.collapse ht',
      Spot.countP_parts Keyword.headings_unlinked tail' (Spot.scan_headings _) hs.collapse,
      Spot.isAllBlank_leadText Keyword.headings_unlinked ht' (Spot.scan_headings _) hs.collapse]

/-- A text that begins in the middle of a clause has a line more than boundaries. -/
theorem format_lines_join :
    '\u0130' ∉ "a ,b from t left join u on x = y".toList ∧
      (linesOf (format {} "a ,b from t left join u on x = y".toList)).length
        = (bounded (Spacing.collapse "a ,b from t left join u on x = y".toList)).countP Part.isPhrase
          + if (leadText (bounded (Spacing.collapse "a ,b from t left join u on x = y".toList))).isAllBlank
            then 0 else 1 := by
  have h : '\u0130' ∉ "a ,b from t left join u on x = y".toList := by decide
  exact ⟨h, (format_lines {} _ h).2.2.2⟩

end SqlLayout
