import SqlLayout.Proofs.CaseBlindness
import SqlLayout.Proofs.Places

/-! # Commas in lines

With commas that have space behind them, the first stage leaves no space before a comma and one after
it, unless a parenthesis, or another comma before it, says otherwise. Later stages touch one gap only:
after the heading of a line there is always a space.
-/

namespace SqlLayout

open Phrase Gaps

namespace Spot

/-! ## Gaps around commas -/

/-- How a spot stands after another one, where one of the two is a comma. -/
structure CommaGap (a b : Spot) : Prop where
  /-- A comma has no space before it, unless one is put there for what comes before. -/
  before : b.piece = .mark ',' → a.piece ≠ .mark ',' → a.piece ≠ .mark ')' → b.gap = []
  /-- A parenthesis takes the space after a comma. -/
  paren : a.piece = .mark ',' → b.piece = .mark '(' ∨ b.piece = .mark ')' → b.gap = []
  /-- Anything else has a space after a comma. -/
  after : a.piece = .mark ',' → b.piece ≠ .mark '(' → b.piece ≠ .mark ')' → b.gap = [' ']

theorem CommaGap.akin {a a' b b' : Spot} (h : CommaGap a b) (ha : Akin a a') (hb : Akin b b')
    (hgap : b'.gap = b.gap) : CommaGap a' b' := by
  have hmark : ∀ {d d' : Spot}, Akin d d' → ∀ c, d'.piece = .mark c ↔ d.piece = .mark c := by
    rintro d d' (hd | ⟨w, w', hd, hd', -⟩) c
    · rw [hd]
    · rw [hd, hd']
      simp
  constructor
  · rw [hmark hb, hgap, ne_eq, hmark ha, ne_eq, hmark ha]
    exact h.before
  · rw [hmark ha, hmark hb, hmark hb, hgap]
    exact h.paren
  · rw [hmark ha, ne_eq, hmark hb, ne_eq, hmark hb, hgap]
    exact h.after

/-- A character that is in no word tells which mark the piece is. -/
theorem eq_iff_mark {a : Spot} (h : a.Solid) {x c : Char} (hx : x ∈ a.piece.text)
    (hc : isWord c = false) : x = c ↔ a.piece = .mark c := by
  obtain ⟨g, piece⟩ := a
  cases piece with
  | mark d =>
      obtain rfl := List.mem_singleton.mp hx
      rw [Piece.mark.injEq]
  | word w =>
      have hword : isWord x = true := h.2.2 x hx
      constructor
      · rintro rfl
        rw [hc] at hword
        cases hword
      · rintro ⟨⟩

theorem commaGap_of_settled {a b : Spot} (ha : a.Solid) (hb : b.Solid)
    (h : Rule.settled .after a.last b.gap b.first = b.gap) : CommaGap a b := by
  obtain ⟨x, hx⟩ : ∃ x, a.last = some x :=
    ⟨_, List.getLast?_eq_some_getLast (text_ne_nil ha)⟩
  obtain ⟨y, hy⟩ : ∃ y, b.first = some y := ⟨_, List.head?_eq_some_head (text_ne_nil hb)⟩
  have hlast : ∀ {c}, isWord c = false → (x = c ↔ a.piece = .mark c) :=
    eq_iff_mark ha (List.mem_of_getLast? hx)
  have hfirst : ∀ {c}, isWord c = false → (y = c ↔ b.piece = .mark c) :=
    eq_iff_mark hb (List.mem_of_head? hy)
  rw [hx, hy, Rule.settled] at h
  constructor
  · rw [← h, ← hfirst rfl, ne_eq, ← hlast rfl, ne_eq, ← hlast rfl]
    rintro rfl hcomma hparen
    simp [spaced, hcomma, hparen]
  · rw [← h, ← hlast rfl, ← hfirst rfl, ← hfirst rfl]
    rintro rfl (rfl | rfl) <;> simp [spaced]
  · rw [← h, ← hlast rfl, ne_eq, ← hfirst rfl, ne_eq, ← hfirst rfl]
    rintro rfl hopen hclose
    simp [spaced, hopen, hclose]

theorem isChain_of_regap {x : Option Char} {as : List Spot} (hs : ∀ a ∈ as, a.Solid)
    (h : regap (.settled .after) x as = as) : as.IsChain CommaGap := by
  induction as generalizing x with
  | nil => exact .nil
  | cons a as ih =>
      rw [regap] at h
      injection h with _ htail
      refine List.isChain_cons.mpr ⟨?_, ih (fun b hb => hs b (by simp [hb])) htail⟩
      intro b hb
      cases as with
      | nil => cases hb
      | cons d as =>
          obtain rfl : d = b := by simpa using hb
          rw [regap] at htail
          injection htail with hd _
          exact commaGap_of_settled (hs a (by simp)) (hs d (by simp)) (congrArg gap hd)

/-- Keywords that changed stand in the gaps of the first stage. -/
theorem settle_tidy (style : Style) {as : List Spot} (h : Sound as) :
    settle style.commas (tidy style as) = tidy style as := by
  rw [tidy, settle_recase _ _ (h.settle _) (tight_settle _ h), settle_settle]

theorem isChain_tidy {style : Style} (hstyle : style.commas = .after) {as : List Spot}
    (h : Sound as) : (tidy style as).IsChain CommaGap := by
  have hsettle := settle_tidy style h
  rw [hstyle] at hsettle
  exact isChain_of_regap (h.tidy style).solid hsettle

/-! ## Gaps of lines -/

/-- Next to each other stand spots as the first stage puts them, but where a heading closes. -/
def CommaLine : List Edges → List Spot → Prop
  | e :: es, a :: b :: as => (e.closes = false → CommaGap a b) ∧ CommaLine es (b :: as)
  | _, _ => True

namespace CommaLine

theorem led {es : List Edges} {as : List Spot} (h : CommaLine es as) (g : Text) :
    CommaLine es (led g as) := by
  match es, as, h with
  | [], [], _ => trivial
  | [], a :: as, _ => trivial
  | e :: es, [], _ => trivial
  | e :: es, [a], _ => trivial
  | e :: es, a :: b :: as, h => exact ⟨fun hc => ⟨(h.1 hc).before, (h.1 hc).paren, (h.1 hc).after⟩, h.2⟩

theorem map_respellIf {m : LetterCase} {said : Bool} {es : List Edges} {as : List Spot}
    (h : CommaLine es as) : CommaLine es (as.map (respellIf m said)) := by
  have hgap : ∀ a, (respellIf m said a).gap = a.gap := by
    intro a
    cases said with
    | false => rfl
    | true => exact gap_respellOn m a
  induction as generalizing es with
  | nil => cases es <;> trivial
  | cons a as ih =>
      cases es with
      | nil => trivial
      | cons e es =>
          cases as with
          | nil => trivial
          | cons b as =>
              refine ⟨fun hc => ?_, ih h.2⟩
              exact (h.1 hc).akin (akin_respellIf m said a _) (akin_respellIf m said b _) (hgap b)

theorem written {m : LetterCase} {es : List Edges} {l : List Spot} (h : CommaLine es l) :
    CommaLine es (written m l) := by
  rw [Spot.written, line_eq]
  exact h.map_respellIf.led []

/-- What holds of two spots next to each other, where the first does not close a heading. -/
theorem split {es : List Edges} {pre post : List Spot} {a b : Spot}
    (h : CommaLine es (pre ++ a :: b :: post)) (hlen : es.length = (pre ++ a :: b :: post).length) :
    ∃ e, es[pre.length]? = some e ∧ (e.closes = false → CommaGap a b) := by
  induction pre generalizing es with
  | nil =>
      cases es with
      | nil => simp at hlen
      | cons e es => exact ⟨e, rfl, h.1⟩
  | cons d pre ih =>
      cases es with
      | nil => simp at hlen
      | cons e es =>
          have hrest : CommaLine es (pre ++ a :: b :: post) := by
            cases pre with
            | nil => exact h.2
            | cons d' pre => exact h.2
          simpa using ih hrest (by simpa using hlen)

end CommaLine

theorem head_cut (es : List Edges) (as : List Spot) : ∀ b ∈ (cut es as).1.head?, b ∈ as.head? := by
  intro b hb
  match es, as with
  | [], as => simp [cut] at hb
  | e :: es, [] => simp [cut] at hb
  | e :: es, a :: as =>
      rw [cut] at hb
      split at hb <;> simp_all

/-- Cutting keeps the gaps but those after headings. -/
theorem commaLine_cut {v : List Phrase} (hv : Closed v) (before : Option Text) {as : List Spot}
    (h : as.IsChain CommaGap) :
    CommaLine (edges v before (cut (edges v before as) as).1) (cut (edges v before as) as).1 ∧
      ∀ l ∈ (cut (edges v before as) as).2, CommaLine (edges v none l) l := by
  induction as generalizing before with
  | nil => simp [edges, cut, CommaLine]
  | cons a as ih =>
      obtain ⟨hlead, hsections⟩ := ih a.word? h.tail
      have hhead := head_cut (edges v a.word? as) as
      rw [edges, cut]
      obtain ⟨e, he⟩ : ∃ e, Edges.ofWords v (reach before a) a.word? (ahead as) = e := ⟨_, rfl⟩
      obtain ⟨lead, hcut⟩ : ∃ lead, (cut (edges v a.word? as) as).1 = lead := ⟨_, rfl⟩
      rw [hcut] at hlead hhead
      obtain ⟨next, hnext⟩ : ∃ next, (if e.closes then Spot.led [' '] lead else lead) = next := ⟨_, rfl⟩
      obtain ⟨hkept, hopened⟩ := edges_kept hv he hcut hnext
      -- the gap after the spot is the one before cutting, unless a heading closes at the spot
      have hline : CommaLine (e :: edges v a.word? lead) (a :: next) := by
        cases hc : e.closes with
        | true =>
            rw [if_pos hc] at hnext
            have hrest := hlead.led [' ']
            rw [hnext] at hrest
            cases next with
            | nil => trivial
            | cons b next => exact ⟨fun hc' => by simp [hc] at hc', hrest⟩
        | false =>
            rw [if_neg (by simp [hc])] at hnext
            subst hnext
            cases lead with
            | nil => trivial
            | cons b lead => exact ⟨fun _ => (List.isChain_cons.mp h).1 b (hhead b rfl), hlead⟩
      simp only [he, hcut, hnext]
      cases ho : e.opens with
      | true =>
          refine ⟨by simp [edges, CommaLine], fun l hl => ?_⟩
          rcases List.mem_cons.mp hl with rfl | hl
          · rw [hopened ho]
            exact hline
          · exact hsections l hl
      | false =>
          refine ⟨?_, hsections⟩
          rw [if_neg (by simp), hkept]
          exact hline

theorem commaLine_of_mem_lines {v : List Phrase} (hv : Closed v) {as : List Spot}
    (h : as.IsChain CommaGap) : ∀ l ∈ lines (edges v none as) as, CommaLine (edges v none l) l := by
  obtain ⟨hlead, hsections⟩ := commaLine_cut hv none h
  intro l hl
  unfold lines at hl
  split at hl
  · exact hsections l hl
  · rcases List.mem_cons.mp hl with rfl | hl
    · exact hlead
    · exact hsections l hl

/-! ## The heading of a line -/

/-- Where no heading opens, none closes. -/
theorem not_closes_of_not_opens {v : List Phrase} (hv : Unlinked v) {before : Option Text}
    {as : List Spot} (hs : Scan v before as) (h : ∀ e ∈ edges v before as, e.opens = false) :
    ∀ e ∈ edges v before as, e.closes = false := by
  induction hs with
  | nil => simp [edges]
  | @step before a as free loose rest ih =>
      rw [edges, Edges.ofWords_loose free loose, List.forall_mem_cons] at h ⊢
      exact ⟨h.1, ih h.2⟩
  | @pair before g w w' as bound rest ih =>
      have hopens := h (Edges.ofWords v (reach before ⟨g, .word w⟩) (some w) (some w')) (by
        simp [edges, ahead, reach])
      rw [Edges.ofWords_first hv bound] at hopens
      cases hopens

theorem trimRight_write {as : List Spot} (h : ∀ a ∈ as, a.Solid) {g : Text}
    (hg : g.isAllBlank = true) : (write as ++ g).trimRight = write as := by
  rcases List.eq_nil_or_concat as with rfl | ⟨pre, a, rfl⟩
  · exact Text.trimRight_blank hg
  · have hsolid := h a (by simp)
    obtain ⟨t, c, ht⟩ : ∃ t c, a.piece.text = t ++ [c] :=
      ⟨_, _, (List.dropLast_concat_getLast (text_ne_nil hsolid)).symm⟩
    have hc : isBlank c = false := isBlank_of_mem_text hsolid (by simp [ht])
    have hsplit : write (pre.concat a) = write pre ++ a.gap ++ t ++ [c] := by
      simp [text, ht]
    rw [hsplit, List.append_assoc, List.singleton_append, Text.trimRight_append_cons hc,
      Text.trimRight_blank hg]

theorem getLast?_write {pre : List Spot} {a : Spot} (h : a.Solid) :
    (write (pre ++ [a])).getLast? = a.last := by
  obtain ⟨c, hc⟩ : ∃ c, a.last = some c := ⟨_, List.getLast?_eq_some_getLast (text_ne_nil h)⟩
  rw [last] at hc
  simp [text, last, List.getLast?_append, hc]

/-- Where a heading closes on a line that opens no other, the line begins with it. -/
theorem parts_of_closes {v : List Phrase} (hv : Unlinked v) (tail : Text) {pre post : List Spot}
    {a : Spot} (hs : Scan v none (pre ++ a :: post)) (h : Sound (pre ++ a :: post))
    (hgap : ∀ b ∈ (pre ++ a :: post).head?, b.gap = [])
    (hopens : ∀ e ∈ (edges v none (pre ++ a :: post)).tail, e.opens = false) {e : Edges}
    (he : (edges v none (pre ++ a :: post))[pre.length]? = some e) (hcloses : e.closes = true) :
    ∃ ps, parts v tail (pre ++ a :: post) = .phrase (write (pre ++ [a])) :: ps := by
  generalize hl : pre ++ a :: post = l at hs h hgap hopens he ⊢
  -- the spots that are read first are the only ones at which a heading can close
  cases hs with
  | nil => simp at hl
  | @step _ b as free loose rest =>
      rw [edges, List.tail_cons] at hopens
      rw [edges, Edges.ofWords_loose free loose] at he
      cases pre with
      | nil =>
          obtain ⟨rfl, rfl⟩ := List.cons.inj hl
          obtain rfl := Option.some.inj he
          obtain ⟨g, piece⟩ := a
          obtain rfl : g = [] := hgap _ rfl
          cases piece with
          | mark c => cases hcloses
          | word w =>
              refine ⟨parts v tail post, ?_⟩
              rw [parts_word _ _ h loose, ofWord_eq, if_pos (show alone v (some w) = true from hcloses)]
              simp [marks, text, Piece.text]
      | cons d pre =>
          obtain ⟨rfl, rfl⟩ := List.cons.inj hl
          rw [List.length_cons, List.getElem?_cons_succ] at he
          have hnot := not_closes_of_not_opens hv rest hopens e (List.mem_of_getElem? he)
          rw [hcloses] at hnot
          cases hnot
  | @pair _ g w w' as bound rest =>
      rw [edges, edges, List.tail_cons, List.forall_mem_cons] at hopens
      simp only [edges, ahead, word?_word, reach, if_true, Edges.ofWords_first hv bound] at he
      rcases pre with - | ⟨d, - | ⟨d', pre⟩⟩
      · obtain rfl := Option.some.inj he
        cases hcloses
      · obtain ⟨rfl, htail⟩ := List.cons.inj hl
        obtain ⟨rfl, rfl⟩ := List.cons.inj htail
        obtain rfl : g = [] := hgap _ rfl
        refine ⟨parts v tail post, ?_⟩
        rw [parts_pair _ _ _ _ bound]
        simp [marks, text, Piece.text]
      · obtain ⟨rfl, htail⟩ := List.cons.inj hl
        obtain ⟨rfl, rfl⟩ := List.cons.inj htail
        have hnot := not_closes_of_not_opens hv rest hopens.2 e (List.mem_of_getElem? he)
        rw [hcloses] at hnot
        cases hnot

theorem getElem?_edges (v : List Phrase) (before : Option Text) (pre : List Spot) (a : Spot)
    (post : List Spot) : ∃ x y, (edges v before (pre ++ a :: post))[pre.length]?
      = some (Edges.ofWords v x a.word? y) := by
  induction pre generalizing before with
  | nil => exact ⟨_, _, rfl⟩
  | cons d pre ih => exact ih d.word?

end Spot

/-! ## Commas on a line -/

/-- What may follow a comma: nothing, a parenthesis, or one space and something else that shows. -/
inductive FollowsComma : Text → Prop where
  | none : FollowsComma []
  | paren {c : Char} {s : Text} (hc : c = '(' ∨ c = ')') : FollowsComma (c :: s)
  | space {c : Char} {s : Text} (hc : isBlank c = false) (hopen : c ≠ '(') (hclose : c ≠ ')') :
      FollowsComma (' ' :: c :: s)

namespace Spot

/-- The spots of a line: a heading opens at the start only, and the gaps around commas are settled. -/
structure OneLine (as : List Spot) : Prop where
  sound : Sound as
  start : ∀ a ∈ as.head?, a.gap = []
  opens : ∀ e ∈ (edges Keyword.headings none as).tail, e.opens = false
  commas : CommaLine (edges Keyword.headings none as) as

theorem oneLine_written {style : Style} (hstyle : style.commas = .after) {as l : List Spot}
    (h : Sound as) (hl : l ∈ lines (edges Keyword.headings none (tidy style as)) (tidy style as)) :
    OneLine (written style.letterCase l) := by
  obtain ⟨hne, hsound⟩ := sound_of_mem_lines (h.tidy style) hl
  have hedges := edges_written Keyword.headings style.letterCase
    (tight_of_mem_lines (tight_tidy style h) hl)
  obtain ⟨a, bs, hw, hgap⟩ := written_ne_nil style.letterCase hne
  constructor
  · exact sound_written _ hsound
  · simpa [hw] using hgap
  · rw [hedges]
    exact (edges_of_mem_lines Keyword.headings_closed (tidy style as)).1 l hl
  · rw [hedges]
    exact (commaLine_of_mem_lines Keyword.headings_closed (isChain_tidy hstyle h) l hl).written

section

variable {pre post : List Spot} {g : Text} (h : OneLine (pre ++ ⟨g, .mark ','⟩ :: post))

include h

/-- What comes before a comma tells whether there is a space before it. -/
theorem OneLine.gap_comma (hcomma : (write pre).getLast? ≠ some ',')
    (hparen : (write pre).getLast? ≠ some ')')
    (hheading : (parts Keyword.headings [] (pre ++ ⟨g, .mark ','⟩ :: post)).head?
      ≠ some (.phrase (write pre))) : g = [] := by
  rcases List.eq_nil_or_concat pre with rfl | ⟨pre, a, rfl⟩
  · exact h.start _ rfl
  · rw [List.concat_eq_append] at h hcomma hparen hheading
    have hsplit : (pre ++ [a]) ++ ⟨g, .mark ','⟩ :: post = pre ++ a :: ⟨g, .mark ','⟩ :: post := by simp
    have hlast : a.Solid := h.sound.solid a (by simp)
    rw [getLast?_write hlast] at hcomma hparen
    rw [hsplit] at h hheading
    obtain ⟨e, he, hgap⟩ := h.commas.split (length_edges _ _ _)
    cases hc : e.closes with
    | true =>
        obtain ⟨ps, hps⟩ := parts_of_closes Keyword.headings_unlinked [] (scan_headings _) h.sound
          h.start h.opens he hc
        rw [hps] at hheading
        exact absurd rfl hheading
    | false =>
        have hends : ∀ c, a.piece = .mark c → a.last = some c := fun c hmark => by rw [last, hmark]; rfl
        exact (hgap hc).before rfl (mt (hends _) hcomma) (mt (hends _) hparen)

theorem OneLine.follows_comma : FollowsComma (write post) := by
  cases post with
  | nil => exact .none
  | cons b post =>
      have hb : b.Solid := h.sound.solid b (by simp)
      obtain ⟨e, he, hgap⟩ := h.commas.split (length_edges _ _ _)
      obtain ⟨x, y, hxy⟩ := getElem?_edges Keyword.headings none pre ⟨g, .mark ','⟩ (b :: post)
      rw [he, word?_mark, Edges.ofWords_none] at hxy
      obtain rfl := Option.some.inj hxy
      have hcomma := hgap rfl
      obtain ⟨c, cs, htext⟩ := List.exists_cons_of_ne_nil (text_ne_nil hb)
      have hmark : ∀ {d}, isWord d = false → (c = d ↔ b.piece = .mark d) :=
        eq_iff_mark hb (by simp [htext])
      rw [write_cons, text, htext]
      by_cases hparen : c = '(' ∨ c = ')'
      · rw [hcomma.paren rfl (hparen.imp (hmark rfl).mp (hmark rfl).mp)]
        exact .paren hparen
      · rw [not_or] at hparen
        rw [hcomma.after rfl (mt (hmark rfl).mpr hparen.1) (mt (hmark rfl).mpr hparen.2)]
        exact .space (isBlank_of_mem_text hb (by simp [htext])) hparen.1 hparen.2

end

end Spot

/-! ## Lines of text -/

/-- In a formatted text whose commas have space behind them, a comma has no space before it, unless it
    comes after another comma, a closing parenthesis or the heading of its line. After it comes one
    space, or a parenthesis right away. -/
theorem comma_of_format (o : Options) (s : Text) (ho : o.commaPosition ≠ .text "before".toList)
    {l before after : Text} (hl : l ∈ linesOf (format o s)) (hcomma : l = before ++ ',' :: after) :
    (before.trimRight.getLast? ≠ some ',' → before.trimRight.getLast? ≠ some ')' →
        (bounded l).head? ≠ some (.phrase before.trimRight) →
        ∀ c ∈ before.getLast?, isBlank c = false) ∧
      FollowsComma after := by
  have hstyle : o.style.commas = .after := by
    have hcommas := mt CommaStyle.ofSetting_eq_before.mp ho
    rw [Options.style]
    cases hc : CommaStyle.ofSetting o.commaPosition with
    | before => exact absurd hc hcommas
    | after => rfl
  obtain ⟨as, k, has, hk, rfl⟩ := Spot.exists_written o s hl
  have hline := Spot.oneLine_written hstyle has hk
  generalize Spot.written o.style.letterCase k = w at hcomma hline ⊢
  have hblank : Text.isAllBlank [] = true := rfl
  have hbounded := Spot.bounded_write hline.sound hblank
  obtain ⟨pre, g, post, rfl, rfl, rfl⟩ := Spot.spot_of_mark hblank hline.sound.solid
    (by rw [List.append_nil, hcomma]) (by decide) (by decide)
  have hsolid : ∀ a ∈ pre, a.Solid := fun a ha => hline.sound.solid a (by simp [ha])
  have hgap : g.isAllBlank = true := (hline.sound.solid ⟨g, .mark ','⟩ (by simp)).1
  rw [List.append_nil] at hbounded ⊢
  rw [hbounded, Spot.trimRight_write hsolid hgap]
  refine ⟨fun hlast hparen hheading => ?_, hline.follows_comma⟩
  obtain rfl := hline.gap_comma hlast hparen hheading
  rw [List.append_nil]
  intro c hc
  rcases List.eq_nil_or_concat pre with rfl | ⟨pre, a, rfl⟩
  · cases hc
  · have ha := hsolid a (by simp)
    rw [List.concat_eq_append, Spot.getLast?_write ha] at hc
    exact Spot.isBlank_of_mem_text ha (List.mem_of_getLast? hc)

/-- A comma between two columns. -/
theorem comma_of_format_columns :
    let o : Options := { commaPosition := .text "preserve".toList }
    let before : Text := "SELECT f(a) AS x".toList
    o.commaPosition ≠ .text "before".toList ∧
      before ++ ", b".toList ∈ linesOf (format o "select f ( a ) as x ,b".toList) ∧
      (∀ c ∈ before.getLast?, isBlank c = false) ∧ FollowsComma " b".toList := by
  intro o before
  have ho : o.commaPosition ≠ .text "before".toList := by
    intro h
    exact absurd (Setting.text.inj h) (by decide)
  have hl : before ++ ", b".toList ∈ linesOf (format o "select f ( a ) as x ,b".toList) := by
    decide +kernel
  obtain ⟨hbefore, hafter⟩ := comma_of_format o _ ho hl rfl
  exact ⟨ho, hl, hbefore (by decide) (by decide) (by decide +kernel), hafter⟩

/-- A comma between two parentheses has a space before it and none behind. -/
theorem comma_between_parentheses :
    let o : Options := {}
    let before : Text := "SELECT f(a) ".toList
    let l : Text := before ++ ",(b)".toList
    o.commaPosition ≠ .text "before".toList ∧ l ∈ linesOf (format o "select f(a),(b)".toList) ∧
      before.trimRight.getLast? ≠ some ',' ∧ (bounded l).head? ≠ some (.phrase before.trimRight) ∧
      before.getLast? = some ' ' ∧ "(b)".toList.head? ≠ some ' ' := by
  intro o before l
  refine ⟨?_, by decide +kernel, by decide, by decide +kernel, by decide, by decide⟩
  intro h
  exact absurd (Setting.text.inj h) (by decide)

end SqlLayout
