import SqlLayout.Proofs.LooseTokens
import SqlLayout.Proofs.Mismatches
import SqlLayout.Proofs.TwinSpots

/-! # Texts without blanks

A text without blanks has the same tokens as its layout, as long as no span of its own begins in it
and no two marks come together that are one token although the layout parts them. The layout knows
the operators that are made of equals, angle and exclamation signs, and no others.
-/

namespace SqlLayout

open Gaps Pattern Token Twin

/-- Whether a word is a heading of one word. -/
def Piece.isHeading : Piece → Bool
  | word w => Phrase.alone Keyword.headings (some w)
  | mark _ => false

/-- Whether a heading and a mark next to it are one token, or may be. -/
def Piece.sticks : Piece → Piece → Bool
  | mark c, q => leads c && q.isHeading
  | p, mark c => c == ':' && p.isHeading
  | _, _ => false

/-- A text of ASCII characters without blanks, in which no span of its own begins, and nothing is
    parted by the layout that is one token. -/
structure Text.Unspaced (s : Text) : Prop where
  shown : ∀ c ∈ s, c.toNat < 128 ∧ isBlank c = false ∧ delimits c = false
  apart : s.IsChain fun c d => clashes c d = false
  headings : (pieces s).IsChain fun p q => p.sticks q = false

instance (s : Text) : Decidable s.Unspaced :=
  decidable_of_iff ((∀ c ∈ s, c.toNat < 128 ∧ isBlank c = false ∧ delimits c = false) ∧
      s.IsChain (fun c d => clashes c d = false) ∧ (pieces s).IsChain fun p q => p.sticks q = false)
    ⟨fun h => ⟨h.1, h.2.1, h.2.2⟩, fun h => ⟨h.shown, h.apart, h.headings⟩⟩

theorem Text.Unspaced.showsAscii {s : Text} (h : s.Unspaced) : s.ShowsAscii :=
  fun c hc _ => (h.shown c hc).1

theorem eq_nil_of_isAllBlank {g s : Text} (hg : g.isAllBlank = true) (hsub : ∀ c ∈ g, c ∈ s)
    (hs : ∀ c ∈ s, isBlank c = false) : g = [] := by
  rw [List.eq_nil_iff_forall_not_mem]
  intro c hc
  have hblank := Text.isBlank_of_mem hg hc
  rw [hs c (hsub c hc)] at hblank
  exact absurd hblank (by simp)

theorem isChain_and {α : Type*} {R S : α → α → Prop} {l : List α} (hR : l.IsChain R) (hS : l.IsChain S) :
    l.IsChain fun a b => R a b ∧ S a b :=
  List.isChain_iff_forall_rel_of_append_cons_cons.mpr fun _ _ _ _ h =>
    ⟨List.isChain_iff_forall_rel_of_append_cons_cons.mp hR h,
      List.isChain_iff_forall_rel_of_append_cons_cons.mp hS h⟩

/-! ## Spots without gaps -/

namespace Spot

/-- Without gaps no two words are next to each other, so headings are single words. -/
theorem edges_of_gapless (v : List Phrase) (before : Option Text) {as : List Spot}
    (h : ∀ a ∈ as, a.gap = []) :
    edges v before as = as.map fun a => ⟨Phrase.alone v a.word?, Phrase.alone v a.word?⟩ := by
  induction as generalizing before with
  | nil => rfl
  | cons a as ih =>
      rw [List.forall_mem_cons] at h
      have hreach : ∀ (word : Option Text) {b : Spot}, b.gap = [] → reach word b = none := by
        intro word b hb
        simp [reach, hb]
      have hahead : ahead as = none := by
        cases as with
        | nil => rfl
        | cons b as => exact hreach _ (h.2 b (by simp))
      rw [edges, ih _ h.2, hreach before h.1, hahead, Edges.ofWords_loose (by simp) (by simp), List.map_cons]

theorem tight_of_gapless {before : Option Text} {as : List Spot} (h : Sound as)
    (hgap : ∀ a ∈ as, a.gap = []) (hbefore : before.isSome = true → ∀ a ∈ as.head?, a.word? = none) :
    Tight before as := by
  induction as generalizing before with
  | nil => trivial
  | cons a as ih =>
      refine ⟨fun hb ha => ?_, ih h.tail (fun b hb => hgap b (by simp [hb])) fun ha b hb => ?_⟩
      · simp [hbefore hb a rfl] at ha
      · obtain ⟨as, rfl⟩ := List.head?_eq_some_iff.mp hb
        by_contra hword
        exact h.next ha (Option.isSome_iff_ne_none.mpr hword) (hgap b (by simp))

theorem phrasesAt_of_gapless (v : List Phrase) {as : List Spot} (h : Sound as)
    (hgap : ∀ a ∈ as, a.gap = []) :
    phrasesAt v as = as.map fun a => ⟨Phrase.alone v a.word?, Phrase.alone v a.word?⟩ := by
  rw [← edges_eq_phrasesAt v h (tight_of_gapless h hgap (by simp)) rfl, edges_of_gapless v none hgap]

theorem gap_of_unspaced {s : Text} (h : ∀ c ∈ s, isBlank c = false) : ∀ a ∈ (read s).1, a.gap = [] := by
  intro a ha
  refine eq_nil_of_isAllBlank ((sound_read s).1.solid a ha).1 (fun c hc => ?_) h
  rw [← write_read s]
  exact List.mem_append_left _ (List.mem_flatMap.mpr ⟨a, ha, List.mem_append_left _ hc⟩)

theorem tail_of_unspaced {s : Text} (h : ∀ c ∈ s, isBlank c = false) : (read s).2 = [] := by
  refine eq_nil_of_isAllBlank (sound_read s).2 (fun c hc => ?_) h
  rw [← write_read s]
  exact List.mem_append_right _ hc

theorem pieces_of_unspaced {s : Text} (h : ∀ c ∈ s, isBlank c = false) :
    SqlLayout.pieces s = (read s).1.map piece := by
  obtain ⟨hsound, hblank⟩ := sound_read s
  have hpieces : ∀ as : List Spot, (∀ a ∈ as, a.gap = []) → as.flatMap pieces = as.map piece := by
    intro as has
    induction as with
    | nil => rfl
    | cons a as ih =>
        rw [List.forall_mem_cons] at has
        rw [List.flatMap_cons, List.map_cons, ih has.2, pieces, has.1]
        rfl
  rw [← hpieces _ (gap_of_unspaced h)]
  conv_lhs => rw [← write_read s]
  rw [pieces_write hsound hblank, tail_of_unspaced h, List.map_nil, List.append_nil]

/-- Why a gap is before a spot that had none, if the two spots are not parted from what they stick to. -/
theorem gapped_of_gapBefore {commas : CommaStyle} {a b : Spot} {j k : Twin} (ha : a.Solid) (hb : b.Solid)
    (hapart : Apart a b) (hsticks : a.piece.sticks b.piece = false) (hgap : b.gap = [])
    (hj : some j.char = a.last) (hjn : j.noted = Phrase.alone Keyword.headings a.word?)
    (hk : some k.char = b.first) (hkn : k.noted = Phrase.alone Keyword.headings b.word?)
    (hright : k.right = gapBefore commas (Phrase.alone Keyword.headings a.word?)
      ⟨Phrase.alone Keyword.headings b.word?, Phrase.alone Keyword.headings b.word?⟩ j.char b) :
    k.right = [] ∨ Gapped j k := by
  unfold gapBefore at hright
  split at hright
  · -- a heading begins, and the mark before it does not lead one
    rename_i hopens
    refine .inr (.begun (hkn.trans hopens) ?_)
    obtain ⟨g, p⟩ := a
    obtain ⟨g', q⟩ := b
    cases q with
    | mark d => simp at hopens
    | word w =>
        cases p with
        | word w' => exact absurd hgap (hapart rfl rfl)
        | mark c =>
            obtain rfl := Option.some.inj hj
            simp only [Piece.sticks, Piece.isHeading] at hsticks
            simp only [word?_word] at hopens
            simpa [hopens] using hsticks
  · split at hright
    · -- a heading ends, and the mark after it is no colon
      rename_i hopens hcloses
      refine .inr (.ended (hjn.trans hcloses) ?_)
      obtain ⟨g, p⟩ := a
      obtain ⟨g', q⟩ := b
      cases p with
      | mark c => simp at hcloses
      | word w =>
          cases q with
          | word w' => exact absurd hgap (hapart rfl rfl)
          | mark d =>
              obtain rfl := Option.some.inj hk
              simp only [Piece.sticks, Piece.isHeading] at hsticks
              simp only [word?_word] at hcloses
              simpa [hcloses] using hsticks
    · -- the first stage parts operators, commas and closing parentheses from their neighbors
      rw [← hk, hgap] at hright
      unfold Rule.settled at hright
      split at hright
      · rename_i hspaced
        refine .inr ?_
        simp only [spaced] at hspaced
        by_cases hclosed : j.char = ')'
        · exact .closed hclosed
        by_cases hcomma : j.char = ','
        · exact .comma (.inl hcomma)
        by_cases hcomma' : k.char = ','
        · exact .comma (.inr hcomma')
        refine .operator fun hsame => ?_
        simp [hclosed, hcomma, hcomma', hsame] at hspaced
      · exact .inl hright

end Spot

section

variable (o : Options) {s : Text} (h : s.Unspaced)

include h

omit h in
/-- What happens at the spots of a text without blanks. -/
theorem zip_phrasesAt (hshown : ∀ c ∈ s, isBlank c = false) :
    (Spot.phrasesAt Keyword.headings (Spot.read s).1).zip (Spot.read s).1
      = (Spot.read s).1.map fun a => (⟨Phrase.alone Keyword.headings a.word?,
          Phrase.alone Keyword.headings a.word?⟩, a) := by
  rw [Spot.phrasesAt_of_gapless _ (Spot.sound_read s).1 (Spot.gap_of_unspaced hshown),
    List.map_prod_right_eq_zip]

/-- The layout of a text without blanks has gaps for a reason only. -/
theorem isChain_unspaced : (formatTwins o s).IsChain fun j k => k.left = [] ∧
    (k.right = [] ∨ Gapped j k) ∧
      (isWord j.char = true → isWord k.char = true → k.right = [] ∧ k.noted = j.noted) := by
  have hsound := (Spot.sound_read s).1
  have hsolid := hsound.solid
  have hshown : ∀ c ∈ s, isBlank c = false := fun c hc => (h.shown c hc).2.1
  have hgap := Spot.gap_of_unspaced hshown
  refine (laid_format o h.showsAscii).isChain_twins hsolid
    (fun j k hk hnoted _ _ => ⟨hk.1, .inl hk.2, fun _ _ => ⟨hk.2, hnoted⟩⟩) ?_
  have hsticks := h.headings
  rw [Spot.pieces_of_unspaced hshown, List.isChain_map] at hsticks
  rw [zip_phrasesAt hshown, List.isChain_map]
  refine (isChain_and hsound.apart hsticks).imp_of_mem_imp ?_
  rintro a b ha hb ⟨hapart, hstick⟩ j k hj hjn hk hkn hleft hright
  simp only [Edges.inside, Bool.or_self] at hjn hkn
  refine ⟨hleft.trans (hgap b hb), Spot.gapped_of_gapBefore (hsolid a ha) (hsolid b hb) hapart hstick
    (hgap b hb) hj hjn hk hkn hright, fun hword hword' => ?_⟩
  have hwa := Spot.isSome_of_isWord (hsolid a ha) (List.mem_of_mem_getLast? hj.symm) hword
  have hwb := Spot.isSome_of_isWord (hsolid b hb) (List.mem_of_mem_head? hk.symm) hword'
  exact absurd (hgap b hb) (hapart hwa hwb)

omit h in
theorem isNameLetter_of_alone {w : Text} (hw : Phrase.alone Keyword.headings (some w) = true) {c : Char}
    (hc : c ∈ w) (hascii : c.toNat < 128) : isNameLetter c = true := by
  have hwords : ∀ p ∈ Keyword.headings, ∀ w ∈ p.words, ∀ c ∈ w, c ∈ capitals := by decide
  have hcapital : foldLetter c ∈ capitals :=
    hwords _ (List.contains_iff_mem.mp hw) (fold w) (by simp [Phrase.words]) _ (List.mem_map_of_mem hc)
  exact ascii_induction (P := fun c => foldLetter c ∈ capitals → isNameLetter c = true)
    (by set_option maxRecDepth 1024 in decide) hascii hcapital

theorem fit_unspaced : ∀ k ∈ formatTwins o s, Fit k := by
  intro k hk
  obtain ⟨hascii, -, hplain⟩ := h.shown k.char (mem_of_mem_formatTwins o h.showsAscii hk)
  refine ⟨hascii, hplain, fun hnoted => ?_⟩
  obtain ⟨p, hp, hinside, hmem⟩ := Spot.mem_twins hk
  rw [zip_phrasesAt fun c hc => (h.shown c hc).2.1, List.mem_map] at hp
  obtain ⟨⟨g, piece⟩, -, rfl⟩ := hp
  simp only [hnoted, Edges.inside, Bool.or_self] at hinside
  cases piece with
  | mark c => simp at hinside
  | word w => exact isNameLetter_of_alone hinside.symm hmem hascii

theorem left_formatTwins : ∀ k ∈ formatTwins o s, k.left = [] := by
  intro k hk
  refine eq_nil_of_isAllBlank (even_formatTwins o h.showsAscii k hk).left (fun c hc => ?_)
    fun c hc => (h.shown c hc).2.1
  rw [← lefts_formatTwins o h.showsAscii]
  exact List.mem_append_left _ (List.mem_flatMap.mpr ⟨k, hk, List.mem_append_left _ hc⟩)

/-- The characters of the text are those of the twins. -/
theorem map_char_formatTwins : (formatTwins o s).map char = s := by
  have hlefts : ∀ ks : List Twin, (∀ k ∈ ks, k.left = []) → lefts ks = ks.map char := by
    intro ks hks
    induction ks with
    | nil => rfl
    | cons k ks ih =>
        rw [List.forall_mem_cons] at hks
        rw [lefts_cons, hks.1, List.map_cons, ih hks.2, List.nil_append]
  have htail := Spot.tail_of_unspaced fun c hc => (h.shown c hc).2.1
  rw [← hlefts _ (left_formatTwins o h), ← List.append_nil (lefts _), ← htail,
    lefts_formatTwins o h.showsAscii]

theorem aligned_unspaced : Aligned Loose (formatTwins o s) := by
  refine ⟨even_formatTwins o h.showsAscii, fun j ls hls => ?_⟩
  have hfit := fit_unspaced o h
  have hchain := (isChain_unspaced o h).suffix hls
  have hapart := h.apart
  rw [← map_char_formatTwins o h, List.isChain_map] at hapart
  have hclash := hapart.suffix hls
  obtain ⟨hascii, hplain, hnoted⟩ := hfit j (hls.subset (by simp))
  refine ⟨⟨hascii, hplain, hnoted⟩, fun k hk => ?_⟩
  obtain ⟨ls, rfl⟩ := List.head?_eq_some_iff.mp hk
  obtain ⟨hleft, hright, hword⟩ := (List.isChain_cons_cons.mp hchain).1
  refine ⟨hfit k (hls.subset (by simp)), hleft, ?_, (List.isChain_cons_cons.mp hclash).1, hword⟩
  refine hright.imp_right fun hgap => ?_
  cases hgap with
  | operator h => exact .operator h
  | comma h => exact .comma h
  | closed h => exact .closed h
  | ended h hk => exact .ended h hk
  | begun h hj => exact .begun h hj

end

/-! ## Comparisons -/

/-- A text without blanks and its layout have the same tokens, so a comparison tells nothing. The lexer
    may be any that takes the same characters of two texts, of which one has gaps where a layout has
    reason for them. -/
theorem compare_unspaced {ε : Type} {t : Tokenizer ε} {l : Lexer} (hcuts : t.CutsBy l)
    (hsorts : l.Sorts) (hconcur : l.Concur Loose) (o : Options) {s : Text} (h : s.Unspaced) :
    Lexeme.significant (l.cut s) = Lexeme.significant (l.cut (format o s)) ∧
      ∀ found, t.compare s (format o s) = .ok found → found = [] := by
  have hquote : ∀ k ∈ formatTwins o s, isQuote k.char = false := by
    intro k hk
    have hplain := (fit_unspaced o h k hk).plain
    simp only [delimits, spans, Bool.or_eq_false_iff] at hplain
    simp [isQuote, hplain]
  have htold := hconcur.forall₂_cut (P := fun k => k.left = []) hsorts (Spot.sound_read s).2
    (fun _ _ => rfl) (aligned_unspaced o h) hquote (left_formatTwins o h)
  rw [lefts_formatTwins o h.showsAscii, rights_formatTwins o h.showsAscii] at htold
  have heq : Lexeme.significant (l.cut s) = Lexeme.significant (l.cut (format o s)) :=
    List.forall₂_eq_eq_eq ▸ htold.imp fun _ _ hab => hab.eq
  refine ⟨heq, fun found hfound => ?_⟩
  rw [hcuts.compare_ok hfound, ← heq]
  exact Mismatch.between_self 0 _

/-- A text with an operator, a call and a heading, which is laid out on two lines. -/
theorem compare_unspaced_clauses :
    let s : Text := "(f(a)<=.5)from(t)".toList
    s.Unspaced ∧ (tokenize.compare s (format {} s)).toOption = some [] := by
  intro s
  have hunspaced : s.Unspaced := by decide +kernel
  obtain ⟨found, hfound⟩ : ∃ found, tokenize.compare s (format {} s) = .ok found :=
    ⟨[], by decide +kernel⟩
  have hnone := (compare_unspaced tokenize_cutsBy lexer_sorts lexer_concur_loose {} hunspaced).2 found hfound
  rw [hfound, hnone]
  exact ⟨hunspaced, rfl⟩

/-- An assignment is parted by the layout. -/
theorem compare_unspaced_assignment :
    let s : Text := "a:=b".toList
    (∀ c ∈ s, c.toNat < 128 ∧ isBlank c = false ∧ delimits c = false) ∧
      ¬"--".toList <:+: s ∧ ¬"/*".toList <:+: s ∧
      (tokenize.compare s (format {} s)).toOption = some [⟨1, ":=".toList, ":".toList⟩,
        ⟨2, "B".toList, "=".toList⟩, ⟨3, [], "B".toList⟩] := by
  decide +kernel

end SqlLayout
