import SqlLayout.Proofs.Recased

/-! # Places of phrases

A place of a text lies inside a phrase if the phrase stands around it as whole words, in any letter
case. Reading from left to right takes one phrase and goes on after it, but it leaves out no place:
no word that ends a phrase of two words begins another, so phrases overlap only where one word of two
is a phrase by itself.
-/

namespace SqlLayout

open Phrase

/-- The character at a place lies inside a phrase that stands in a text as whole words, in any letter
    case. -/
def Inside (phrases : List Text) (s : Text) (i : Nat) : Prop :=
  ∃ before found after, s = before ++ (found ++ after) ∧ fold found ∈ phrases ∧
    Gaps.holds isWord before.getLast? = false ∧ Gaps.holds isWord after.head? = false ∧
    before.length ≤ i ∧ i < before.length + found.length

theorem Inside.mono {phrases phrases' : List Text} (h : ∀ t ∈ phrases, t ∈ phrases') {s : Text}
    {i : Nat} (hi : Inside phrases s i) : Inside phrases' s i := by
  obtain ⟨before, found, after, hs, hfound, hplace⟩ := hi
  exact ⟨before, found, after, hs, h _ hfound, hplace⟩

/-- Only the two ends of a phrase have to be tried. -/
theorem inside_iff_bounds (phrases : List Text) (s : Text) (i : Nat) : Inside phrases s i ↔
    ∃ b < i + 1, ∃ e < s.length + 1, i < e ∧ fold ((s.take e).drop b) ∈ phrases ∧
      Gaps.holds isWord (s.take b).getLast? = false ∧ Gaps.holds isWord (s.drop e).head? = false := by
  constructor
  · rintro ⟨before, found, after, rfl, hfound, hbefore, hafter, hlow, hhigh⟩
    have hend : before.length + found.length < (before ++ (found ++ after)).length + 1 := by
      simp only [List.length_append]
      omega
    refine ⟨before.length, by omega, before.length + found.length, hend, hhigh, ?_, ?_, ?_⟩
    · simpa [List.take_append, List.drop_append] using hfound
    · simpa using hbefore
    · simpa [List.drop_append] using hafter
  · rintro ⟨b, hb, e, he, hie, hfound, hbefore, hafter⟩
    have htake : (s.take e).take b = s.take b := by rw [List.take_take, Nat.min_eq_left (by omega)]
    refine ⟨s.take b, (s.take e).drop b, s.drop e, ?_, hfound, hbefore, hafter, ?_, ?_⟩
    · rw [← List.append_assoc, ← htake, List.take_append_drop, List.take_append_drop]
    · simp only [List.length_take]
      omega
    · simp only [List.length_take, List.length_drop]
      omega

instance (phrases : List Text) (s : Text) (i : Nat) : Decidable (Inside phrases s i) :=
  decidable_of_iff' _ (inside_iff_bounds phrases s i)

namespace Text

theorem takeWhile_isWord {w s : Text} (hw : ∀ c ∈ w, isWord c = true)
    (hs : Gaps.holds isWord s.head? = false) : (w ++ s).takeWhile isWord = w := by
  rw [List.takeWhile_append_of_pos hw]
  cases s with
  | nil => simp
  | cons c s =>
      have hc : ¬isWord c = true := by simpa using hs
      rw [List.takeWhile_cons_of_neg hc, List.append_nil]

theorem mem_of_append_eq {s t u v : Text} {c : Char} (h : s ++ t = u ++ c :: v)
    (hlen : u.length < s.length) : c ∈ s := by
  have hprefix : u ++ [c] <+: s := by
    refine List.prefix_of_prefix_length_le ⟨v, ?_⟩ (List.prefix_append s t) (by simp; omega)
    rw [h, List.append_assoc]
    rfl
  exact hprefix.subset (by simp)

/-- A run of word characters begins after what has none. -/
theorem run_after {u t before found after : Text} (h : u ++ t = before ++ (found ++ after))
    (hu : ∀ c ∈ u, isWord c = false) (hne : found ≠ []) (hfound : ∀ c ∈ found, isWord c = true) :
    u.length ≤ before.length := by
  obtain ⟨f, fs, rfl⟩ := List.exists_cons_of_ne_nil hne
  by_contra hlt
  have hmem : f ∈ u := mem_of_append_eq h (Nat.lt_of_not_le hlt)
  have hf := hfound f (by simp)
  rw [hu f hmem] at hf
  exact absurd hf (by simp)

/-- A run of word characters does not begin inside another one. -/
theorem not_inside_run {u w t before r : Text} (h : u ++ (w ++ t) = before ++ r)
    (hw : ∀ c ∈ w, isWord c = true) (hbefore : Gaps.holds isWord before.getLast? = false)
    (hlen : before.length < u.length + w.length) : before.length ≤ u.length := by
  by_contra hlt
  obtain ⟨d, rfl⟩ : u <+: before :=
    List.prefix_of_prefix_length_le (List.prefix_append u _) ⟨r, h.symm⟩ (by omega)
  rw [List.append_assoc] at h
  obtain ⟨rest, rfl⟩ : d <+: w :=
    List.prefix_of_prefix_length_le ⟨r, (List.append_cancel_left h).symm⟩ (List.prefix_append w t)
      (by simp at hlen; omega)
  obtain ⟨ds, e, rfl⟩ : ∃ ds e, d = ds ++ [e] := by
    rcases List.eq_nil_or_concat d with rfl | ⟨ds, e, rfl⟩
    · simp at hlt
    · exact ⟨ds, e, by simp⟩
  have he := hw e (by simp)
  simp [he] at hbefore

/-- Two runs of word characters that overlap are one, if no word characters are around them. -/
theorem run_unique {u w t before found after : Text} (h : u ++ (w ++ t) = before ++ (found ++ after))
    (hw : ∀ c ∈ w, isWord c = true) (hfound : ∀ c ∈ found, isWord c = true)
    (hu : Gaps.holds isWord u.getLast? = false) (hbefore : Gaps.holds isWord before.getLast? = false)
    (ht : Gaps.holds isWord t.head? = false) (hafter : Gaps.holds isWord after.head? = false)
    (hlen : before.length < u.length + w.length) (hlen' : u.length < before.length + found.length) :
    u = before ∧ w = found ∧ t = after := by
  have hle := not_inside_run h hw hbefore hlen
  have hge := not_inside_run h.symm hfound hu hlen'
  obtain ⟨rfl, hrest⟩ := List.append_inj h (by omega)
  have hrun := takeWhile_isWord hw ht
  rw [hrest, takeWhile_isWord hfound hafter] at hrun
  subst hrun
  exact ⟨rfl, rfl, List.append_cancel_left hrest⟩

end Text

theorem isWord_of_fold {w : Text} (h : ∀ c ∈ fold w, c ∈ capitals) : ∀ c ∈ w, isWord c = true :=
  fun c hc => isWord_of_mem_letters c (mem_letters (h _ (List.mem_map_of_mem hc)))

theorem eq_space_of_foldLetter {c : Char} (h : foldLetter c = ' ') : c = ' ' := by
  by_cases hc : c.toNat < 128
  · exact ascii_induction (P := fun c => foldLetter c = ' ' → c = ' ')
      (by set_option maxRecDepth 1024 in decide) hc h
  · unfold foldLetter at h
    split at h
    · exact absurd h (by decide)
    split at h
    · exact absurd h (by decide)
    split at h
    · exact absurd h (by decide)
    rwa [toUpper_beyond_ascii hc] at h

theorem LetterCase.applyChar_blank (m : LetterCase) {c : Char} (hc : isBlank c = true) :
    m.applyChar c = [c] := by
  have hall : ∀ r ∈ blankRanges, ∀ n ∈ List.range' r.1 (r.2 + 1 - r.1),
      m.applyChar (Char.ofNat n) = [Char.ofNat n] := by
    cases m <;> decide +kernel
  obtain ⟨r, hr, hlow, hhigh⟩ := (inRanges_iff blankRanges c).mp hc
  have h := hall r hr c.toNat (List.mem_range'_1.mpr ⟨hlow, by omega⟩)
  rwa [Char.ofNat_toNat] at h

namespace Keyword

/-- The keywords, as they are spelled in full. -/
def spellings : List Text :=
  all.map Phrase.text

theorem words_ne_nil : ∀ p ∈ all, [] ∉ p.words := by decide

end Keyword

namespace Spot

theorem Sound.right {as bs : List Spot} (h : Sound (as ++ bs)) : Sound bs :=
  ⟨fun b hb => h.solid b (List.mem_append_right as hb), h.apart.right_of_append⟩

/-- Before a word comes no word character. -/
theorem holds_getLast_write {pre post : List Spot} {a : Spot} (h : Sound (pre ++ a :: post))
    (ha : a.word?.isSome = true) : Gaps.holds isWord (write pre ++ a.gap).getLast? = false := by
  have hsolid := h.solid a (by simp)
  rcases List.eq_nil_or_concat a.gap with hgap | ⟨g, c, hgap⟩
  · rcases List.eq_nil_or_concat pre with rfl | ⟨pre, p, rfl⟩
    · simp [hgap]
    · have hapart : Apart p a := by
        have hchain : (pre ++ p :: a :: post).IsChain Apart := by simpa using h.apart
        exact (List.isChain_cons_cons.mp hchain.right_of_append).1
      obtain ⟨gap, piece⟩ := p
      cases piece with
      | word w => exact absurd hgap (hapart rfl ha)
      | mark c =>
          have hc := (h.solid ⟨gap, .mark c⟩ (by simp)).2.1
          simp [hgap, text, Piece.text, hc]
  · have hc : isBlank c = true := Text.isBlank_of_mem hsolid.1 (by simp [hgap])
    simp [hgap, isWord_of_isBlank hc]

theorem lastWord_append (before : Option Text) (as bs : List Spot) :
    lastWord before (as ++ bs) = lastWord (lastWord before as) bs := by
  induction as generalizing before with
  | nil => rfl
  | cons a as ih => exact ih a.word?

/-! ## Words among phrases lie inside of them -/

section

variable {pre post : List Spot} {tail g w w' : Text} {phrases : List Text}

theorem inside_word (ht : tail.isAllBlank = true) (h : Sound (pre ++ ⟨g, .word w⟩ :: post))
    (hw : fold w ∈ phrases) {j : Nat} (hj : j < w.length) :
    Inside phrases (write (pre ++ ⟨g, .word w⟩ :: post) ++ tail) ((write pre ++ g).length + j) := by
  refine ⟨write pre ++ g, w, write post ++ tail, by simp [text, Piece.text], hw,
    holds_getLast_write h rfl, holds_head_write h.right rfl ht, by omega, by omega⟩

theorem inside_pair (ht : tail.isAllBlank = true)
    (h : Sound (pre ++ ⟨g, .word w⟩ :: ⟨[' '], .word w'⟩ :: post))
    (hw : fold w ++ ' ' :: fold w' ∈ phrases) {j : Nat} (hj : j < (w ++ ' ' :: w').length) :
    Inside phrases (write (pre ++ ⟨g, .word w⟩ :: ⟨[' '], .word w'⟩ :: post) ++ tail)
      ((write pre ++ g).length + j) := by
  have hfold : foldLetter ' ' = ' ' := by decide
  refine ⟨write pre ++ g, w ++ ' ' :: w', write post ++ tail, by simp [text, Piece.text], ?_,
    holds_getLast_write h rfl, holds_head_write h.right.tail rfl ht, by omega, by omega⟩
  simpa [fold, hfold] using hw

/-- The letters of a word that belongs to a phrase lie inside of it. -/
theorem inside_of_edges (ht : tail.isAllBlank = true) (h : Sound (pre ++ ⟨g, .word w⟩ :: post))
    {v : List Phrase} (hin : (Edges.ofWords v (reach (lastWord none pre) ⟨g, .word w⟩) (some w)
      (ahead post)).inside = true) {j : Nat} (hj : j < w.length) :
    Inside (v.map Phrase.text) (write (pre ++ ⟨g, .word w⟩ :: post) ++ tail)
      ((write pre ++ g).length + j) := by
  have hpair : ∀ {a b : Text}, paired v (some a) (some b) = true →
      fold a ++ ' ' :: fold b ∈ v.map Phrase.text :=
    fun hab => List.mem_map.mpr ⟨_, List.contains_iff_mem.mp hab, rfl⟩
  rw [Edges.inside_ofWords, Bool.or_eq_true, Bool.or_eq_true] at hin
  rcases hin with (hsecond | hfirst) | halone
  · -- the first word is the last one of the spots before, and a single space away
    unfold reach at hsecond
    split at hsecond
    · next hg =>
        obtain rfl : g = [' '] := hg
        rcases List.eq_nil_or_concat pre with rfl | ⟨pre, ⟨gap, piece⟩, rfl⟩
        · simp [lastWord] at hsecond
        · simp only [List.concat_eq_append, lastWord_append] at h hsecond ⊢
          cases piece with
          | mark c => simp [lastWord] at hsecond
          | word x =>
              have hsound : Sound (pre ++ ⟨gap, .word x⟩ :: ⟨[' '], .word w⟩ :: post) := by simpa using h
              have hinside := inside_pair ht hsound (hpair hsecond) (j := x.length + 1 + j)
                (by simp; omega)
              simpa [text, Piece.text, Nat.add_assoc] using hinside
    · simp at hsecond
  · -- the second word is the next spot
    cases post with
    | nil => simp [ahead] at hfirst
    | cons b post =>
        obtain ⟨gap, piece⟩ := b
        cases piece with
        | mark c => simp [ahead, reach] at hfirst
        | word x =>
            simp only [ahead, reach, word?_word] at hfirst
            split at hfirst
            · next hg =>
                subst hg
                exact inside_pair ht h (hpair hfirst) (by simp; omega)
            · simp at hfirst
  · exact inside_word ht h (List.mem_map.mpr ⟨_, List.contains_iff_mem.mp halone, rfl⟩) hj

end

/-! ## Whole words are spots -/

/-- A run of word characters with none around it is the word of a spot. -/
theorem spot_of_word {tail : Text} (ht : tail.isAllBlank = true) {as : List Spot} (h : Sound as)
    {before found after : Text} (heq : write as ++ tail = before ++ (found ++ after))
    (hne : found ≠ []) (hfound : ∀ c ∈ found, isWord c = true)
    (hbefore : Gaps.holds isWord before.getLast? = false)
    (hafter : Gaps.holds isWord after.head? = false) :
    ∃ pre g post, as = pre ++ ⟨g, .word found⟩ :: post ∧ write pre ++ g = before ∧
      write post ++ tail = after := by
  have hblank : ∀ {g : Text}, g.isAllBlank = true → ∀ c ∈ g, isWord c = false := fun hg c hc =>
    isWord_of_isBlank (Text.isBlank_of_mem hg hc)
  have hlong : 0 < found.length := List.length_pos_iff.mpr hne
  induction as generalizing before with
  | nil =>
      have htail : tail ++ [] = before ++ (found ++ after) := by simpa using heq
      have hlow := Text.run_after htail (hblank ht) hne hfound
      have hlen := congrArg List.length htail
      simp only [List.length_append, List.length_nil] at hlen
      omega
  | cons a as ih =>
      obtain ⟨hgap, hpiece⟩ := h.head
      have hnext := fun ha => holds_head_write h ha ht
      obtain ⟨gap, piece⟩ := a
      simp only [write_cons, text, List.append_assoc] at heq hgap hpiece
      by_cases hlen : gap.length + piece.text.length ≤ before.length
      · -- the run comes after the spot
        obtain ⟨rest, rfl⟩ : gap ++ piece.text <+: before :=
          List.prefix_of_prefix_length_le ⟨write as ++ tail, by rw [List.append_assoc, heq]⟩
            (List.prefix_append before _) (by simpa using hlen)
        have hrest : Gaps.holds isWord rest.getLast? = false := by
          cases rest with
          | nil => rfl
          | cons c cs => simpa [List.getLast?_append, List.getLast?_cons] using hbefore
        have hlater : write as ++ tail = rest ++ (found ++ after) := by simpa using heq
        obtain ⟨pre, g, post, rfl, hpre, hpost⟩ := ih h.tail hlater hrest
        exact ⟨⟨gap, piece⟩ :: pre, g, post, rfl, by simp [text, hpre], hpost⟩
      · -- it begins in the spot, and not in the gap
        cases piece with
        | mark m =>
            have hmark : ∀ c ∈ gap ++ [m], isWord c = false := by
              simpa [or_imp, forall_and] using ⟨hblank hgap, hpiece.1⟩
            have hsplit : (gap ++ [m]) ++ (write as ++ tail) = before ++ (found ++ after) := by
              simpa [Piece.text] using heq
            have hlow := Text.run_after hsplit hmark hne hfound
            exact absurd (by simpa [Piece.text] using hlow) hlen
        | word w =>
            have hstart := Text.run_after heq (hblank hgap) hne hfound
            have hu : Gaps.holds isWord gap.getLast? = false :=
              holds_getLast_write (show Sound ([] ++ ⟨gap, .word w⟩ :: as) from h) rfl
            obtain ⟨rfl, rfl, rfl⟩ := Text.run_unique heq hpiece.2 hfound hu hbefore (hnext rfl) hafter
              (by simpa [Piece.text] using hlen) (by omega)
            exact ⟨[], gap, as, rfl, rfl, rfl⟩

/-- A character of no word that shows is the mark of a spot. -/
theorem spot_of_mark {tail : Text} (ht : tail.isAllBlank = true) {as : List Spot}
    (h : ∀ a ∈ as, a.Solid) {before after : Text} {c : Char}
    (heq : write as ++ tail = before ++ c :: after) (hword : isWord c = false)
    (hblank : isBlank c = false) : ∃ pre g post, as = pre ++ ⟨g, .mark c⟩ :: post ∧
      write pre ++ g = before ∧ write post ++ tail = after := by
  induction as generalizing before with
  | nil =>
      have hmem : c ∈ tail := by
        rw [show tail = before ++ c :: after from heq]
        simp
      rw [Text.isBlank_of_mem ht hmem] at hblank
      cases hblank
  | cons a as ih =>
      obtain ⟨hgap, hpiece⟩ := h a (by simp)
      obtain ⟨gap, piece⟩ := a
      have hout : c ∉ gap := by
        intro hc
        rw [Text.isBlank_of_mem hgap hc] at hblank
        cases hblank
      rw [write_cons, List.append_assoc] at heq
      by_cases hlen : before.length < (text ⟨gap, piece⟩).length
      · -- the character belongs to the spot, and neither to its gap nor to a word
        cases piece with
        | word w =>
            rcases List.mem_append.mp (Text.mem_of_append_eq heq hlen) with hc | hc
            · exact absurd hc hout
            · rw [hpiece.2 c hc] at hword
              cases hword
        | mark d =>
            have hsplit : gap ++ d :: (write as ++ tail) = before ++ c :: after := by
              simpa [text, Piece.text] using heq
            have hle : gap.length ≤ before.length := by
              by_contra hlt
              exact hout (Text.mem_of_append_eq hsplit (Nat.lt_of_not_le hlt))
            have hlast : before.length < gap.length + 1 := by simpa [text, Piece.text] using hlen
            obtain ⟨rfl, hrest⟩ := List.append_inj hsplit (by omega)
            obtain ⟨rfl, hafter⟩ := List.cons.inj hrest
            exact ⟨[], gap, as, rfl, rfl, hafter⟩
      · -- it comes after the spot
        obtain ⟨rest, rfl⟩ : text ⟨gap, piece⟩ <+: before :=
          List.prefix_of_prefix_length_le ⟨write as ++ tail, heq⟩ (List.prefix_append before _)
            (Nat.le_of_not_lt hlen)
        have hlater : write as ++ tail = rest ++ c :: after := by simpa using heq
        obtain ⟨pre, g, post, rfl, hpre, hpost⟩ := ih (fun b hb => h b (by simp [hb])) hlater
        exact ⟨⟨gap, piece⟩ :: pre, g, post, rfl, by simp [hpre], hpost⟩

/-- A place of a text is in one spot only. -/
theorem spot_unique {pre pre' post post' : List Spot} {a a' : Spot} {i : Nat}
    (h : pre ++ a :: post = pre' ++ a' :: post') (hlow : (write pre).length ≤ i)
    (hhigh : i < (write pre).length + a.text.length) (hlow' : (write pre').length ≤ i)
    (hhigh' : i < (write pre').length + a'.text.length) : pre = pre' ∧ a = a' ∧ post = post' := by
  rcases List.append_eq_append_iff.mp h with ⟨as, rfl, hrest⟩ | ⟨as, rfl, hrest⟩
  · cases as with
    | nil => simpa using hrest
    | cons b as =>
        obtain ⟨rfl, -⟩ : a = b ∧ post = as ++ a' :: post' := by simpa using hrest
        simp at hlow'
        omega
  · cases as with
    | nil =>
        obtain ⟨rfl, rfl⟩ : a' = a ∧ post' = post := by simpa using hrest
        simp
    | cons b as =>
        obtain ⟨rfl, -⟩ : a' = b ∧ post' = as ++ a :: post := by simpa using hrest
        simp at hlow
        omega

/-- Two runs of word characters with a space between them are the words of two spots. -/
theorem spots_of_pair {tail : Text} (ht : tail.isAllBlank = true) {as : List Spot} (h : Sound as)
    {before w w' after : Text} (heq : write as ++ tail = before ++ (w ++ ' ' :: (w' ++ after)))
    (hne : w ≠ []) (hw : ∀ c ∈ w, isWord c = true) (hne' : w' ≠ []) (hw' : ∀ c ∈ w', isWord c = true)
    (hbefore : Gaps.holds isWord before.getLast? = false)
    (hafter : Gaps.holds isWord after.head? = false) :
    ∃ pre g post, as = pre ++ ⟨g, .word w⟩ :: ⟨[' '], .word w'⟩ :: post ∧ write pre ++ g = before := by
  have hspace : isWord ' ' = false := by decide
  obtain ⟨pre, g, rest, rfl, hpre, hrest⟩ := spot_of_word ht h heq hne hw hbefore hspace
  have hsecond : write rest ++ tail = [' '] ++ (w' ++ after) := hrest
  obtain ⟨between, g', post, rfl, hbetween, -⟩ :=
    spot_of_word ht h.right.tail hsecond hne' hw' hspace hafter
  cases between with
  | nil =>
      obtain rfl : g' = [' '] := hbetween
      exact ⟨pre, g, post, rfl, hpre⟩
  | cons b between =>
      -- something would show between the words
      have hb := h.right.tail.head
      obtain ⟨c, hc⟩ := List.exists_mem_of_ne_nil _ (text_ne_nil hb)
      have hmem : c ∈ write (b :: between) ++ g' := by simp [text, hc]
      rw [hbetween, List.mem_singleton] at hmem
      have hshow := isBlank_of_mem_text hb hc
      rw [hmem] at hshow
      exact absurd hshow (by decide)

/-! ## The places inside phrases -/

section

variable {pre post : List Spot} {a : Spot} {tail before w w' after : Text} {i : Nat}

/-- A place in a word that is a phrase belongs to it. -/
theorem edges_of_word (ht : tail.isAllBlank = true) (h : Sound (pre ++ a :: post)) {v : List Phrase}
    (heq : write (pre ++ a :: post) ++ tail = before ++ (w ++ after))
    (hne : w ≠ []) (hw : ∀ c ∈ w, isWord c = true) (hphrase : Phrase.one (fold w) ∈ v)
    (hbefore : Gaps.holds isWord before.getLast? = false)
    (hafter : Gaps.holds isWord after.head? = false)
    (hi : (write pre).length ≤ i ∧ i < (write pre).length + a.text.length)
    (hi' : before.length ≤ i ∧ i < before.length + w.length) :
    (Edges.ofWords v (reach (lastWord none pre) a) a.word? (ahead post)).inside = true := by
  obtain ⟨pre', g, post', hsplit, rfl, -⟩ := spot_of_word ht h heq hne hw hbefore hafter
  simp only [List.length_append] at hi'
  obtain ⟨rfl, rfl, rfl⟩ := spot_unique hsplit hi.1 hi.2 (by omega)
    (by simp [text, Piece.text]; omega)
  have halone : alone v (some w) = true := List.contains_iff_mem.mpr hphrase
  rw [Edges.inside_ofWords, word?_word, halone, Bool.or_true]

/-- A place in one of two words that are a phrase belongs to it. -/
theorem edges_of_pair (ht : tail.isAllBlank = true) (h : Sound (pre ++ a :: post)) {v : List Phrase}
    (heq : write (pre ++ a :: post) ++ tail = before ++ (w ++ ' ' :: (w' ++ after)))
    (hne : w ≠ []) (hw : ∀ c ∈ w, isWord c = true) (hne' : w' ≠ []) (hw' : ∀ c ∈ w', isWord c = true)
    (hphrase : Phrase.two (fold w) (fold w') ∈ v)
    (hbefore : Gaps.holds isWord before.getLast? = false)
    (hafter : Gaps.holds isWord after.head? = false)
    (hi : (write pre).length ≤ i ∧ i < (write pre).length + a.text.length)
    (hi' : before.length ≤ i ∧ i < before.length + (w ++ ' ' :: w').length) :
    (Edges.ofWords v (reach (lastWord none pre) a) a.word? (ahead post)).inside = true := by
  have hpaired : paired v (some w) (some w') = true := List.contains_iff_mem.mpr hphrase
  obtain ⟨pre', g, post', hsplit, rfl⟩ := spots_of_pair ht h heq hne hw hne' hw' hbefore hafter
  simp only [List.length_append, List.length_cons] at hi'
  rw [Edges.inside_ofWords]
  by_cases hplace : i < (write pre' ++ g).length + w.length
  · simp only [List.length_append] at hplace
    obtain ⟨rfl, rfl, rfl⟩ := spot_unique hsplit hi.1 hi.2 (by omega)
      (by simp [text, Piece.text]; omega)
    simp [ahead, reach, hpaired]
  · simp only [List.length_append] at hplace
    have hsecond : pre ++ a :: post = (pre' ++ [⟨g, .word w⟩]) ++ ⟨[' '], .word w'⟩ :: post' := by
      simp [hsplit]
    obtain ⟨rfl, rfl, rfl⟩ := spot_unique hsecond hi.1 hi.2 (by simp [text, Piece.text]; omega)
      (by simp [text, Piece.text]; omega)
    simp [lastWord_append, lastWord, reach, hpaired]

/-- A word of which a place lies inside of a keyword belongs to one. -/
theorem edges_of_inside (ht : tail.isAllBlank = true) (h : Sound (pre ++ a :: post)) {j : Nat}
    (hj : j < a.piece.text.length)
    (hin : Inside Keyword.spellings (write (pre ++ a :: post) ++ tail) ((write pre ++ a.gap).length + j)) :
    (Edges.ofWords Keyword.all (reach (lastWord none pre) a) a.word? (ahead post)).inside = true := by
  obtain ⟨before, found, after, heq, hfound, hbefore, hafter, hi'⟩ := hin
  obtain ⟨p, hp, htext⟩ := List.mem_map.mp hfound
  have hletters : ∀ w : Text, fold w ∈ p.words → ∀ c ∈ w, isWord c = true := fun w hw =>
    isWord_of_fold (Keyword.all_spelled p hp _ hw)
  have hfull : ∀ w : Text, fold w ∈ p.words → w ≠ [] := by
    rintro w hw rfl
    exact Keyword.words_ne_nil p hp hw
  have hi : (write pre).length ≤ (write pre ++ a.gap).length + j ∧
      (write pre ++ a.gap).length + j < (write pre).length + a.text.length := by
    simp only [text, List.length_append]
    omega
  cases p with
  | one w =>
      obtain rfl : w = fold found := htext
      have hw : fold found ∈ (Phrase.one (fold found)).words := by simp [words]
      exact edges_of_word ht h heq (hfull _ hw) (hletters _ hw) hp hbefore hafter hi hi'
  | two u v =>
      obtain ⟨w, rest, rfl, rfl, hrest⟩ := List.map_eq_append_iff.mp htext.symm
      obtain ⟨c, w', rfl, hc, rfl⟩ := List.map_eq_cons_iff.mp hrest
      obtain rfl := eq_space_of_foldLetter hc
      have hw : fold w ∈ (Phrase.two (fold w) (fold w')).words := by simp [words]
      have hw' : fold w' ∈ (Phrase.two (fold w) (fold w')).words := by simp [words]
      have hpair : write (pre ++ a :: post) ++ tail = before ++ (w ++ ' ' :: (w' ++ after)) := by
        rw [heq]
        simp
      exact edges_of_pair ht h hpair (hfull _ hw) (hletters _ hw) (hfull _ hw') (hletters _ hw') hp hbefore
        hafter hi hi'

/-- The letters of a word lie inside of a keyword if the word belongs to one. -/
theorem inside_iff_edges (ht : tail.isAllBlank = true) (h : Sound (pre ++ a :: post)) {j : Nat}
    (hj : j < a.piece.text.length) :
    Inside Keyword.spellings (write (pre ++ a :: post) ++ tail) ((write pre ++ a.gap).length + j)
      ↔ (Edges.ofWords Keyword.all (reach (lastWord none pre) a) a.word? (ahead post)).inside = true := by
  refine ⟨edges_of_inside ht h hj, fun hin => ?_⟩
  obtain ⟨g, piece⟩ := a
  cases piece with
  | mark c => simp [Edges.inside] at hin
  | word w => exact inside_of_edges ht h hin hj

end

end Spot

/-! ## Keywords in a letter case -/

namespace LetterCase

/-- A text with the characters at some places in a letter case, where `i` is the place of the first
    one. -/
def applyAt (m : LetterCase) (places : Nat → Prop) [DecidablePred places] : (i : Nat) → Text → Text
  | _, [] => []
  | i, c :: s => (if places i then m.applyChar c else [c]) ++ applyAt m places (i + 1) s

section

variable (m : LetterCase) {places : Nat → Prop} [DecidablePred places]

theorem applyAt_eq_flatMap (i : Nat) (s : Text) :
    m.applyAt places i s
      = (s.zipIdx i).flatMap fun p => if places p.2 then m.applyChar p.1 else [p.1] := by
  induction s generalizing i with
  | nil => rfl
  | cons c s ih => rw [applyAt, ih, List.zipIdx_cons, List.flatMap_cons]

theorem applyAt_append (i : Nat) (s t : Text) :
    m.applyAt places i (s ++ t) = m.applyAt places i s ++ m.applyAt places (i + s.length) t := by
  induction s generalizing i with
  | nil => rfl
  | cons c s ih =>
      have hplace : i + 1 + s.length = i + (c :: s).length := by simp; omega
      rw [List.cons_append, applyAt, applyAt, ih, hplace, List.append_assoc]

theorem applyAt_blank (i : Nat) {g : Text} (hg : g.isAllBlank = true) : m.applyAt places i g = g := by
  induction g generalizing i with
  | nil => rfl
  | cons c g ih =>
      simp only [Text.isAllBlank_cons, Bool.and_eq_true] at hg
      rw [applyAt, ih (i + 1) hg.2, m.applyChar_blank hg.1, ite_self]
      rfl

/-- All places of a text are changed, or none is. -/
theorem applyAt_const {i : Nat} {s : Text} {inside : Bool}
    (h : ∀ j < s.length, places (i + j) ↔ inside = true) :
    m.applyAt places i s = if inside then m.apply s else s := by
  induction s generalizing i with
  | nil => simp [applyAt, m.apply_nil]
  | cons c s ih =>
      have hc : places i ↔ inside = true := h 0 (by simp)
      have hs : ∀ j < s.length, places (i + 1 + j) ↔ inside = true := by
        intro j hj
        rw [Nat.add_assoc, Nat.add_comm 1]
        exact h (j + 1) (by simpa using hj)
      rw [applyAt, ih hs]
      cases inside with
      | true => rw [if_pos (hc.mpr rfl), if_pos rfl, if_pos rfl, m.apply_cons]
      | false => rw [if_neg (by simp [hc]), if_neg (by simp), if_neg (by simp), List.singleton_append]

end

end LetterCase

namespace Spot

theorem write_recaseAt (m : LetterCase) {e : Edges} {a : Spot} (hf : Fits e a)
    (hmark : a.word? = none → e.inside = false) :
    write (recaseAt m e a) = a.gap ++ if e.inside then m.apply a.piece.text else a.piece.text := by
  cases hin : e.inside with
  | false =>
      rw [recaseAt_of_not_inside m hin]
      simp [text]
  | true =>
      obtain ⟨g, piece⟩ := a
      cases piece with
      | mark c => simp [hmark rfl] at hin
      | word w => exact write_recaseAt_of_inside m hin hf

/-- Spots from one on, with their keywords in a letter case, are changed at the places inside of
    keywords. -/
theorem recaseWith_eq_applyAt (m : LetterCase) {tail : Text} (ht : tail.isAllBlank = true)
    (pre as : List Spot) (h : Sound (pre ++ as)) :
    write (recaseWith m (edges Keyword.all (lastWord none pre) as) as) ++ tail
      = m.applyAt (Inside Keyword.spellings (write (pre ++ as) ++ tail)) (write pre).length
          (write as ++ tail) := by
  -- the spots before are kept, because a phrase may begin in the last of them
  induction as generalizing pre with
  | nil =>
      rw [write_nil, List.nil_append, m.applyAt_blank _ ht]
      rfl
  | cons a as ih =>
      have hsolid := h.solid a (by simp)
      have hfit := edges_fit Keyword.all_spelled (lastWord none pre) fun b hb => h.right.solid b hb
      have ih := ih (pre ++ [a]) (by simpa using h)
      have hlast : lastWord none (pre ++ [a]) = a.word? := lastWord_append none pre [a]
      have hlen : (write (pre ++ [a])).length = (write pre).length + a.gap.length + a.piece.text.length := by
        simp [text, Nat.add_assoc]
      rw [hlast, hlen, List.append_assoc, List.singleton_append] at ih
      have hsplit : write (a :: as) ++ tail = a.gap ++ (a.piece.text ++ (write as ++ tail)) := by
        simp [text]
      have hpiece : ∀ j < a.piece.text.length,
          Inside Keyword.spellings (write (pre ++ a :: as) ++ tail) ((write pre).length + a.gap.length + j)
            ↔ (Edges.ofWords Keyword.all (reach (lastWord none pre) a) a.word? (ahead as)).inside
              = true := by
        intro j hj
        rw [← inside_iff_edges ht h hj, List.length_append]
      have hmark : a.word? = none →
          (Edges.ofWords Keyword.all (reach (lastWord none pre) a) a.word? (ahead as)).inside = false := by
        intro hnone
        simp [hnone, Edges.inside]
      rw [edges, recaseWith, write_append, List.append_assoc, ih,
        write_recaseAt m (List.forall₂_cons.mp hfit).1 hmark, hsplit,
        m.applyAt_append _ a.gap, m.applyAt_append _ a.piece.text, m.applyAt_blank _ hsolid.1,
        m.applyAt_const hpiece, List.append_assoc]

end Spot

/-- The second stage changes characters at the places inside of keywords. -/
theorem recase_eq_applyAt (m : LetterCase) (s : Text) :
    Casing.recase m s = m.applyAt (Inside Keyword.spellings s) 0 s := by
  obtain ⟨hs, ht⟩ := Spot.sound_read s
  have hwrite := Spot.write_read s
  have hrecase := Spot.recase_write m hs ht
  have happly := Spot.recaseWith_eq_applyAt m ht [] (Spot.read s).1 hs
  rw [List.nil_append, hwrite] at happly
  rw [hwrite] at hrecase
  exact hrecase.trans happly

/-- The second stage changes the letter case of the characters that lie inside of a keyword, in however
    many ways, and of no others. -/
theorem recase_eq_flatMap (m : LetterCase) (s : Text) :
    Casing.recase m s = s.zipIdx.flatMap fun p =>
      if Inside Keyword.spellings s p.2 then m.applyChar p.1 else [p.1] := by
  rw [recase_eq_applyAt, m.applyAt_eq_flatMap]

end SqlLayout
