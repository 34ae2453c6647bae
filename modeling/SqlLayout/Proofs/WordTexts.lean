import SqlLayout.Proofs.TwinSpots
import SqlLayout.Proofs.WordTokens

/-! # Texts of words

A text of words and blanks has the same tokens as its layout but for the blanks inside of them. So a
comparison of the two tells nothing but keywords of several words, which have other blanks between
them. The count at the end of a batch is an exception: it belongs to the keyword only after a single
blank, and the layout makes one blank of several.
-/

namespace SqlLayout

open Gaps Pattern Token Twin

namespace Text

/-- Words of ASCII characters, and blanks. -/
def Wordy (s : Text) : Prop :=
  ∀ c ∈ s, isBlank c = true ∨ (c.toNat < 128 ∧ isWord c = true)

instance (s : Text) : Decidable s.Wordy :=
  inferInstanceAs (Decidable (∀ c ∈ s, _))

/-- Whether a text begins with two blanks or more, and a digit after them. -/
def beginsFarCount (s : Text) : Bool :=
  2 ≤ (s.takeWhile isBlank).length && (s.dropWhile isBlank).head?.any isDecimal

/-- Whether two blanks or more are between GO and a digit somewhere in a text. -/
def farCount : Text → Bool
  | g :: o :: s => (foldLetter g == 'G' && foldLetter o == 'O' && beginsFarCount s) || farCount (o :: s)
  | _ => false

theorem farCount_append {s : Text} (h : s.farCount = true) (u : Text) : farCount (u ++ s) = true := by
  induction u with
  | nil => exact h
  | cons c u ih =>
      rw [List.cons_append]
      cases hs : u ++ s with
      | nil => simp [hs, farCount] at ih
      | cons d t =>
          rw [farCount, ← hs, ih, Bool.or_true]

theorem Wordy.showsAscii {s : Text} (h : s.Wordy) : s.ShowsAscii := by
  intro c hc hshown
  rcases h c hc with hblank | hword
  · simp [hshown] at hblank
  · exact hword.1

end Text

theorem takeWhile_isBlank {g : Text} (hg : g.isAllBlank = true) {c : Char} (hc : isBlank c = false)
    (s : Text) : (g ++ c :: s).takeWhile isBlank = g := by
  rw [List.takeWhile_append_of_pos fun b hb => Text.isBlank_of_mem hg hb,
    List.takeWhile_cons_of_neg (by simp [hc]), List.append_nil]

/-! ## A text of words and its layout -/

section

variable (o : Options) {s : Text} (h : s.Wordy)

include h

theorem isWord_of_mem_twins {k : Twin} (hk : k ∈ formatTwins o s) : isWord k.char = true := by
  rcases h k.char (mem_of_mem_formatTwins o h.showsAscii hk) with hblank | hword
  · simp [(even_formatTwins o h.showsAscii k hk).shown] at hblank
  · exact hword.2

theorem isSome_of_wordy {a : Spot} (ha : a ∈ (Spot.read s).1) : a.word?.isSome = true := by
  have hsolid := (Spot.sound_read s).1.solid a ha
  obtain ⟨gap, piece⟩ := a
  cases piece with
  | word w => rfl
  | mark c =>
      have hc : c ∈ s := by
        rw [← Spot.write_read s]
        exact List.mem_append_left _
          (List.mem_flatMap.mpr ⟨_, ha, List.mem_append_right _ (List.mem_singleton_self c)⟩)
      obtain ⟨-, hword, hshown⟩ := hsolid
      rcases h c hc with hblank | hascii
      · simp [hshown] at hblank
      · simp [hword] at hascii

omit h in
/-- Between words a gap stays one, and is a single blank. -/
theorem gapBefore_word (commas : CommaStyle) (closed : Bool) (e : Edges) {c d : Char} {a : Spot}
    (hc : isWord c = true) (ha : a.first = some d) (hd : isWord d = true) (hgap : a.gap ≠ []) :
    (Spot.gapBefore commas closed e c a).length = 1 := by
  unfold Spot.gapBefore
  split
  · rfl
  · split
    · rfl
    · have hne := (settled_keepsWords commas).apart c a.gap d hc hd hgap
      rw [ha]
      unfold Rule.settled at hne ⊢
      split
      · rfl
      · rename_i hnone
        simp [hnone] at hne

/-- Between words the layout has a single blank where the text has blanks. -/
theorem isChain_wordy :
    (formatTwins o s).IsChain fun _ k => k.Whole ∧ (k.right ≠ [] → k.right.length = 1) := by
  have hsound := (Spot.sound_read s).1
  refine (laid_format o h.showsAscii).isChain_twins hsound.solid
    (fun j k hk _ _ _ => ⟨hk.whole, fun hne => absurd hk.2 hne⟩) ?_
  have hapart : (((Spot.phrasesAt Keyword.headings (Spot.read s).1).zip (Spot.read s).1).map
      (·.2)).IsChain Spot.Apart := by
    rw [List.map_snd_zip (by rw [Spot.length_phrasesAt])]
    exact hsound.apart
  rw [List.isChain_map] at hapart
  refine hapart.imp_of_mem_imp fun p q hp hq hpq j k hj _ hk _ hleft hright => ?_
  obtain ⟨_, hmemp⟩ := List.of_mem_zip hp
  obtain ⟨_, hmemq⟩ := List.of_mem_zip hq
  have hwordp := isSome_of_wordy h hmemp
  have hwordq := isSome_of_wordy h hmemq
  obtain ⟨c, hc, hcword⟩ := Spot.isWord_last (hsound.solid _ hmemp) hwordp
  obtain ⟨d, hd, hdword⟩ := Spot.isWord_first (hsound.solid _ hmemq) hwordq
  obtain rfl := Option.some.inj (hj.trans hc)
  have hgap := hpq hwordp hwordq
  have hone := gapBefore_word o.style.commas p.1.closes q.1 hcword hd hdword hgap
  rw [← hright] at hone
  have hne : k.right ≠ [] := by
    intro hnil
    simp [hnil] at hone
  exact ⟨iff_of_false (hleft ▸ hgap) hne, fun _ => hone⟩

/-- A count after a single blank stays one, and others do not come. -/
theorem aligned_wordy (hcount : s.farCount = false) : Aligned Worded (formatTwins o s) := by
  refine ⟨even_formatTwins o h.showsAscii, fun j ls hls => ?_⟩
  have hchain := (isChain_wordy o h).suffix hls
  have hword : ∀ k ∈ j :: ls, isWord k.char = true := fun k hk =>
    isWord_of_mem_twins o h (hls.subset hk)
  refine ⟨hword j (by simp), fun k hk => ?_, fun o' k ls' heq hj ho hbare hdecimal => ?_⟩
  · obtain ⟨ls', rfl⟩ := List.head?_eq_some_iff.mp hk
    exact ⟨(List.isChain_cons_cons.mp hchain).1.1, hword k (by simp)⟩
  · subst heq
    have heven := even_formatTwins o h.showsAscii k (hls.subset (by simp))
    obtain ⟨hwhole, hsingle⟩ := (List.isChain_cons_cons.mp (List.isChain_cons_cons.mp hchain).2).1
    have hshort : k.left.length < 2 := by
      by_contra hlong
      obtain ⟨ks, hks⟩ := hls
      have hsplit : s = (lefts ks ++ j.left) ++ j.char :: o'.char ::
          (k.left ++ k.char :: (lefts ls' ++ (Spot.read s).2)) := by
        calc s = lefts (formatTwins o s) ++ (Spot.read s).2 := (lefts_formatTwins o h.showsAscii).symm
          _ = _ := by simp [← hks, lefts_append, lefts_cons, show o'.left = [] from hbare.1]
      have hfar := Text.farCount_append (s := j.char :: o'.char ::
        (k.left ++ k.char :: (lefts ls' ++ (Spot.read s).2))) (by
          rw [Text.farCount, show foldLetter j.char = 'G' from hj, ho, Text.beginsFarCount,
            Text.dropWhile_isBlank_append heven.left, Text.dropWhile_isBlank_cons heven.shown,
            takeWhile_isBlank heven.left heven.shown]
          simp [hdecimal]
          omega) (lefts ks ++ j.left)
      rw [← hsplit, hcount] at hfar
      simp at hfar
    constructor
    · intro hone
      refine hsingle fun hnil => ?_
      simp [hwhole.mpr hnil] at hone
    · intro hone
      have hne : k.left ≠ [] := fun hnil => by simp [hwhole.mp hnil] at hone
      have hpos := List.length_pos_iff.mpr hne
      omega

end

/-! ## Comparisons -/

/-- A text of words and its layout have the same tokens, but for the blanks inside of keywords. So a
    comparison of the two tells only of keywords that have blanks inside, and these are the same but
    for the blanks. The lexer may be any that takes the same words of two texts, which have blanks at
    the same places. -/
theorem compare_words {ε : Type} {t : Tokenizer ε} {l : Lexer} (hcuts : t.CutsBy l)
    (hsorts : l.Sorts) (hconcur : l.Concur Worded) (o : Options) {s : Text} (h : s.Wordy)
    (hcount : s.farCount = false) :
    List.Forall₂ (fun a b => Spacing.collapse a = Spacing.collapse b) (Lexeme.significant (l.cut s))
        (Lexeme.significant (l.cut (format o s))) ∧
      ∀ found, t.compare s (format o s) = .ok found → ∀ m ∈ found,
        Spacing.collapse m.before = Spacing.collapse m.after ∧ ∃ c ∈ m.before, isBlank c = true := by
  have hquote : ∀ k ∈ formatTwins o s, isQuote k.char = false := by
    intro k hk
    have hspan := spans_of_isWord (isWord_of_mem_twins o h hk)
    simp only [spans, Bool.or_eq_false_iff] at hspan
    simp [isQuote, hspan]
  have htold := hconcur.forall₂_cut (P := fun _ => True) hsorts (Spot.sound_read s).2
    (fun _ _ => trivial) (aligned_wordy o h hcount) hquote fun _ _ => trivial
  rw [lefts_formatTwins o h.showsAscii, rights_formatTwins o h.showsAscii] at htold
  refine ⟨htold.imp fun _ _ hab => hab.collapse_eq, fun found hfound m hm => ?_⟩
  rw [hcuts.compare_ok hfound] at hm
  obtain ⟨hab, hne⟩ := Mismatch.of_mem_between htold hm
  exact ⟨hab.collapse_eq, hab.exists_blank hne⟩

/-- All that is told of two clauses, which are written on one line with a blank more, are the blanks in
    a keyword. -/
theorem compare_words_clauses :
    let s : Text := "select a  from t group\n by a".toList
    s.Wordy ∧ s.farCount = false ∧ ∃ m : Mismatch,
      (tokenize.compare s (format {} s)).toOption = some [m] ∧
        Spacing.collapse m.before = Spacing.collapse m.after ∧ ∃ c ∈ m.before, isBlank c = true := by
  intro s
  have hwords : s.Wordy := by decide
  have hcount : s.farCount = false := by decide
  obtain ⟨m, hm⟩ : ∃ m, tokenize.compare s (format {} s) = .ok [m] :=
    ⟨⟨4, "GROUP\n BY".toList, "GROUP BY".toList⟩, by decide +kernel⟩
  refine ⟨hwords, hcount, m, by rw [hm]; rfl, ?_⟩
  exact (compare_words tokenize_cutsBy lexer_sorts lexer_concur_worded {} hwords hcount).2 [m] hm m (by simp)

/-- Two blanks in a keyword are told of as a mismatch. -/
theorem compare_words_phrase :
    let s : Text := "group  by a".toList
    s.Wordy ∧ (tokenize.compare s (format {} s)).toOption
      = some [⟨0, "GROUP  BY".toList, "GROUP BY".toList⟩] := by
  decide +kernel

end SqlLayout
