import SqlLayout.Layout
import SqlLayout.Proofs.Characters
import SqlLayout.Proofs.Spots

/-! # Words that mention JOIN

A character that belongs to no word has no letter of JOIN in its capitals. So a text mentions JOIN if
one of its words does, and neither gaps nor the spelling of the word ON have a say in it.
-/

namespace SqlLayout

/-! ## Occurrences -/

namespace Text

theorem occursIn_append_left {pattern s : Text} (hs : ∀ c ∈ s, c ∉ pattern) (hp : pattern ≠ [])
    (t : Text) : occursIn pattern (s ++ t) = occursIn pattern t := by
  induction s with
  | nil => rfl
  | cons c s ih =>
      have hpre : pattern.isPrefixOf (c :: (s ++ t)) = false := by
        cases pattern with
        | nil => exact absurd rfl hp
        | cons d pattern =>
            have hne : d ≠ c := fun h => hs c (by simp) (by simp [h])
            simp [List.isPrefixOf, hne]
      rw [List.cons_append, occursIn, hpre, Bool.false_or, ih fun b hb => hs b (by simp [hb])]

/-- An occurrence ends before a character that is not in the pattern. -/
theorem occursIn_append_cons {pattern : Text} {d : Char} (hd : d ∉ pattern) (hp : pattern ≠ [])
    (s t : Text) :
    occursIn pattern (s ++ d :: t) = (occursIn pattern s || occursIn pattern t) := by
  have hone : occursIn pattern (d :: t) = occursIn pattern t :=
    occursIn_append_left (s := [d]) (by simpa using hd) hp t
  have hpre : ∀ (p u : Text), d ∉ p → p.isPrefixOf (u ++ d :: t) = p.isPrefixOf u := by
    intro p u hdp
    induction u generalizing p with
    | nil =>
        cases p with
        | nil => rfl
        | cons b p =>
            have hne : b ≠ d := fun h => hdp (by simp [h])
            simp [List.isPrefixOf, hne]
    | cons c u ih =>
        cases p with
        | nil => rfl
        | cons b p =>
            rw [List.cons_append, List.isPrefixOf, List.isPrefixOf, ih p fun h => hdp (by simp [h])]
  induction s with
  | nil =>
      rw [List.nil_append, hone]
      cases pattern with
      | nil => exact absurd rfl hp
      | cons b pattern => rfl
  | cons c s ih =>
      rw [List.cons_append, occursIn, occursIn, ih, ← List.cons_append, hpre _ _ hd, Bool.or_assoc]

end Text

/-! ## Capitals of characters outside of words -/

theorem isWord_of_mem_expansions : ∀ p ∈ capitalExpansions, isWord (Char.ofNat p.1) = true := by
  decide +kernel

/-- A run of letters leads to ASCII capitals only if it is a single word character. -/
theorem runs_beyond_ascii : ∀ run ∈ capitalRuns,
    128 ≤ run.capital ∨ (run.first = run.last ∧ isWord (Char.ofNat run.first) = true) := by
  set_option maxRecDepth 1024 in decide

theorem not_mem_join_of_le {n : Nat} (hn : 128 ≤ n) : Char.ofNat n ∉ "JOIN".toList := by
  intro h
  have hsmall : ∀ d ∈ "JOIN".toList, d.toNat < 128 ∧ d.toNat ≠ 0 := by decide
  obtain ⟨hlt, hne⟩ := hsmall _ h
  by_cases hv : n.isValidChar
  · have hcode : (Char.ofNat n).toNat = n := by
      rw [Char.ofNat, dif_pos hv]
      rfl
    omega
  · have hcode : (Char.ofNat n).toNat = 0 := by
      rw [Char.ofNat, dif_neg hv]
      rfl
    exact hne hcode

theorem upperChar_of_not_isWord {c : Char} (hc : isWord c = false) :
    upperChar c ≠ [] ∧ ∀ d ∈ upperChar c, d ∉ "JOIN".toList := by
  by_cases hascii : c.toNat < 128
  · exact ascii_induction (P := fun c => isWord c = false →
      upperChar c ≠ [] ∧ ∀ d ∈ upperChar c, d ∉ "JOIN".toList) (by decide) hascii hc
  have hone : ∀ n, 128 ≤ n →
      [Char.ofNat n] ≠ [] ∧ ∀ d ∈ [Char.ofNat n], d ∉ "JOIN".toList :=
    fun n hn => ⟨by simp, by simpa using not_mem_join_of_le hn⟩
  simp only [upperChar, if_neg hascii]
  split
  · rename_i capitals hcapitals
    obtain ⟨before, after, hmem, -⟩ := List.lookup_eq_some_iff.mp hcapitals
    have hword := isWord_of_mem_expansions (c.toNat, capitals) (by simp [hmem])
    rw [Char.ofNat_toNat, hc] at hword
    exact absurd hword (by simp)
  · split
    · rename_i capital hcapital
      obtain ⟨run, hrun, hcap⟩ := List.exists_of_findSome?_eq_some hcapital
      simp only [CapitalRun.capital?] at hcap
      split at hcap
      · rename_i hin
        simp only [Bool.and_eq_true, decide_eq_true_eq] at hin
        simp only [Option.some.injEq] at hcap
        rcases runs_beyond_ascii run hrun with hbig | ⟨hsingle, hword⟩
        · exact hone capital (by omega)
        · rw [show run.first = c.toNat by omega, Char.ofNat_toNat, hc] at hword
          exact absurd hword (by simp)
      · simp at hcap
    · have h := hone c.toNat (Nat.le_of_not_lt hascii)
      rwa [Char.ofNat_toNat] at h

/-! ## Texts that mention JOIN -/

namespace Assembly

def mentions : Piece → Bool
  | .word letters => mentionsJoin letters
  | .mark _ => false

theorem upper_append (s t : Text) : upper (s ++ t) = upper s ++ upper t :=
  List.flatMap_append

theorem mentionsJoin_cons {c : Char} (hc : isWord c = false) (s : Text) :
    mentionsJoin (c :: s) = mentionsJoin s :=
  Text.occursIn_append_left (upperChar_of_not_isWord hc).2 (by decide) (upper s)

theorem mentionsJoin_append_cons {c : Char} (hc : isWord c = false) (s t : Text) :
    mentionsJoin (s ++ c :: t) = (mentionsJoin s || mentionsJoin t) := by
  obtain ⟨hne, hall⟩ := upperChar_of_not_isWord hc
  obtain ⟨d, ds, hd⟩ := List.exists_cons_of_ne_nil hne
  rw [hd] at hall
  have hrest : Text.occursIn "JOIN".toList (ds ++ upper t) = mentionsJoin t :=
    Text.occursIn_append_left (fun b hb => hall b (by simp [hb])) (by decide) (upper t)
  rw [mentionsJoin, upper_append, show upper (c :: t) = upperChar c ++ upper t from rfl, hd,
    List.cons_append, Text.occursIn_append_cons (hall d (by simp)) (by decide), hrest]
  rfl

/-- A text mentions JOIN if one of its words does. -/
theorem mentionsJoin_eq (s : Text) : mentionsJoin s = (pieces s).any mentions := by
  suffices h : ∀ {ps}, Piece.Parted ps → mentionsJoin (spell ps) = ps.any mentions by
    rw [← h (pieces_parted s), spell_pieces]
  intro ps h
  induction h with
  | nil => rfl
  | mark hc h ih =>
      rw [List.any_cons, ← ih]
      exact mentionsJoin_cons hc _
  | @word w ps hne hw hps h ih =>
      cases h with
      | nil => simp [spell, Piece.text, mentions]
      | @mark c ps hc h =>
          rw [show spell (.word w :: .mark c :: ps) = w ++ c :: spell ps from rfl,
            mentionsJoin_append_cons hc, List.any_cons, ← ih]
          congr 1
          exact (mentionsJoin_cons hc _).symm
      | @word l ps => exact absurd rfl (hps l ps)

/-- The letters of JOIN have one capital each, and without a dot it is the letter that they stand for. -/
theorem upperChar_of_join : ∀ c ∈ letters, c ≠ '\u0130' → foldLetter c ∈ "JOIN".toList →
    upperChar c = [foldLetter c] := by
  decide

theorem upper_eq_fold {w : Text} (hdot : '\u0130' ∉ w) (h : ∀ c ∈ fold w, c ∈ "JOIN".toList) :
    upper w = fold w := by
  have hsub : ∀ d ∈ "JOIN".toList, d ∈ capitals := by decide
  induction w with
  | nil => rfl
  | cons c w ih =>
      rw [show fold (c :: w) = foldLetter c :: fold w from rfl, List.forall_mem_cons] at h
      have hc : c ≠ '\u0130' := by
        rintro rfl
        simp at hdot
      calc upper (c :: w) = upperChar c ++ upper w := rfl
        _ = foldLetter c :: fold w := by
          rw [upperChar_of_join c (mem_letters (hsub _ h.1)) hc h.1,
            ih (fun hw => hdot (List.mem_cons_of_mem c hw)) h.2, List.singleton_append]

/-- The word JOIN mentions itself, if it has no dotted i. -/
theorem mentionsJoin_join {w : Text} (hdot : '\u0130' ∉ w) (h : fold w = "JOIN".toList) :
    mentionsJoin w = true := by
  rw [mentionsJoin, upper_eq_fold hdot (by simp [h]), h]
  decide

theorem mentionsJoin_on {w : Text} (h : fold w = "ON".toList) : mentionsJoin w = false := by
  have hdot : '\u0130' ∉ w := by
    intro hw
    have hmem : foldLetter '\u0130' ∈ "ON".toList := h ▸ List.mem_map_of_mem hw
    exact absurd hmem (by decide)
  have hsub : ∀ c ∈ fold w, c ∈ "JOIN".toList := by
    rw [h]
    decide
  rw [mentionsJoin, upper_eq_fold hdot hsub, h]
  decide

theorem fold_onWord (m : LetterCase) : fold (onWord m) = "ON".toList := by
  cases m <;> decide

end Assembly

namespace Spot

open Assembly

def mentions (a : Spot) : Bool :=
  Assembly.mentions a.piece

theorem any_mentions_pieces (a : Spot) : a.pieces.any Assembly.mentions = a.mentions := by
  have hg : ∀ g : Text, (g.map Piece.mark).any Assembly.mentions = false := by
    intro g
    simp [List.any_map, Function.comp_def, Assembly.mentions]
  simp [pieces, hg, mentions]

theorem mentionsJoin_write {as : List Spot} (h : Sound as) :
    mentionsJoin (write as) = as.any mentions := by
  have hp := pieces_write h (show Text.isAllBlank [] = true from rfl)
  simp only [List.append_nil, List.map_nil] at hp
  rw [mentionsJoin_eq, hp, List.any_flatMap]
  simp only [any_mentions_pieces]

/-- A spot with the word ON written as in a letter case. -/
def respellOn (m : LetterCase) (a : Spot) : Spot :=
  match a.piece with
  | .word w => if fold w = "ON".toList then ⟨a.gap, .word (onWord m)⟩ else a
  | .mark _ => a

@[simp] theorem gap_respellOn (m : LetterCase) (a : Spot) : (respellOn m a).gap = a.gap := by
  unfold respellOn
  split
  · split <;> rfl
  · rfl

/-- A spot is left, or it is the word ON and stays it. -/
theorem piece_respellOn (m : LetterCase) (a : Spot) : (respellOn m a).piece = a.piece ∨
    ∃ w, a.piece = .word w ∧ fold w = "ON".toList ∧ (respellOn m a).piece = .word (onWord m) := by
  obtain ⟨g, piece⟩ := a
  cases piece with
  | mark c => exact Or.inl rfl
  | word w =>
      by_cases hw : fold w = "ON".toList
      · exact Or.inr ⟨w, rfl, hw, by simp [respellOn, hw]⟩
      · exact Or.inl (by simp only [respellOn, if_neg hw])

theorem eq_onWord {m : LetterCase} {a : Spot} {w : Text} (h : (respellOn m a).piece = .word w)
    (hw : fold w = "ON".toList) : w = onWord m := by
  obtain ⟨g, piece⟩ := a
  cases piece with
  | mark c => cases h
  | word x =>
      by_cases hx : fold x = "ON".toList
      · simpa only [respellOn, if_pos hx, Piece.word.injEq, eq_comm] using h
      · simp only [respellOn, if_neg hx, Piece.word.injEq] at h
        exact absurd hw (h ▸ hx)

/-- The last letter case counts. -/
theorem respellOn_respellOn (m m' : LetterCase) (a : Spot) :
    respellOn m (respellOn m' a) = respellOn m a := by
  obtain ⟨g, piece⟩ := a
  cases piece with
  | mark c => rfl
  | word w =>
      by_cases hw : fold w = "ON".toList
      · simp only [respellOn, if_pos hw, if_pos (fold_onWord m')]
      · simp only [respellOn, if_neg hw]

theorem text_respellOn (m : LetterCase) (a : Spot) :
    (respellOn m a).text = a.pieces.flatMap (recaseOnPiece (onWord m)) := by
  have hg : ∀ g : Text, (g.map Piece.mark).flatMap (recaseOnPiece (onWord m)) = g := by
    intro g
    simp [List.flatMap_map, recaseOnPiece]
  obtain ⟨g, piece⟩ := a
  cases piece with
  | mark c => simp [respellOn, pieces, hg, recaseOnPiece, text, Piece.text]
  | word w =>
      simp only [respellOn, pieces, List.flatMap_append, hg, List.flatMap_cons, List.flatMap_nil,
        List.append_nil, recaseOnPiece]
      split <;> rfl

theorem recaseOn_write (m : LetterCase) {as : List Spot} (h : Sound as) :
    recaseOn (onWord m) (write as) = write (as.map (respellOn m)) := by
  have hp := pieces_write h (show Text.isAllBlank [] = true from rfl)
  simp only [List.append_nil, List.map_nil] at hp
  rw [recaseOn, hp, List.flatMap_assoc, write, List.flatMap_map]
  simp only [text_respellOn]

/-- The line of a clause, as spots. -/
def line (m : LetterCase) (as : List Spot) : List Spot :=
  if as.any mentions then as.map (respellOn m) else as

theorem line_write (m : LetterCase) {as : List Spot} (h : Sound as) :
    Assembly.line m (write as) = write (line m as) := by
  rw [Assembly.line, mentionsJoin_write h, recaseOn_write m h, line]
  split <;> rfl

end Spot

end SqlLayout
