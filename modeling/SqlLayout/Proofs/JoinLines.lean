import SqlLayout.Proofs.LineLayout
import SqlLayout.Proofs.Places

/-! # The word ON in join lines

A line that begins with a join heading is a join clause, and the word ON is written in one way there.
Headings are found with the dotted I in place of an I, but whether a clause mentions JOIN is decided by
its capitals, where the dot stays. So a heading with that letter in the word JOIN opens a clause that is
left as it is.
-/

namespace SqlLayout

open Phrase

/-- A run of a text with no word character right before it or right after it. -/
structure StandsIn (s before found after : Text) : Prop where
  eq : s = before ++ (found ++ after)
  left : Gaps.holds isWord before.getLast? = false
  right : Gaps.holds isWord after.head? = false

instance (s before found after : Text) : Decidable (StandsIn s before found after) :=
  decidable_of_iff (s = before ++ (found ++ after) ∧ Gaps.holds isWord before.getLast? = false ∧
      Gaps.holds isWord after.head? = false)
    ⟨fun h => ⟨h.1, h.2.1, h.2.2⟩, fun h => ⟨h.eq, h.left, h.right⟩⟩

namespace Keyword

/-- The word JOIN of a join heading, as it is spelled. -/
def joinWord (heading : Text) : Text :=
  heading.drop (heading.length - "JOIN".length)

/-- What comes before the word JOIN in a join heading. -/
def joinQualifier (heading : Text) : Text :=
  heading.take (heading.length - "JOIN".length)

theorem ends_in_join : ∀ t ∈ joinHeadings.map Phrase.text,
    joinWord t = "JOIN".toList ∧ (joinQualifier t).getLast?.all (· == ' ') = true := by
  decide

end Keyword

/-- A join heading at the start of a text ends in the word JOIN. -/
theorem StandsIn.joinWord {s heading rest : Text} (h : StandsIn s [] heading rest)
    (hjoin : fold heading ∈ Keyword.joinHeadings.map Phrase.text) :
    StandsIn s (Keyword.joinQualifier heading) (Keyword.joinWord heading) rest ∧
      fold (Keyword.joinWord heading) = "JOIN".toList := by
  have hlength : (fold heading).length = heading.length := List.length_map foldLetter
  obtain ⟨hword, hspace⟩ := Keyword.ends_in_join _ hjoin
  rw [Keyword.joinWord, hlength, fold, ← List.map_drop] at hword
  rw [Keyword.joinQualifier, hlength, fold, ← List.map_take, List.getLast?_map] at hspace
  refine ⟨⟨?_, ?_, h.right⟩, hword⟩
  · rw [← List.append_assoc, Keyword.joinQualifier, Keyword.joinWord, List.take_append_drop]
    exact h.eq
  · cases hlast : (Keyword.joinQualifier heading).getLast? with
    | none => rfl
    | some c =>
        rw [Keyword.joinQualifier] at hlast
        rw [hlast] at hspace
        obtain rfl := eq_space_of_foldLetter (beq_iff_eq.mp hspace)
        decide

namespace Spot

/-- A run that stands in a text of spots is one of their words. -/
theorem StandsIn.mem {as : List Spot} (h : Sound as) {before found after : Text}
    (hs : StandsIn (write as) before found after) (hne : found ≠ [])
    (hfound : ∀ c ∈ found, isWord c = true) : ∃ a ∈ as, a.piece = .word found := by
  have heq : write as ++ [] = before ++ (found ++ after) := by rw [List.append_nil, hs.eq]
  obtain ⟨pre, g, post, rfl, -⟩ := spot_of_word rfl h heq hne hfound hs.left hs.right
  exact ⟨⟨g, .word found⟩, by simp, rfl⟩

/-- Writing a line keeps JOIN where it is mentioned. -/
theorem any_written (m : LetterCase) (l : List Spot) : (written m l).any mentions = l.any mentions := by
  rw [written, any_led, line_eq, List.any_map]
  exact List.any_congr rfl fun a => (akin_respellIf m _ a _).mentions.symm

/-- On a line that mentions JOIN the word ON is written in one way. -/
theorem eq_onWord_of_mem_written {m : LetterCase} {l : List Spot}
    (hjoin : (written m l).any mentions = true) {a : Spot} (ha : a ∈ written m l) {w : Text}
    (hpiece : a.piece = .word w) (hw : fold w = "ON".toList) : w = Assembly.onWord m := by
  rw [any_written] at hjoin
  rw [written, line_eq, hjoin] at ha
  cases l with
  | nil => cases ha
  | cons b bs =>
      rw [List.map_cons, led_cons] at ha
      rcases List.mem_cons.mp ha with rfl | ha
      · exact eq_onWord hpiece hw
      · obtain ⟨c, -, rfl⟩ := List.mem_map.mp ha
        exact eq_onWord hpiece hw

end Spot

/-- In a formatted text, a line that begins with a join heading has every word ON in the letter case of
    the options, unless the word JOIN of the heading is spelled with a dotted I. -/
theorem on_of_join_line (o : Options) (s : Text) {l heading rest before found after : Text}
    (hl : l ∈ linesOf (format o s)) (hheading : StandsIn l [] heading rest)
    (hjoin : fold heading ∈ Keyword.joinHeadings.map Phrase.text)
    (hdot : '\u0130' ∉ Keyword.joinWord heading) (hon : StandsIn l before found after)
    (hfound : fold found = "ON".toList) :
    (o.keywordCase = .text "lower".toList → found = "on".toList) ∧
      (o.keywordCase ≠ .text "lower".toList → found = "ON".toList) := by
  obtain ⟨as, k, has, hk, rfl⟩ := Spot.exists_written o s hl
  obtain ⟨hword, hfold⟩ := hheading.joinWord hjoin
  have hsound : Spot.Sound (Spot.written o.style.letterCase k) :=
    Spot.sound_written _ (Spot.sound_of_mem_lines (has.tidy o.style) hk).2
  -- the heading makes the line mention JOIN
  have hmentions : (Spot.written o.style.letterCase k).any Spot.mentions = true := by
    obtain ⟨a, ha, hpiece⟩ := Spot.StandsIn.mem hsound hword
      (by rintro h; rw [h] at hfold; cases hfold) (isWord_of_fold (by rw [hfold]; decide))
    apply List.any_eq_true.mpr
    refine ⟨a, ha, ?_⟩
    rw [Spot.mentions, hpiece]
    exact Assembly.mentionsJoin_join hdot hfold
  obtain ⟨a, ha, hpiece⟩ := Spot.StandsIn.mem hsound hon
    (by rintro h; rw [h] at hfound; cases hfound) (isWord_of_fold (by rw [hfound]; decide))
  have hwritten := Spot.eq_onWord_of_mem_written hmentions ha hpiece hfound
  constructor
  · intro h
    rw [hwritten, Options.style, LetterCase.ofSetting_eq_lower.mpr h]
    rfl
  · intro h
    have hcase := mt LetterCase.ofSetting_eq_lower.mp h
    rw [hwritten, Options.style]
    revert hcase
    cases LetterCase.ofSetting o.keywordCase <;> simp [Assembly.onWord]

/-- A dotted I before the word JOIN does no harm. -/
theorem on_of_join_line_qualified :
    let o : Options := { keywordCase := .text "preserve".toList }
    let l : Text := "\u0130nner join u ON x".toList
    l ∈ linesOf (format o "from t \u0130nner join u on x".toList) ∧
      StandsIn l "\u0130nner join u ".toList "ON".toList " x".toList ∧
      (o.keywordCase = .text "lower".toList → "ON".toList = "on".toList) ∧
      (o.keywordCase ≠ .text "lower".toList → "ON".toList = "ON".toList) := by
  intro o l
  have hl : l ∈ linesOf (format o "from t \u0130nner join u on x".toList) := by decide +kernel
  have hheading : StandsIn l [] "\u0130nner join".toList " u ON x".toList := by decide
  have hon : StandsIn l "\u0130nner join u ".toList "ON".toList " x".toList := by decide
  exact ⟨hl, hon, on_of_join_line o _ hl hheading (by decide) (by decide) hon (by decide)⟩

/-- A dotted I in the word JOIN itself leaves ON as it was. -/
theorem on_kept_after_dotted_join :
    let l : Text := "JO\u0130N b on c".toList
    l ∈ linesOf (format {} "from a jo\u0130n b on c".toList) ∧
      StandsIn l [] "JO\u0130N".toList " b on c".toList ∧
      fold "JO\u0130N".toList ∈ Keyword.joinHeadings.map Phrase.text ∧
      StandsIn l "JO\u0130N b ".toList "on".toList " c".toList ∧
      fold "on".toList = "ON".toList ∧
      ({} : Options).keywordCase ≠ .text "lower".toList ∧ "on".toList ≠ "ON".toList := by
  refine ⟨by decide +kernel, by decide, by decide, by decide, by decide, ?_, by decide⟩
  intro h
  exact absurd (Setting.text.inj h) (by decide)

end SqlLayout
