import SqlLayout.Keyword
import SqlLayout.Spacing

/-! # Kinds of characters

What the tables say: word characters are neither blank nor punctuation, and a character that stands
for an ASCII letter stays one in either letter case. Only the small letter for the dotted capital i
takes two characters, of which the second, the dot, belongs to no word.
-/

namespace SqlLayout

/-! ## Tables -/

section

variable (P : Char → Prop) [DecidablePred P] (s : Text)

-- only the characters of the text are looked at, never all there are
instance (priority := high) decidableForallMem : Decidable (∀ c ∈ s, P c) :=
  List.decidableBAll P s

instance (priority := high) decidableExistsMem : Decidable (∃ c ∈ s, P c) :=
  List.decidableBEx P s

end

/-- What holds of the ASCII characters one by one holds of all of them. -/
theorem ascii_induction {P : Char → Prop} (h : ∀ n < 128, P (Char.ofNat n)) {c : Char}
    (hc : c.toNat < 128) : P c := by
  have hn := h c.toNat hc
  rwa [Char.ofNat_toNat] at hn

theorem toUpper_beyond_ascii {c : Char} (hc : ¬c.toNat < 128) : c.toUpper = c := by
  unfold Char.toUpper
  split
  · rename_i h
    have : c.val.toNat ≤ 122 := UInt32.le_iff_toNat_le.mp h.2
    exact absurd this (by simp only [Char.toNat] at hc; omega)
  · rfl

theorem toLower_beyond_ascii {c : Char} (hc : ¬c.toNat < 128) : c.toLower = c := by
  unfold Char.toLower
  split
  · rename_i h
    have : c.val.toNat ≤ 90 := UInt32.le_iff_toNat_le.mp h.2
    exact absurd this (by simp only [Char.toNat] at hc; omega)
  · rfl

/-- What is the same for a capital and for its small letter. -/
theorem apply_toLower {β : Type} (f : Char → β)
    (h : ∀ n < 128, f (Char.ofNat n).toLower = f (Char.ofNat n)) (c : Char) : f c.toLower = f c := by
  by_cases hc : c.toNat < 128
  · exact ascii_induction (P := fun c => f c.toLower = f c) h hc
  · rw [toLower_beyond_ascii hc]

theorem isWord_toLower (c : Char) : isWord c.toLower = isWord c :=
  apply_toLower isWord (by decide) c

theorem isBlank_toLower (c : Char) : isBlank c.toLower = isBlank c :=
  apply_toLower isBlank (by decide) c

theorem foldLetter_toLower (c : Char) : foldLetter c.toLower = foldLetter c :=
  apply_toLower foldLetter (by decide) c

theorem upperChar_toLower (c : Char) : upperChar c.toLower = upperChar c :=
  apply_toLower upperChar (by decide) c

theorem ne_nil_of_mem_expansions : ∀ p ∈ capitalExpansions, p.2 ≠ [] := by
  decide

theorem upperChar_ne_nil (c : Char) : upperChar c ≠ [] := by
  unfold upperChar
  split
  · simp
  · split
    · rename_i capitals hcapitals
      obtain ⟨before, after, hmem, -⟩ := List.lookup_eq_some_iff.mp hcapitals
      simpa using ne_nil_of_mem_expansions (c.toNat, capitals) (by simp [hmem])
    · split <;> simp

theorem lowerChar_ne_nil (c : Char) : lowerChar c ≠ [] := by
  unfold lowerChar
  split
  · simp
  · split <;> simp

theorem isBlank_of_isWord {c : Char} (h : isWord c = true) : isBlank c = false := by
  by_cases hc : c.toNat < 128
  · exact ascii_induction (P := fun c => isWord c = true → isBlank c = false)
      (by decide) hc h
  · have apart : ∀ r ∈ blankRanges, ∀ q ∈ letterRanges, r.2 < q.1 ∨ q.2 < r.1 := by decide +kernel
    simp only [isWord, if_neg hc] at h
    obtain ⟨q, hq, hlow, hhigh⟩ := (inRanges_iff _ c).mp h
    rw [Bool.eq_false_iff]
    intro hb
    obtain ⟨r, hr, hlow', hhigh'⟩ := (inRanges_iff _ c).mp hb
    have := apart r hr q hq
    omega

theorem isOperator_of_isWord {c : Char} (h : isWord c = true) : isOperator c = false := by
  rw [Bool.eq_false_iff]
  intro ho
  simp only [isOperator, Bool.or_eq_true, beq_iff_eq] at ho
  rcases ho with ((rfl | rfl) | rfl) | rfl <;> exact absurd h (by decide)

/-- The characters that stand for an ASCII letter: the letters themselves, the long s, the Kelvin
    sign, the dotless and the dotted i. -/
def letters : List Char :=
  "ABCDEFGHIJKLMNOPQRSTUVWXYZabcdefghijklmnopqrstuvwxyz\u017f\u212a\u0131\u0130".toList

/-- The letters that keywords are spelled in. -/
def capitals : List Char :=
  "ABCDEFGHIJKLMNOPQRSTUVWXYZ".toList

theorem mem_letters {c : Char} (h : foldLetter c ∈ capitals) : c ∈ letters := by
  by_cases hc : c.toNat < 128
  · exact ascii_induction (P := fun c => foldLetter c ∈ capitals → c ∈ letters)
      (by set_option maxRecDepth 1024 in decide) hc h
  · unfold foldLetter at h
    split at h
    · subst c
      decide
    split at h
    · subst c
      decide
    split at h
    · rename_i hi
      rcases hi with rfl | rfl <;> decide
    · have hsmall : ∀ d ∈ capitals, d.toNat < 128 := by decide
      rw [toUpper_beyond_ascii hc] at h
      exact absurd (hsmall c h) hc

theorem isWord_of_mem_letters : ∀ c ∈ letters, isWord c = true := by
  set_option maxRecDepth 1024 in decide

/-- The combining dot that the small dotted i is written with. -/
def dot : Char := '\u0307'

theorem isWord_dot : isWord dot = false := by set_option maxRecDepth 2048 in decide

/-- A character in a letter case. -/
def LetterCase.applyChar : LetterCase → Char → Text
  | .upper, c => upperChar c
  | .lower, c => lowerChar c
  | .preserve, c => [c]

theorem LetterCase.apply_eq (m : LetterCase) (s : Text) : m.apply s = s.flatMap m.applyChar := by
  cases m with
  | upper => rfl
  | lower => rfl
  | preserve => exact (List.flatMap_singleton' s).symm

/-- A letter is written as two characters. -/
def LetterCase.splits (m : LetterCase) (c : Char) : Bool :=
  m = .lower ∧ c = '\u0130'

/-- A letter is written as a letter that stands for the same one, and is not changed again. -/
theorem LetterCase.applyChar_letter (m : LetterCase) :
    ∀ c ∈ letters, m.splits c = false →
      ∃ d ∈ letters, m.applyChar c = [d] ∧ foldLetter d = foldLetter c ∧ m.applyChar d = [d] := by
  cases m <;> set_option maxRecDepth 1024 in decide

theorem LetterCase.applyChar_split {m : LetterCase} {c : Char} (h : m.splits c = true) :
    m.applyChar c = ['i', dot] ∧ foldLetter c = 'I' := by
  simp only [splits, decide_eq_true_eq] at h
  obtain ⟨rfl, rfl⟩ := h
  decide

end SqlLayout
