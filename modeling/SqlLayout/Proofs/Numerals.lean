import Mathlib.Algebra.Group.Nat.Defs
import SqlLayout.Number.Integer

/-! # Numerals

An integer of at most `maxDigits` digits is read back from the text that it is written as.
-/

namespace SqlLayout

theorem toNat_lt_of_isDigit {c : Char} (h : c.isDigit = true) : c.toNat < 128 := by
  simp only [Char.isDigit, Bool.and_eq_true, decide_eq_true_eq] at h
  exact Nat.lt_of_le_of_lt (show c.toNat ≤ '9'.toNat from h.2) (by decide)

theorem digitValue?_of_isDigit {c : Char} (h : c.isDigit = true) : digitValue? c = some (c.toNat - 48) := by
  rw [digitValue?, if_pos (toNat_lt_of_isDigit h), if_pos h]

theorem not_isBlank_of_isDigit {c : Char} (h : c.isDigit = true) : isBlank c = false := by
  simp only [Char.isDigit, Bool.and_eq_true, decide_eq_true_eq] at h
  have hzero : 48 ≤ c.toNat := h.1
  have hnine : c.toNat ≤ 57 := h.2
  simp only [isBlank, inRanges, blankRanges, List.any_cons, List.any_nil, Bool.or_false]
  simp
  omega

theorem underscoresInside_of_not_mem {s : Text} (h : '_' ∉ s) : underscoresInside s = true := by
  fun_induction underscoresInside s <;> simp_all

theorem mapM_digitValue? {s : Text} (h : ∀ c ∈ s, c.isDigit = true) :
    s.mapM digitValue? = some (s.map fun c => c.toNat - 48) := by
  induction s with
  | nil => rfl
  | cons c s ih =>
      rw [List.forall_mem_cons] at h
      rw [List.mapM_cons, digitValue?_of_isDigit h.1, ih h.2]
      rfl

theorem natOfDigits_toDigits (n : Nat) :
    natOfDigits ((Nat.toDigits 10 n).map fun c => c.toNat - 48) = n := by
  rw [natOfDigits, List.foldl_map]
  exact Nat.ofDigitChars_ten_toDigits

theorem readNat?_toDigits {n : Nat} (h : n < 10 ^ maxDigits) : readNat? (Nat.toDigits 10 n) = some n := by
  have hdigits : ∀ c ∈ Nat.toDigits 10 n, c.isDigit = true :=
    fun c hc => Nat.isDigit_of_mem_toDigits (by decide) (by decide) hc
  have hunderscore : '_' ∉ Nat.toDigits 10 n := fun hmem => absurd (hdigits _ hmem) (by decide)
  have hlength : (Nat.toDigits 10 n).length ≤ maxDigits :=
    (Nat.length_toDigits_le_iff (by decide) (by decide)).mpr h
  have hvalue := natOfDigits_toDigits n
  have hfilter : (Nat.toDigits 10 n).filter (· != '_') = Nat.toDigits 10 n :=
    List.filter_eq_self.mpr fun c hc => by
      rw [bne_iff_ne]
      rintro rfl
      exact hunderscore hc
  rw [readNat?, if_pos (underscoresInside_of_not_mem hunderscore), hfilter, mapM_digitValue? hdigits]
  cases hcs : Nat.toDigits 10 n with
  | nil => exact absurd hcs Nat.toDigits_ne_nil
  | cons c cs =>
      rw [hcs] at hvalue hlength
      simp only [List.map_cons, List.length_map] at hvalue ⊢
      rw [if_pos (Nat.lt_of_succ_le hlength), hvalue]

theorem isNumberBlank_of_mem_writeInt {n : Int} {c : Char} (hc : c ∈ writeInt n) : isNumberBlank c = false := by
  have hdigit : ∀ c ∈ Nat.toDigits 10 n.natAbs, isNumberBlank c = false := fun c hc => by
    have hblank := not_isBlank_of_isDigit (Nat.isDigit_of_mem_toDigits (by decide) (by decide) hc)
    rw [isNumberBlank, hblank, Bool.false_and]
  unfold writeInt at hc
  split at hc
  · rcases List.mem_cons.mp hc with rfl | hc
    · decide
    · exact hdigit c hc
  · exact hdigit c hc

theorem dropWhile_eq_self {p : Char → Bool} {s : Text} (h : ∀ c ∈ s, p c = false) : s.dropWhile p = s := by
  cases s with
  | nil => rfl
  | cons c s => rw [List.dropWhile_cons, h c (by simp), if_neg (by simp)]

theorem readInt?_writeInt {n : Int} (h : n.natAbs < 10 ^ maxDigits) : readInt? (writeInt n) = some n := by
  have hread := readNat?_toDigits h
  have hinner : (((writeInt n).dropWhile isNumberBlank).reverse.dropWhile isNumberBlank).reverse = writeInt n := by
    rw [dropWhile_eq_self fun c => isNumberBlank_of_mem_writeInt,
      dropWhile_eq_self fun c hc => isNumberBlank_of_mem_writeInt (List.mem_reverse.mp hc), List.reverse_reverse]
  have hdigit : ∀ {c : Char} {digits : Text}, Nat.toDigits 10 n.natAbs = c :: digits → c.isDigit = true :=
    fun heq => Nat.isDigit_of_mem_toDigits (by decide) (by decide) (heq ▸ List.mem_cons_self ..)
  simp only [readInt?, hinner]
  by_cases hn : n < 0
  · simp only [writeInt, if_pos hn, hread]
    exact congrArg some (show -(n.natAbs : Int) = n by omega)
  · simp only [writeInt, if_neg hn]
    -- a digit is no sign
    split
    · exact absurd (hdigit ‹_›) (by decide)
    · exact absurd (hdigit ‹_›) (by decide)
    · rw [hread]
      exact congrArg some (show (n.natAbs : Int) = n by omega)

end SqlLayout
