import SqlLayout.Text.Basic
import SqlLayout.Text.Utf8

/-! # Reading back what was written

The bytes of a text spell the text. A character of several bytes is opened by its first byte, which
also bounds the second; the others add six bits each. Line ends stay as they are in a text without
carriage returns.
-/

namespace SqlLayout

namespace Utf8

theorem toNat_ofNat {n : Nat} (h : n < 256) : (UInt8.ofNat n).toNat = n := by
  rw [UInt8.toNat_ofNat']
  exact Nat.mod_eq_of_lt h

/-! ## First bytes -/

/-- A first byte opens a character of so many bytes after the next one, with so many bits, and does
    not rule out the next byte. -/
def Opens (first bits after next : Nat) : Prop :=
  ∃ low high, Lead.ofByte (.ofNat first) = .opened ⟨.ofNat first, 1, bits, after, low, high⟩ ∧
    low ≤ next ∧ next ≤ high

theorem opens_two {n : Nat} (h : 0x80 ≤ n) (h' : n < 0x800) :
    Opens (0xC0 + n / 64) (n / 64) 0 (0x80 + n % 64) := by
  refine ⟨0x80, 0xBF, ?_, by omega, by omega⟩
  have hbits : 0xC0 + n / 64 - 0xC0 = n / 64 := by omega
  rw [Lead.ofByte, toNat_ofNat (by omega), if_neg (by omega), if_neg (by omega), if_pos (by omega), hbits]

theorem opens_three {n : Nat} (h : 0x800 ≤ n) (h' : n < 0x10000) (hs : n < 0xD800 ∨ 0xDFFF < n) :
    Opens (0xE0 + n / 4096) (n / 4096) 1 (0x80 + n / 64 % 64) := by
  have hbits : 0xE0 + n / 4096 - 0xE0 = n / 4096 := by omega
  unfold Opens
  simp only [Lead.ofByte]
  rw [toNat_ofNat (by omega), if_neg (by omega), if_neg (by omega), if_neg (by omega)]
  by_cases he : n / 4096 = 0
  · exact ⟨0xA0, 0xBF, by simp [he], by omega, by omega⟩
  · rw [if_neg (by omega)]
    by_cases hd : n / 4096 = 0xD
    · exact ⟨0x80, 0x9F, by simp [hd], by omega, by omega⟩
    · exact ⟨0x80, 0xBF, by rw [if_neg (by omega), if_pos (by omega), hbits], by omega, by omega⟩

theorem opens_four {n : Nat} (h : 0x10000 ≤ n) (h' : n < 0x110000) :
    Opens (0xF0 + n / 262144) (n / 262144) 2 (0x80 + n / 4096 % 64) := by
  have hbits : 0xF0 + n / 262144 - 0xF0 = n / 262144 := by omega
  unfold Opens
  simp only [Lead.ofByte]
  rw [toNat_ofNat (by omega), if_neg (by omega), if_neg (by omega), if_neg (by omega),
    if_neg (by omega), if_neg (by omega), if_neg (by omega)]
  by_cases hz : n / 262144 = 0
  · exact ⟨0x90, 0xBF, by simp [hz], by omega, by omega⟩
  · rw [if_neg (by omega)]
    by_cases hf : n / 262144 = 4
    · exact ⟨0x80, 0x8F, by simp [hf], by omega, by omega⟩
    · exact ⟨0x80, 0xBF, by rw [if_pos (by omega), hbits], by omega, by omega⟩

/-! ## Characters -/

/-- The text read with a character in front. -/
def ahead (c : Char) (r : Except Error Reading) : Except Error Reading :=
  r.map fun r => (c :: r.1, r.2)

theorem readFrom_opens (position : Nat) {first bits after next : Nat}
    (h : Opens first bits after next) (rest : Bytes) :
    ∃ low high, readFrom position none (.ofNat first :: rest)
      = readFrom (position + 1) (some ⟨.ofNat first, 1, bits, after, low, high⟩) rest ∧
        low ≤ next ∧ next ≤ high := by
  obtain ⟨low, high, hlead, hnext⟩ := h
  exact ⟨low, high, by rw [readFrom, hlead], hnext⟩

theorem readFrom_last (position : Nat) {o : Opened} (ho : o.after = 0) {n : Nat}
    (h : o.low ≤ 0x80 + n % 64) (h' : 0x80 + n % 64 ≤ o.high) (rest : Bytes) :
    readFrom position (some o) (.ofNat (0x80 + n % 64) :: rest)
      = ahead (Char.ofNat (o.bits * 64 + n % 64)) (readFrom (position + 1) none rest) := by
  have hbits : 0x80 + n % 64 - 0x80 = n % 64 := by omega
  rw [readFrom, toNat_ofNat (by omega), if_pos (by simp [h, h']), ho, hbits]
  rfl

theorem readFrom_more (position : Nat) {o : Opened} {after : Nat} (ho : o.after = after + 1) {n : Nat}
    (h : o.low ≤ 0x80 + n % 64) (h' : 0x80 + n % 64 ≤ o.high) (rest : Bytes) :
    readFrom position (some o) (.ofNat (0x80 + n % 64) :: rest)
      = readFrom (position + 1)
          (some ⟨o.lead, o.read + 1, o.bits * 64 + n % 64, after, 0x80, 0xBF⟩) rest := by
  have hbits : 0x80 + n % 64 - 0x80 = n % 64 := by omega
  rw [readFrom, toNat_ofNat (by omega), if_pos (by simp [h, h']), ho, hbits]

/-- The bytes of a character are read as the character. -/
theorem readFrom_encodeChar (position : Nat) (c : Char) (rest : Bytes) :
    readFrom position none (encodeChar c ++ rest)
      = ahead c (readFrom (position + (encodeChar c).length) none rest) := by
  have hvalid : c.toNat < 0xD800 ∨ 0xDFFF < c.toNat ∧ c.toNat < 0x110000 := c.valid
  have hc : Char.ofNat c.toNat = c := Char.ofNat_toNat c
  obtain ⟨n, hn⟩ : ∃ n, c.toNat = n := ⟨_, rfl⟩
  rw [hn] at hvalid hc
  simp only [encodeChar, hn]
  by_cases h₁ : n < 0x80
  · rw [if_pos h₁, List.singleton_append, readFrom, Lead.ofByte, toNat_ofNat (by omega), if_pos h₁, hc]
    rfl
  · rw [if_neg h₁]
    by_cases h₂ : n < 0x800
    · rw [if_pos h₂, List.cons_append, List.singleton_append]
      obtain ⟨low, high, hread, hlow, hhigh⟩ :=
        readFrom_opens position (opens_two (by omega) h₂) (.ofNat (0x80 + n % 64) :: rest)
      have hbits : n / 64 * 64 + n % 64 = n := by omega
      rw [hread, readFrom_last _ rfl hlow hhigh, hbits, hc]
      rfl
    · rw [if_neg h₂]
      by_cases h₃ : n < 0x10000
      · simp only [if_pos h₃, List.cons_append, List.nil_append]
        obtain ⟨low, high, hread, hlow, hhigh⟩ :=
          readFrom_opens position (opens_three (by omega) h₃ (by omega))
            (.ofNat (0x80 + n / 64 % 64) :: .ofNat (0x80 + n % 64) :: rest)
        have hbits : (n / 4096 * 64 + n / 64 % 64) * 64 + n % 64 = n := by omega
        rw [hread, readFrom_more _ rfl hlow hhigh,
          readFrom_last _ rfl (by simp) (show 0x80 + n % 64 ≤ 0xBF by omega), hbits, hc]
        rfl
      · simp only [if_neg h₃, List.cons_append, List.nil_append]
        obtain ⟨low, high, hread, hlow, hhigh⟩ :=
          readFrom_opens position (opens_four (n := n) (by omega) (by omega))
            (.ofNat (0x80 + n / 4096 % 64) :: .ofNat (0x80 + n / 64 % 64) :: .ofNat (0x80 + n % 64)
              :: rest)
        have hbits :
            ((n / 262144 * 64 + n / 4096 % 64) * 64 + n / 64 % 64) * 64 + n % 64 = n := by
          omega
        rw [hread, readFrom_more _ rfl hlow hhigh,
          readFrom_more _ rfl (by simp) (show 0x80 + n / 64 % 64 ≤ 0xBF by omega),
          readFrom_last _ rfl (by simp) (show 0x80 + n % 64 ≤ 0xBF by omega), hbits, hc]
        rfl

theorem readFrom_encode (position : Nat) (s : Text) :
    readFrom position none (encode s) = .ok (s, none) := by
  induction s generalizing position with
  | nil => rfl
  | cons c s ih =>
      rw [encode, List.flatMap_cons, readFrom_encodeChar]
      exact congrArg (ahead c) (ih _)

/-- The bytes of a text spell the text. -/
theorem decode_encode (s : Text) : decode (encode s) = .ok s := by
  rw [decode, readFrom_encode]

end Utf8

namespace Text

/-- A text without carriage returns has its line ends as they should be. -/
theorem unifyLineEnds_of_not_mem {s : Text} (h : '\r' ∉ s) : unifyLineEnds s = s := by
  unfold unifyLineEnds
  induction s with
  | nil => rfl
  | cons c s ih =>
      rw [List.mem_cons, not_or] at h
      rw [unifyLineEndsFrom, if_neg (by simp), if_neg (fun hc => h.1 hc.symm), ih h.2]

end Text

end SqlLayout
