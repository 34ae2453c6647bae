import SqlLayout.CommandLine.Arguments
import SqlLayout.Proofs.Characters
import SqlLayout.Proofs.NamedValues
import SqlLayout.Proofs.Numerals

/-! # Values in writing

On the command line and in a config file options are written: a name and a value, both of them words.
A value that is allowed is read back from its text in either place, if it is no number with more digits
than are read.
-/

namespace SqlLayout

/-- One word, and nothing around it. -/
structure Text.OneWord (s : Text) : Prop where
  ne_nil : s ≠ []
  isWord : ∀ c ∈ s, isWord c = true

theorem Text.OneWord.not_mem {s : Text} (h : s.OneWord) {c : Char} (hc : SqlLayout.isWord c = false) : c ∉ s := by
  intro hmem
  rw [h.isWord c hmem] at hc
  simp at hc

theorem isWord_of_isDigit {c : Char} (h : c.isDigit = true) : isWord c = true := by
  rw [isWord, if_pos (toNat_lt_of_isDigit h), Char.isAlphanum, h, Bool.or_true, Bool.true_or]

namespace OptionName

theorem oneWord_hostName (option : OptionName) : option.hostName.OneWord := by
  cases option <;> exact ⟨by decide, by decide⟩

theorem oneWord_fieldName (option : OptionName) : option.fieldName.OneWord := by
  cases option <;> exact ⟨by decide, by decide⟩

theorem oneWord_choice {option : OptionName} {choices : List Text} {s : Text}
    (hc : option.spec.kind.choices? = some choices) (hs : s ∈ choices) : s.OneWord := by
  have hall : ∀ choices ∈ option.spec.kind.choices?, ∀ s ∈ choices, s ≠ [] ∧ ∀ c ∈ s, isWord c = true := by
    cases option <;> decide
  obtain ⟨hne, hword⟩ := hall choices hc s hs
  exact ⟨hne, hword⟩

/-- A value that is allowed and can be read: a number has no more digits than are read. -/
structure Valid (option : OptionName) (value : Setting) : Prop where
  allowed : option.allows value = true
  bounded : ∀ n, value = .number n → n.natAbs < 10 ^ maxDigits

namespace Valid

variable {option : OptionName} {value : Setting} (h : option.Valid value)

include h

/-- A valid value is one of the choices, or a number that is read back from its text. -/
theorem cases :
    (∃ choices s, option.spec.kind.choices? = some choices ∧ s ∈ choices ∧ value = .text s) ∨
      option.spec.kind.choices? = none ∧
        ∃ n, 0 ≤ n ∧ value = .number n ∧ readInt? value.display = some n := by
  cases hc : option.spec.kind.choices? with
  | some choices =>
      obtain ⟨s, rfl, hs⟩ := (allows_of_choices hc).mp h.allowed
      exact .inl ⟨choices, s, rfl, hs, rfl⟩
  | none =>
      obtain ⟨n, rfl, hn⟩ := (allows_of_count hc).mp h.allowed
      exact .inr ⟨rfl, n, hn, rfl, readInt?_writeInt (h.bounded n rfl)⟩

theorem oneWord : value.display.OneWord := by
  rcases h.cases with ⟨choices, s, hc, hs, rfl⟩ | ⟨-, n, hn, rfl, -⟩
  · exact oneWord_choice hc hs
  · have hdigits : Setting.display (.number n) = Nat.toDigits 10 n.natAbs := if_neg (by omega)
    rw [hdigits]
    exact
      { ne_nil := Nat.toDigits_ne_nil
        isWord := fun c hc => isWord_of_isDigit (Nat.isDigit_of_mem_toDigits (by decide) (by decide) hc) }

/-- The text of a valid value is taken on the command line. -/
theorem styleValue : CommandLine.Reading.styleValue option value.display = .ok value := by
  rcases h.cases with ⟨choices, s, hc, hs, rfl⟩ | ⟨hc, n, hn, rfl, hread⟩
  · simp only [CommandLine.Reading.styleValue, hc]
    exact if_pos (List.contains_iff_mem.mpr hs)
  · have hcount : CommandLine.readCount (Setting.display (.number n)) = .ok n := by
      simp only [CommandLine.readCount, hread]
      exact if_neg (by omega)
    simp only [CommandLine.Reading.styleValue, hc, hcount]

end Valid

end OptionName

/-- Values for some of the options, in any order. -/
abbrev Assignment := List (OptionName × Setting)

namespace Assignment

/-- The options are different, and their values valid. -/
structure Valid (v : Assignment) : Prop where
  nodup : (v.map (·.1)).Nodup
  valid : ∀ e ∈ v, e.1.Valid e.2

/-- The values under the host names of their options. -/
def entries (v : Assignment) : Entries :=
  v.map fun e => (e.1.hostName, e.2)

variable {v : Assignment}

theorem Valid.tail {e : OptionName × Setting} (h : Valid (e :: v)) : Valid v :=
  ⟨(List.nodup_cons.mp h.nodup).2, fun x hx => h.valid x (List.mem_cons_of_mem _ hx)⟩

theorem Valid.ne_head {e x : OptionName × Setting} (h : Valid (e :: v)) (hx : x ∈ v) : x.1 ≠ e.1 :=
  fun heq => (List.nodup_cons.mp h.nodup).1 (List.mem_map.mpr ⟨x, hx, heq⟩)

theorem allowed_entries (h : v.Valid) : v.entries.Allowed := by
  intro x hx
  obtain ⟨e, he, rfl⟩ := List.mem_map.mp hx
  exact ⟨e.1, rfl, (h.valid e he).allowed⟩

theorem lookup_entries (v : Assignment) (option : OptionName) :
    v.entries.lookup option.hostName = v.lookup option := by
  induction v with
  | nil => rfl
  | cons e v ih =>
      rw [entries, List.map_cons, lookup_cons_ite, lookup_cons_ite, ← ih]
      simp only [OptionName.hostName_eq_iff]
      rfl

/-- The order does not matter to the value of an option. -/
theorem lookup_reverse (h : v.Valid) (option : OptionName) : v.reverse.lookup option = v.lookup option := by
  induction v with
  | nil => rfl
  | cons e v ih =>
      rw [List.reverse_cons, List.lookup_append, ih h.tail, lookup_cons_ite, lookup_cons_ite]
      by_cases hoption : option = e.1
      · have hnone : v.lookup option = none := by
          rw [List.lookup_eq_none_iff]
          intro x hx
          rw [hoption, bne_iff_ne]
          exact (h.ne_head hx).symm
        rw [if_pos hoption, if_pos hoption, hnone, Option.none_or]
      · rw [if_neg hoption, if_neg hoption, List.lookup_nil, Option.or_none]

end Assignment

end SqlLayout
