import Mathlib.Data.Rat.Floor
import SqlLayout.Proofs.NamedValues
import SqlLayout.Proofs.NumeralTexts

/-! # Values of options that take a number

An option that takes a number is given one as an integer, as a text that spells one, or as a floating
point number. Validation keeps an integer that is not negative, and of a number that is not whole it
takes the whole part. An infinity has none, and it alone stops the validation with a fault that is not
about the value.
-/

namespace SqlLayout

/-- The number that a double stands for. -/
def Double.value? : Double → Option ℚ
  | .finite negative m q => some ((if negative then -1 else 1) * (m * 2 ^ q))
  | _ => none

/-- A number without what follows its point. -/
def wholePart (r : ℚ) : ℤ :=
  if 0 ≤ r then ⌊r⌋ else ⌈r⌉

namespace Setting

/-- The value is an integer, in one of the forms that a host may give it in. -/
inductive Denotes : Setting → Int → Prop where
  | number {n : Int} : Denotes (.number n) n
  | text {s : Text} {n : Int} (h : SpellsInt s n) : Denotes (.text s) n
  | real {x : Double} {n : Int} (h : x.value? = some (n : ℚ)) : Denotes (.real x) n

/-- The integer that a value is taken for. -/
inductive Gives : Setting → Int → Prop where
  | exact {given : Setting} {n : Int} (h : given.Denotes n) : Gives given n
  /-- The value is a number between two integers, and the one that is nearer to zero is taken. -/
  | fraction {x : Double} {r : ℚ} (h : x.value? = some r) (hr : ∀ n : ℤ, r ≠ n) :
      Gives (.real x) (wholePart r)

end Setting

/-! ## Whole parts -/

theorem wholePart_intCast (n : ℤ) : wholePart n = n := by
  rw [wholePart, Int.floor_intCast, Int.ceil_intCast, ite_self]

theorem wholePart_neg (r : ℚ) : wholePart (-r) = -wholePart r := by
  unfold wholePart
  rcases lt_trichotomy r 0 with h | rfl | h
  · rw [if_pos (by linarith), if_neg (by linarith), Int.floor_neg]
  · simp
  · rw [if_neg (by linarith), if_pos (by linarith), Int.ceil_neg]

namespace Double

/-- A mantissa times a power of two, cut to a whole number. -/
theorem floor_size (m : Nat) (q : Int) : ⌊(m : ℚ) * 2 ^ q⌋ =
    ((if 0 ≤ q then m * Nat.pow 2 q.toNat else m / Nat.pow 2 (-q).toNat : Nat) : Int) := by
  by_cases hq : 0 ≤ q
  · obtain ⟨k, rfl⟩ := Int.eq_ofNat_of_zero_le hq
    have hcast : (m : ℚ) * 2 ^ (k : Int) = ((m * 2 ^ k : Nat) : ℚ) := by
      push_cast
      simp
    rw [if_pos hq, hcast, Int.floor_natCast]
    rfl
  · obtain ⟨k, hk⟩ := Int.eq_ofNat_of_zero_le (show 0 ≤ -q by omega)
    have hcast : (m : ℚ) * 2 ^ q = (m : ℚ) / ((2 ^ k : Nat) : ℚ) := by
      rw [show q = -(k : Int) by omega, zpow_neg, zpow_natCast, div_eq_mul_inv]
      push_cast
      rfl
    rw [if_neg hq, hk, hcast, Rat.floor_natCast_div_natCast]
    rfl

theorem truncated_eq_wholePart {negative : Bool} {m : Nat} {q : Int} {r : ℚ}
    (h : value? (.finite negative m q) = some r) : truncated negative m q = wholePart r := by
  have hsize : wholePart ((m : ℚ) * 2 ^ q)
      = ((if 0 ≤ q then m * Nat.pow 2 q.toNat else m / Nat.pow 2 (-q).toNat : Nat) : Int) := by
    have hpos : 0 ≤ (m : ℚ) * 2 ^ q := mul_nonneg m.cast_nonneg (zpow_nonneg zero_le_two q)
    rw [wholePart, if_pos hpos, floor_size]
  obtain rfl := Option.some.inj h
  cases negative with
  | false => simp only [truncated, Bool.false_eq_true, if_false, one_mul, hsize]
  | true => simp only [truncated, if_true, neg_one_mul, wholePart_neg, hsize]

end Double

/-! ## Reading a count -/

namespace Validation

theorem readCount_real {option : OptionName} {x : Double} {r : ℚ} (h : x.value? = some r) :
    readCount option (.real x) = .ok (wholePart r) := by
  cases x with
  | nan => cases h
  | infinity negative => cases h
  | finite negative m q => rw [readCount, Double.truncated_eq_wholePart h]

/-- The integer that is read is the one that the value is taken for. -/
theorem readCount_ok_iff {option : OptionName} {given : Setting} {n : Int} :
    readCount option given = .ok n ↔ given.Gives n := by
  constructor
  · intro h
    cases given with
    | absent => cases h
    | flag b => cases h
    | list items => cases h
    | map entries => cases h
    | number k =>
        cases h
        exact .exact .number
    | text s =>
        rw [readCount] at h
        cases hs : readInt? s with
        | none => simp [hs] at h
        | some k =>
            simp only [hs, Except.ok.injEq] at h
            subst h
            exact .exact (.text (readInt?_eq_some_iff.mp hs))
    | real x =>
        cases hx : x.value? with
        | none =>
            cases x with
            | finite negative m q => cases hx
            | nan => cases h
            | infinity negative => cases h
        | some r =>
            rw [readCount_real hx] at h
            obtain rfl := Except.ok.inj h
            by_cases hr : ∃ k : ℤ, r = k
            · obtain ⟨k, rfl⟩ := hr
              rw [wholePart_intCast]
              exact .exact (.real hx)
            · exact .fraction hx (not_exists.mp hr)
  · intro h
    cases h with
    | exact h =>
        cases h with
        | number => rfl
        | text h => rw [readCount, readInt?_eq_some_iff.mpr h]
        | real h => rw [readCount_real h, wholePart_intCast]
    | fraction h hr => exact readCount_real h

theorem readCount_infinite {option : OptionName} {given : Setting}
    (h : readCount option given = .error .infinite) : ∃ negative, given = .real (.infinity negative) := by
  unfold readCount at h
  split at h
  · cases h
  · split at h <;> cases h
  · cases h
  · next negative => exact ⟨negative, rfl⟩
  · cases h

end Validation

/-! ## Validation -/

namespace OptionName

/-- The options that take a number. -/
def counts : List OptionName :=
  [linesBetweenQueries, maxColumnLength]

theorem mem_counts_iff {option : OptionName} :
    option ∈ counts ↔ option.spec.kind.choices? = none := by
  cases option <;> decide

/-- What an option makes of a value that it takes. -/
inductive Takes (option : OptionName) : Setting → Setting → Prop where
  | choice {choices : List Text} {s : Text} (hc : option.spec.kind.choices? = some choices)
      (hs : s ∈ choices) : Takes option (.text s) (.text s)
  | count {given : Setting} {n : Nat} (ho : option ∈ counts) (h : given.Gives n) :
      Takes option given (.number n)

end OptionName

/-- What is left of named values that are allowed: those of an option, in order. -/
inductive Checked : Entries → Entries → Prop where
  | nil : Checked [] []
  | unknown {name : Text} {given : Setting} {rest checked : Entries}
      (hname : ∀ option : OptionName, option.hostName ≠ name) (h : Checked rest checked) :
      Checked ((name, given) :: rest) checked
  | absent {name : Text} {rest checked : Entries} (h : Checked rest checked) :
      Checked ((name, .absent) :: rest) checked
  | taken {option : OptionName} {given value : Setting} {rest checked : Entries}
      (ht : option.Takes given value) (h : Checked rest checked) :
      Checked ((option.hostName, given) :: rest) ((option.hostName, value) :: checked)

namespace Validation

variable {option : OptionName} {given value : Setting}

theorem check_ok_iff : check option given = .ok value ↔ option.Takes given value := by
  unfold check
  cases hc : option.spec.kind.choices? with
  | some choices =>
      simp only
      constructor
      · intro h
        cases given with
        | text s =>
            simp only at h
            split at h
            · next hs =>
                obtain rfl := Except.ok.inj h
                exact .choice hc (List.contains_iff_mem.mp hs)
            · cases h
        | _ => cases h
      · intro h
        cases h with
        | choice hc' hs =>
            obtain rfl := Option.some.inj (hc.symm.trans hc')
            exact if_pos (List.contains_iff_mem.mpr hs)
        | count ho h =>
            rw [OptionName.mem_counts_iff, hc] at ho
            cases ho
  | none =>
      simp only
      constructor
      · intro h
        cases hread : readCount option given with
        | error fault => simp [hread] at h
        | ok n =>
            simp only [hread] at h
            split at h
            · cases h
            · next hn =>
                obtain ⟨k, rfl⟩ := Int.eq_ofNat_of_zero_le (Int.not_lt.mp hn)
                obtain rfl := Except.ok.inj h
                exact .count (OptionName.mem_counts_iff.mpr hc) (readCount_ok_iff.mp hread)
      · intro h
        cases h with
        | choice hc' hs => cases hc.symm.trans hc'
        | count ho h =>
            rw [readCount_ok_iff.mpr h]
            exact if_neg (by omega)

theorem check_infinite (h : check option given = .error .infinite) :
    option ∈ OptionName.counts ∧ ∃ negative, given = .real (.infinity negative) := by
  unfold check at h
  cases hc : option.spec.kind.choices? with
  | some choices =>
      simp only [hc] at h
      split at h
      · split at h <;> cases h
      · cases h
  | none =>
      simp only [hc] at h
      refine ⟨OptionName.mem_counts_iff.mpr hc, ?_⟩
      cases hread : readCount option given with
      | error fault =>
          simp only [hread, Except.error.injEq] at h
          exact readCount_infinite (hread.trans (congrArg _ h))
      | ok n =>
          simp only [hread] at h
          split at h <;> cases h

theorem checkEntry_hostName (hgiven : given ≠ .absent) : checkEntry option.hostName given =
    match check option given with
    | .error fault => .error fault
    | .ok value => .ok [(option.hostName, value)] := by
  unfold checkEntry
  rw [OptionName.ofHostName?_hostName]
  cases given with
  | absent => exact absurd rfl hgiven
  | _ => rfl

theorem checkEntry_absent (name : Text) : checkEntry name .absent = .ok [] := by
  unfold checkEntry
  cases OptionName.ofHostName? name <;> rfl

theorem checkEntry_unknown {name : Text} (h : ∀ option : OptionName, option.hostName ≠ name) :
    checkEntry name given = .ok [] := by
  unfold checkEntry
  cases hname : OptionName.ofHostName? name with
  | none => rfl
  | some option => exact absurd (OptionName.hostName_of_ofHostName? hname) (h option)

end Validation

theorem OptionName.Takes.ne_absent {option : OptionName} {given value : Setting}
    (h : option.Takes given value) : given ≠ .absent := by
  rintro rfl
  cases h with
  | count _ h =>
      cases h with
      | exact h => cases h

theorem entry_cases (name : Text) (given : Setting) :
    (∀ option : OptionName, option.hostName ≠ name) ∨ given = .absent ∨
      ∃ option : OptionName, option.hostName = name ∧ given ≠ .absent := by
  by_cases habsent : given = .absent
  · exact .inr (.inl habsent)
  · by_cases hname : ∃ option : OptionName, option.hostName = name
    · obtain ⟨option, hoption⟩ := hname
      exact .inr (.inr ⟨option, hoption, habsent⟩)
    · exact .inl (not_exists.mp hname)

theorem validate_ok_iff {entries checked : Entries} :
    validate entries = .ok checked ↔ Checked entries checked := by
  constructor
  · intro h
    induction entries generalizing checked with
    | nil =>
        cases h
        exact .nil
    | cons e rest ih =>
        obtain ⟨first, others, hfirst, hrest, rfl⟩ := validate_cons_ok h
        have hothers := ih hrest
        obtain ⟨name, given⟩ := e
        rcases entry_cases name given with hname | rfl | ⟨option, rfl, hgiven⟩
        · rw [Validation.checkEntry_unknown hname] at hfirst
          obtain rfl := Except.ok.inj hfirst
          exact .unknown hname hothers
        · rw [Validation.checkEntry_absent] at hfirst
          obtain rfl := Except.ok.inj hfirst
          exact .absent hothers
        · rw [Validation.checkEntry_hostName hgiven] at hfirst
          cases hvalue : Validation.check option given with
          | error fault => simp [hvalue] at hfirst
          | ok value =>
              simp only [hvalue, Except.ok.injEq] at hfirst
              subst hfirst
              exact .taken (Validation.check_ok_iff.mp hvalue) hothers
  · intro h
    induction h with
    | nil => rfl
    | unknown hname h ih => rw [validate, Validation.checkEntry_unknown hname, ih]; rfl
    | absent h ih => rw [validate, Validation.checkEntry_absent, ih]; rfl
    | taken ht h ih =>
        rw [validate, Validation.checkEntry_hostName ht.ne_absent, Validation.check_ok_iff.mpr ht, ih]
        rfl

theorem infinity_of_checkEntry {name : Text} {given : Setting}
    (h : Validation.checkEntry name given = .error .infinite) :
    ∃ option ∈ OptionName.counts, ∃ negative,
      option.hostName = name ∧ given = .real (.infinity negative) := by
  rcases entry_cases name given with hname | rfl | ⟨option, rfl, hgiven⟩
  · rw [Validation.checkEntry_unknown hname] at h
    cases h
  · rw [Validation.checkEntry_absent] at h
    cases h
  · rw [Validation.checkEntry_hostName hgiven] at h
    cases hvalue : Validation.check option given with
    | ok value => simp [hvalue] at h
    | error fault =>
        simp only [hvalue, Except.error.injEq] at h
        subst h
        obtain ⟨ho, negative, hinfinity⟩ := Validation.check_infinite hvalue
        exact ⟨option, ho, negative, rfl, hinfinity⟩

theorem infinity_of_validate {entries : Entries} (h : validate entries = .error .infinite) :
    ∃ option ∈ OptionName.counts, ∃ negative,
      (option.hostName, .real (.infinity negative)) ∈ entries := by
  induction entries with
  | nil => cases h
  | cons e rest ih =>
      rw [validate] at h
      cases hfirst : Validation.checkEntry e.1 e.2 with
      | error fault =>
          simp only [hfirst, Except.error.injEq] at h
          obtain ⟨option, ho, negative, hname, hgiven⟩ := infinity_of_checkEntry (hfirst.trans (congrArg _ h))
          refine ⟨option, ho, negative, ?_⟩
          rw [hname, ← hgiven]
          exact List.mem_cons_self
      | ok first =>
          cases hrest : validate rest with
          | ok others => simp [hfirst, hrest] at h
          | error fault =>
              simp only [hfirst, hrest, Except.error.injEq] at h
              obtain ⟨option, ho, negative, hmem⟩ := ih (hrest.trans (congrArg _ h))
              exact ⟨option, ho, negative, List.mem_cons_of_mem e hmem⟩

/-- Named values pass the validation if every option takes the value that it has, and come out as their
    options take them: for a number with the integer that the value is or is cut to, which must not be
    negative. A fault is about the value, unless an option that takes a number is given an infinity. -/
theorem validate_counts (entries : Entries) :
    (∀ checked, validate entries = .ok checked ↔ Checked entries checked) ∧
      (validate entries = .error .infinite → ∃ option ∈ OptionName.counts, ∃ negative,
        (option.hostName, .real (.infinity negative)) ∈ entries) :=
  ⟨fun _ => validate_ok_iff, infinity_of_validate⟩

/-- One and a half passes as one, and a text with blanks, a sign and an underscore as its number. An
    infinity is what stops the validation of one. -/
theorem validate_counts_forms :
    Checked [("maxColumnLength".toList, .real (.finite false 3 (-1))),
        ("linesBetweenQueries".toList, .text " +1_0 ".toList)]
      [("maxColumnLength".toList, .number 1), ("linesBetweenQueries".toList, .number 10)] ∧
    ∃ option ∈ OptionName.counts, ∃ negative, (option.hostName, Setting.real (.infinity negative)) ∈
      [("linesBetweenQueries".toList, Setting.real (.infinity true))] := by
  constructor
  · apply ((validate_counts _).1 _).mp
    rfl
  · exact (validate_counts _).2 rfl

/-- An infinity is no integer, and the fault is not about the value; one and a half is none either, and
    passes. -/
theorem validate_infinity :
    validate [("maxColumnLength".toList, .real (.infinity false))] = .error .infinite ∧
      validate [("maxColumnLength".toList, .real (.finite false 3 (-1)))]
        = .ok [("maxColumnLength".toList, .number 1)] ∧
      ∀ n, ¬(Setting.real (.finite false 3 (-1))).Denotes n := by
  refine ⟨rfl, rfl, fun n h => ?_⟩
  cases h with
  | real h =>
      have hvalue : (3 : ℚ) * 2⁻¹ = n := by simpa [Double.value?] using h
      have hdouble : (3 : ℚ) = ((n * 2 : Int) : ℚ) := by
        push_cast
        linarith
      have hwhole : (3 : Int) = n * 2 := by exact_mod_cast hdouble
      omega

end SqlLayout
