import Mathlib.Data.List.TakeWhile
import SqlLayout.Proofs.Numerals

/-! # Texts that spell integers

A text spells an integer if it is a run of decimal digits with single underscores between some of
them, perhaps with a sign before it and blanks around it. Reading an integer finds these texts and
no others.
-/

namespace SqlLayout

/-- Decimal digits of any script, with at most one underscore between two of them, and what the digits
    count. -/
inductive DigitRun : Text → List Nat → Prop where
  | single {c : Char} {d : Nat} (hd : digitValue? c = some d) : DigitRun [c] [d]
  | digit {c : Char} {d : Nat} {s : Text} {ds : List Nat} (hd : digitValue? c = some d)
      (h : DigitRun s ds) : DigitRun (c :: s) (d :: ds)
  | underscore {c : Char} {d : Nat} {s : Text} {ds : List Nat} (hd : digitValue? c = some d)
      (h : DigitRun s ds) : DigitRun (c :: '_' :: s) (d :: ds)

/-- A number in digits, of which there are not too many. -/
def SpellsNat (s : Text) (n : Nat) : Prop :=
  ∃ ds, DigitRun s ds ∧ ds.length ≤ maxDigits ∧ natOfDigits ds = n

/-- A number with a sign or without. -/
inductive SpellsSigned : Text → Int → Prop where
  | plain {s : Text} {n : Nat} (h : SpellsNat s n) : SpellsSigned s n
  | plus {s : Text} {n : Nat} (h : SpellsNat s n) : SpellsSigned ('+' :: s) n
  | minus {s : Text} {n : Nat} (h : SpellsNat s n) : SpellsSigned ('-' :: s) (-n)

/-- An integer with blanks around it. -/
def SpellsInt (s : Text) (n : Int) : Prop :=
  ∃ before inner after, s = before ++ (inner ++ after) ∧ (∀ c ∈ before, isNumberBlank c = true) ∧
    (∀ c ∈ after, isNumberBlank c = true) ∧ SpellsSigned inner n

/-! ## Digits -/

theorem ne_of_digitValue? {c d : Char} {n : Nat} (h : digitValue? c = some n)
    (hd : digitValue? d = none) : c ≠ d := by
  rintro rfl
  rw [h] at hd
  cases hd

theorem not_isBlank_of_digitValue? {c : Char} {n : Nat} (h : digitValue? c = some n) :
    isBlank c = false := by
  have hall : ∀ r ∈ blankRanges, ∀ n ∈ List.range' r.1 (r.2 + 1 - r.1),
      digitValue? (Char.ofNat n) = none := by
    decide +kernel
  rw [Bool.eq_false_iff]
  intro hc
  obtain ⟨r, hr, hlow, hhigh⟩ := (inRanges_iff blankRanges c).mp hc
  have hnone := hall r hr c.toNat (List.mem_range'_1.mpr ⟨hlow, by omega⟩)
  rw [Char.ofNat_toNat, h] at hnone
  cases hnone

theorem underscoresInside_digit {c d : Char} (hc : c ≠ '_') (hd : d ≠ '_') (s : Text) :
    underscoresInside (c :: d :: s) = underscoresInside (d :: s) := by
  rw [underscoresInside] <;> simp_all

theorem underscoresInside_underscore {c d : Char} (hc : c ≠ '_') (hd : d ≠ '_') (s : Text) :
    underscoresInside (c :: '_' :: d :: s) = underscoresInside (d :: s) := by
  rw [underscoresInside] <;> simp_all

namespace DigitRun

variable {s : Text} {ds : List Nat}

theorem exists_cons (h : DigitRun s ds) : ∃ c t d, s = c :: t ∧ digitValue? c = some d := by
  cases h with
  | single hd => exact ⟨_, _, _, rfl, hd⟩
  | digit hd _ => exact ⟨_, _, _, rfl, hd⟩
  | underscore hd _ => exact ⟨_, _, _, rfl, hd⟩

theorem digit_of_mem (h : DigitRun s ds) {c : Char} (hc : c ∈ s) :
    c = '_' ∨ ∃ d, digitValue? c = some d := by
  induction h with
  | single hd =>
      obtain rfl := List.mem_singleton.mp hc
      exact .inr ⟨_, hd⟩
  | digit hd _ ih =>
      rcases List.mem_cons.mp hc with rfl | hc
      · exact .inr ⟨_, hd⟩
      · exact ih hc
  | underscore hd _ ih =>
      rcases List.mem_cons.mp hc with rfl | hc
      · exact .inr ⟨_, hd⟩
      · exact (List.mem_cons.mp hc).elim .inl ih

theorem isBlank_of_mem (h : DigitRun s ds) {c : Char} (hc : c ∈ s) : isBlank c = false := by
  rcases h.digit_of_mem hc with rfl | ⟨d, hd⟩
  · decide
  · exact not_isBlank_of_digitValue? hd

theorem isNumberBlank_of_mem (h : DigitRun s ds) : ∀ c ∈ s, isNumberBlank c = false := by
  intro c hc
  rw [isNumberBlank, h.isBlank_of_mem hc, Bool.false_and]

end DigitRun

theorem mapM_cons_eq_some {f : Char → Option Nat} {c : Char} {s : Text} {ds : List Nat} :
    (c :: s).mapM f = some ds ↔ ∃ d rest, f c = some d ∧ s.mapM f = some rest ∧ ds = d :: rest := by
  rw [List.mapM_cons]
  cases f c with
  | none => simp
  | some d =>
      cases s.mapM f with
      | none => simp
      | some rest => simp [eq_comm]

theorem filter_cons_digit {c : Char} {s : Text} (hc : c ≠ '_') :
    (c :: s).filter (· != '_') = c :: s.filter (· != '_') :=
  List.filter_cons_of_pos (by simpa using hc)

theorem filter_cons_underscore (s : Text) :
    ('_' :: s).filter (· != '_') = s.filter (· != '_') :=
  List.filter_cons_of_neg (by simp)

/-- A run of digits is what has its underscores inside and only digits else. -/
theorem digitRun_iff {s : Text} {ds : List Nat} : DigitRun s ds ↔
    s ≠ [] ∧ underscoresInside s = true ∧ (s.filter (· != '_')).mapM digitValue? = some ds := by
  have hunderscore : digitValue? '_' = none := by decide
  have hnone : [].mapM digitValue? = some [] := rfl
  constructor
  · intro h
    refine ⟨?_, ?_⟩
    · obtain ⟨c, t, _, rfl, -⟩ := h.exists_cons
      simp
    induction h with
    | single hd =>
        have hc := ne_of_digitValue? hd hunderscore
        rw [filter_cons_digit hc, mapM_cons_eq_some]
        refine ⟨?_, _, [], hd, hnone, rfl⟩
        rw [underscoresInside]
        simp_all
    | digit hd h ih =>
        have hc := ne_of_digitValue? hd hunderscore
        obtain ⟨b, t, x, rfl, hb⟩ := h.exists_cons
        rw [underscoresInside_digit hc (ne_of_digitValue? hb hunderscore), filter_cons_digit hc,
          mapM_cons_eq_some]
        exact ⟨ih.1, _, _, hd, ih.2, rfl⟩
    | underscore hd h ih =>
        have hc := ne_of_digitValue? hd hunderscore
        obtain ⟨b, t, x, rfl, hb⟩ := h.exists_cons
        rw [underscoresInside_underscore hc (ne_of_digitValue? hb hunderscore), filter_cons_digit hc,
          filter_cons_underscore, mapM_cons_eq_some]
        exact ⟨ih.1, _, _, hd, ih.2, rfl⟩
  · -- the check of the underscores walks over the digits as the grammar builds them
    rintro ⟨hne, hinside, hdigits⟩
    fun_induction underscoresInside s generalizing ds with
    | case1 => exact absurd rfl hne
    | case2 => cases hinside
    | case3 => cases hinside
    | case4 c hc =>
        rw [filter_cons_digit hc, mapM_cons_eq_some] at hdigits
        obtain ⟨d, rest, hd, hrest, rfl⟩ := hdigits
        cases hrest
        exact .single hd
    | case5 => cases hinside
    | case6 => cases hinside
    | case7 c b s hc hb ih =>
        rw [filter_cons_digit hc, filter_cons_underscore, mapM_cons_eq_some] at hdigits
        obtain ⟨d, rest, hd, hrest, rfl⟩ := hdigits
        exact .underscore hd (ih (by simp) hinside hrest)
    | case8 c b s hc _ _ _ ih =>
        rw [filter_cons_digit hc, mapM_cons_eq_some] at hdigits
        obtain ⟨d, rest, hd, hrest, rfl⟩ := hdigits
        exact .digit hd (ih (by simp) hinside hrest)

theorem DigitRun.ne_nil {s : Text} {ds : List Nat} (h : DigitRun s ds) : ds ≠ [] := by
  cases h <;> simp

/-- Reading digits finds the number that they spell. -/
theorem readNat?_eq_some_iff {s : Text} {n : Nat} : readNat? s = some n ↔ SpellsNat s n := by
  unfold readNat? SpellsNat
  simp only [digitRun_iff]
  constructor
  · intro h
    split at h
    · next hinside =>
        split at h
        · next d ds hdigits =>
            split at h
            · next hlength =>
                refine ⟨d :: ds, ⟨?_, hinside, hdigits⟩, hlength, Option.some.inj h⟩
                rintro rfl
                cases hdigits
            · cases h
        · cases h
    · cases h
  · rintro ⟨ds, ⟨hne, hinside, hdigits⟩, hlength, rfl⟩
    have hds := (digitRun_iff.mpr ⟨hne, hinside, hdigits⟩).ne_nil
    obtain ⟨d, ds, rfl⟩ := List.exists_cons_of_ne_nil hds
    rw [if_pos hinside, hdigits]
    exact if_pos hlength

/-! ## Signs and blanks -/

/-- The integer in a text without blanks around it. -/
def readSigned? (s : Text) : Option Int :=
  match s with
  | '-' :: digits => (readNat? digits).map fun n : Nat => -(n : Int)
  | '+' :: digits => (readNat? digits).map fun n : Nat => (n : Int)
  | digits => (readNat? digits).map fun n : Nat => (n : Int)

theorem readSigned?_eq_some_iff {s : Text} {n : Int} : readSigned? s = some n ↔ SpellsSigned s n := by
  constructor
  · intro h
    unfold readSigned? at h
    split at h
    · obtain ⟨k, hk, rfl⟩ := Option.map_eq_some_iff.mp h
      exact .minus (readNat?_eq_some_iff.mp hk)
    · obtain ⟨k, hk, rfl⟩ := Option.map_eq_some_iff.mp h
      exact .plus (readNat?_eq_some_iff.mp hk)
    · obtain ⟨k, hk, rfl⟩ := Option.map_eq_some_iff.mp h
      exact .plain (readNat?_eq_some_iff.mp hk)
  · intro h
    cases h with
    | minus h => rw [readSigned?, readNat?_eq_some_iff.mpr h, Option.map_some]
    | plus h => rw [readSigned?, readNat?_eq_some_iff.mpr h, Option.map_some]
    | plain h =>
        have hread := readNat?_eq_some_iff.mpr h
        obtain ⟨ds, hrun, -⟩ := h
        obtain ⟨c, t, d, rfl, hd⟩ := hrun.exists_cons
        -- no sign is a digit
        have hminus := ne_of_digitValue? hd (show digitValue? '-' = none by decide)
        have hplus := ne_of_digitValue? hd (show digitValue? '+' = none by decide)
        unfold readSigned?
        split
        · simp_all
        · simp_all
        · rw [hread, Option.map_some]

theorem readInt?_eq (s : Text) : readInt? s
    = readSigned? ((s.dropWhile isNumberBlank).reverse.dropWhile isNumberBlank).reverse := by
  have hcast : ∀ (x : Option Nat) (f : Int → Int),
      (do let n ← x; pure (n : Int)).map f = x.map fun n : Nat => f n := by
    intro x f
    cases x <;> rfl
  simp only [readInt?, hcast]
  rfl

theorem SpellsSigned.isNumberBlank_of_mem {s : Text} {n : Int} (h : SpellsSigned s n) :
    s ≠ [] ∧ ∀ c ∈ s, isNumberBlank c = false := by
  have hnat : ∀ {s : Text} {k : Nat}, SpellsNat s k → s ≠ [] ∧ ∀ c ∈ s, isNumberBlank c = false := by
    rintro s k ⟨ds, hrun, -⟩
    obtain ⟨c, t, _, rfl, -⟩ := hrun.exists_cons
    exact ⟨by simp, hrun.isNumberBlank_of_mem⟩
  cases h with
  | plain h => exact hnat h
  | plus h => exact ⟨by simp, List.forall_mem_cons.mpr ⟨by decide, (hnat h).2⟩⟩
  | minus h => exact ⟨by simp, List.forall_mem_cons.mpr ⟨by decide, (hnat h).2⟩⟩

theorem dropWhile_append_solid {p : Char → Bool} {g s t : Text} (hg : ∀ c ∈ g, p c = true) (hne : s ≠ [])
    (hs : ∀ c ∈ s, p c = false) : (g ++ (s ++ t)).dropWhile p = s ++ t := by
  obtain ⟨c, s, rfl⟩ := List.exists_cons_of_ne_nil hne
  rw [List.dropWhile_append_of_pos hg, List.cons_append, List.dropWhile_cons_of_neg]
  simpa using hs c (by simp)

/-- Reading an integer finds the one that a text spells. -/
theorem readInt?_eq_some_iff {s : Text} {n : Int} : readInt? s = some n ↔ SpellsInt s n := by
  rw [readInt?_eq]
  constructor
  · intro h
    let rest := s.dropWhile isNumberBlank
    refine ⟨s.takeWhile isNumberBlank, (rest.reverse.dropWhile isNumberBlank).reverse,
      (rest.reverse.takeWhile isNumberBlank).reverse, ?_, fun c hc => List.mem_takeWhile_imp hc,
      fun c hc => List.mem_takeWhile_imp (List.mem_reverse.mp hc), readSigned?_eq_some_iff.mp h⟩
    rw [← List.reverse_append, List.takeWhile_append_dropWhile, List.reverse_reverse,
      List.takeWhile_append_dropWhile]
  · rintro ⟨before, inner, after, rfl, hbefore, hafter, hsigned⟩
    obtain ⟨hne, hsolid⟩ := hsigned.isNumberBlank_of_mem
    have hlast : (inner ++ after).reverse.dropWhile isNumberBlank = inner.reverse := by
      have h := dropWhile_append_solid (g := after.reverse) (s := inner.reverse) (t := [])
        (by simpa using hafter) (by simpa using hne) (by simpa using hsolid)
      simpa using h
    rw [dropWhile_append_solid hbefore hne hsolid, hlast, List.reverse_reverse]
    exact readSigned?_eq_some_iff.mpr hsigned

end SqlLayout
