import Mathlib.Data.List.Chain
import SqlLayout.Proofs.Characters
import SqlLayout.Proofs.Matching

/-! # Texts side by side

Two texts that have the same letters but for their case, and any blanks between them, are matched step
by step: a pattern that does not look at the case of letters takes the same letters of both, or fails
on both. The blanks between two letters count only as a whole, so nothing is said about a pattern that
goes on where one text has blanks and the other has none.
-/

namespace SqlLayout

/-- A character at the same place of two texts, with the blanks before it in each. -/
structure Twin where
  /-- The blanks before the character in the first text. -/
  left : Text
  /-- The character in the first text. -/
  char : Char
  /-- The blanks before the character in the second text. -/
  right : Text
  /-- The character in the second text. -/
  other : Char
  /-- Whether the character is in a word of which something is known. -/
  noted : Bool

namespace Twin

/-- The character is the same but for its case, and nothing else stands before it but blanks. -/
structure Even (k : Twin) : Prop where
  left : k.left.isAllBlank = true
  right : k.right.isAllBlank = true
  ascii : k.char.toNat < 128
  other : k.other.toNat < 128
  same : k.char.toLower = k.other.toLower
  shown : isBlank k.char = false

/-- There are blanks before the character in both texts or in none. -/
def Whole (k : Twin) : Prop :=
  k.left = [] ↔ k.right = []

/-- There are no blanks before the character. -/
def Bare (k : Twin) : Prop :=
  k.left = [] ∧ k.right = []

/-- The character alone. -/
def bare (k : Twin) : Twin :=
  { k with left := [], right := [] }

theorem Bare.whole {k : Twin} (h : k.Bare) : k.Whole :=
  iff_of_true h.1 h.2

theorem Even.bare {k : Twin} (h : k.Even) : k.bare.Even :=
  ⟨rfl, rfl, h.ascii, h.other, h.same, h.shown⟩

/-- The first text. -/
def lefts (ks : List Twin) : Text :=
  ks.flatMap fun k => k.left ++ [k.char]

/-- The second text. -/
def rights (ks : List Twin) : Text :=
  ks.flatMap fun k => k.right ++ [k.other]

@[simp] theorem lefts_nil : lefts [] = [] := rfl

@[simp] theorem rights_nil : rights [] = [] := rfl

theorem lefts_cons (k : Twin) (ks : List Twin) : lefts (k :: ks) = k.left ++ k.char :: lefts ks := by
  simp [lefts]

theorem rights_cons (k : Twin) (ks : List Twin) :
    rights (k :: ks) = k.right ++ k.other :: rights ks := by
  simp [rights]

theorem lefts_bare (k : Twin) (ks : List Twin) : lefts (k.bare :: ks) = k.char :: lefts ks :=
  lefts_cons k.bare ks

theorem rights_bare (k : Twin) (ks : List Twin) : rights (k.bare :: ks) = k.other :: rights ks :=
  rights_cons k.bare ks

theorem lefts_append (ks js : List Twin) : lefts (ks ++ js) = lefts ks ++ lefts js := by
  simp [lefts]

theorem rights_append (ks js : List Twin) : rights (ks ++ js) = rights ks ++ rights js := by
  simp [rights]

theorem Even.shown_other {k : Twin} (h : k.Even) : isBlank k.other = false := by
  rw [← isBlank_toLower, ← h.same, isBlank_toLower, h.shown]

end Twin

open Twin

/-! ## Acceptors -/

def blanks : List Char :=
  (blankRanges.flatMap fun r => List.range' r.1 (r.2 + 1 - r.1)).map Char.ofNat

theorem mem_blanks {c : Char} (h : isBlank c = true) : c ∈ blanks := by
  obtain ⟨r, hr, hlow, hhigh⟩ := (inRanges_iff _ _).mp h
  refine List.mem_map.mpr ⟨c.toNat, List.mem_flatMap.mpr ⟨r, hr, ?_⟩, Char.ofNat_toNat c⟩
  rw [List.mem_range'_1]
  omega

/-- A class of characters that takes a letter in both cases or in none, and no blank. -/
structure Impartial (accepts : Char → Bool) : Prop where
  cased : ∀ n < 128, accepts (Char.ofNat n).toLower = accepts (Char.ofNat n)
  blank : ∀ c ∈ blanks, accepts c = false

instance (accepts : Char → Bool) : Decidable (Impartial accepts) :=
  decidable_of_iff ((∀ n < 128, accepts (Char.ofNat n).toLower = accepts (Char.ofNat n)) ∧
    ∀ c ∈ blanks, accepts c = false) ⟨fun h => ⟨h.1, h.2⟩, fun h => ⟨h.cased, h.blank⟩⟩

theorem Impartial.even {accepts : Char → Bool} (h : Impartial accepts) {k : Twin} (hk : k.Even) :
    accepts k.other = accepts k.char := by
  have hlower := apply_toLower accepts h.cased
  rw [← hlower k.other, ← hk.same, hlower k.char]

/-- Beyond ASCII only what stands for one of three letters is folded. -/
theorem foldLetter_beyond_ascii {c : Char} (hc : ¬c.toNat < 128) :
    foldLetter c = c ∨ (foldLetter c ∈ "SKI".toList ∧ isWord c = true) := by
  unfold foldLetter
  rw [toUpper_beyond_ascii hc]
  split
  · rename_i h
    exact .inr ⟨by decide, h ▸ by decide⟩
  · split
    · rename_i h
      exact .inr ⟨by decide, h ▸ by set_option maxRecDepth 1024 in decide⟩
    · split
      · rename_i h
        rcases h with rfl | rfl <;> exact .inr ⟨by decide, by decide⟩
      · exact .inl rfl

theorem isWord_foldLetter (c : Char) : isWord (foldLetter c) = isWord c := by
  by_cases hc : c.toNat < 128
  · exact ascii_induction (P := fun c => isWord (foldLetter c) = isWord c) (by decide) hc
  · rcases foldLetter_beyond_ascii hc with h | ⟨hmem, hword⟩
    · rw [h]
    · rw [hword]
      exact (by decide : ∀ d ∈ "SKI".toList, isWord d = true) _ hmem

theorem impartial_letter {c : Char} (hc : isBlank (foldLetter c) = false) :
    Impartial fun d => foldLetter d == foldLetter c where
  cased n _ := by simp only [foldLetter_toLower]
  blank b hb := by
    have hblank : ∀ b ∈ blanks, isBlank (foldLetter b) = true := by decide
    rw [beq_eq_false_iff_ne]
    intro heq
    simp [← heq, hblank b hb] at hc

theorem impartial_isWord : Impartial isWord := by set_option maxRecDepth 2048 in decide

theorem impartial_isDecimal : Impartial isDecimal := by decide

theorem impartial_isHexDigit : Impartial isHexDigit := by decide

theorem impartial_isNameLetter : Impartial isNameLetter := by decide

theorem impartial_isNameStart : Impartial isNameStart := by decide

theorem impartial_point : Impartial (· == '.') := by decide

theorem impartial_minus : Impartial (· == '-') := by decide

theorem impartial_loose : Impartial fun c => c == '$' || c == '#' || isWord c := by set_option maxRecDepth 2048 in decide

/-- A literal of characters other than blanks. -/
def Lettered (s : String) : Prop :=
  s.toList ≠ [] ∧ ∀ c ∈ s.toList, isBlank (foldLetter c) = false

instance (s : String) : Decidable (Lettered s) :=
  inferInstanceAs (Decidable (_ ∧ _))

namespace Pattern

theorem run_one_blank {accepts : Char → Bool} (h : Impartial accepts) {g : Text}
    (hg : g.isAllBlank = true) (hne : g ≠ []) (before : Option Char) (rest : Text) (next : Next) :
    (one accepts).run before (g ++ rest) next = none := by
  obtain ⟨b, g, rfl⟩ := List.exists_cons_of_ne_nil hne
  rw [Text.isAllBlank_cons, Bool.and_eq_true] at hg
  rw [List.cons_append, run_one_cons, if_neg (by simp [h.blank b (mem_blanks hg.1)])]

/-! ## Matching side by side -/

/-- Two matches that fail, or that take the same letters of both texts and no gap that is in one of
    them only. -/
def Agree (ks : List Twin) (m n : Option Nat) : Prop :=
  (m = none ∧ n = none) ∨
    ∃ js, js <+: ks ∧ (∀ j ∈ js, j.Whole) ∧ m = some (lefts js).length ∧ n = some (rights js).length

theorem Agree.of_none {ks : List Twin} {m n : Option Nat} (hm : m = none) (hn : n = none) :
    Agree ks m n :=
  .inl ⟨hm, hn⟩

theorem Agree.cons {k : Twin} {ks : List Twin} {m n : Option Nat} (h : Agree ks m n) (hk : k.Bare) :
    Agree (k :: ks) (m.map (· + 1)) (n.map (· + 1)) := by
  rcases h with ⟨rfl, rfl⟩ | ⟨js, hpre, hwhole, rfl, rfl⟩
  · exact .inl ⟨rfl, rfl⟩
  · refine .inr ⟨k :: js, List.cons_prefix_cons.mpr ⟨rfl, hpre⟩, ?_, ?_, ?_⟩
    · exact List.forall_mem_cons.mpr ⟨hk.whole, hwhole⟩
    · simp [lefts_cons, hk.1]
    · simp [rights_cons, hk.2]

theorem Agree.past {k : Twin} {ks : List Twin} {m n : Option Nat} (h : Agree (k.bare :: ks) m n)
    (hk : k.Whole) (hpos : ∀ i ∈ m, 0 < i) :
    Agree (k :: ks) (m.map (· + k.left.length)) (n.map (· + k.right.length)) := by
  rcases h with ⟨rfl, rfl⟩ | ⟨js, hpre, hwhole, rfl, rfl⟩
  · exact .inl ⟨rfl, rfl⟩
  · cases js with
    | nil => exact absurd (hpos 0 rfl) (Nat.lt_irrefl 0)
    | cons j js =>
        obtain ⟨rfl, hpre'⟩ := List.cons_prefix_cons.mp hpre
        refine .inr ⟨k :: js, List.cons_prefix_cons.mpr ⟨rfl, hpre'⟩,
          List.forall_mem_cons.mpr ⟨hk, fun j hj => hwhole j (by simp [hj])⟩, ?_, ?_⟩
        · rw [lefts_bare, lefts_cons]
          simp [Nat.add_comm]
        · rw [rights_bare, rights_cons]
          simp [Nat.add_comm]

/-- What is known where a pattern begins to match: the characters before in both texts, and what
    comes. -/
abbrev Context := Option Char → Option Char → List Twin → Prop

section

variable (follows : Twin → List Twin → Prop) (rest : Text)

/-- The characters of two texts, each of which has after it what may follow. -/
structure Aligned (ks : List Twin) : Prop where
  even : ∀ k ∈ ks, k.Even
  chain : ∀ j ls, j :: ls <:+ ks → follows j.bare ls

/-- What is to be matched next agrees on both texts in a context. -/
def Related (P : Context) (m n : Next) : Prop :=
  ∀ b c ks, Aligned follows ks → P b c ks →
    Agree ks (m b (lefts ks ++ rest)) (n c (rights ks))

/-- A pattern agrees on both texts in a context, and leaves another one to what is matched next. -/
def Steady (P : Context) (p : Pattern) (Q : Context) : Prop :=
  ∀ m n, Related follows rest Q m n →
    Related follows rest P (fun b r => p.run b r m) (fun c r => p.run c r n)

end

section

variable {follows : Twin → List Twin → Prop} {rest : Text} {P P' Q Q' R : Context} {p q : Pattern}

theorem Aligned.suffix {js ks : List Twin} (h : Aligned follows ks) (hjs : js <:+ ks) :
    Aligned follows js :=
  ⟨fun j hj => h.even j (hjs.subset hj), fun j ls hls => h.chain j ls (hls.trans hjs)⟩

theorem Aligned.tail {k : Twin} {ks : List Twin} (h : Aligned follows (k :: ks)) : Aligned follows ks :=
  h.suffix (List.suffix_cons k ks)

theorem Aligned.head {k : Twin} {ks : List Twin} (h : Aligned follows (k :: ks)) :
    follows k.bare ks :=
  h.chain k ks (List.suffix_refl _)

theorem Aligned.bare {k : Twin} {ks : List Twin} (h : Aligned follows (k :: ks)) :
    Aligned follows (k.bare :: ks) := by
  refine ⟨List.forall_mem_cons.mpr ⟨(h.even k (by simp)).bare, h.tail.even⟩, fun j ls hls => ?_⟩
  rcases List.suffix_cons_iff.mp hls with heq | hls
  · obtain ⟨rfl, rfl⟩ := List.cons.inj heq
    exact h.head
  · exact h.tail.chain j ls hls

theorem Related.mono {m n : Next} (h : Related follows rest Q m n)
    (hPQ : ∀ b c ks, P b c ks → Q b c ks) : Related follows rest P m n :=
  fun b c ks hks hP => h b c ks hks (hPQ _ _ _ hP)

theorem Steady.mono (h : Steady follows rest P p Q) (hP : ∀ b c ks, P' b c ks → P b c ks)
    (hQ : ∀ b c ks, Q b c ks → Q' b c ks) : Steady follows rest P' p Q' :=
  fun _ _ hnext => (h _ _ (hnext.mono hQ)).mono hP

theorem steady_done : Steady follows rest P done P :=
  fun _ _ hnext => hnext

theorem Steady.seq (hp : Steady follows rest P p Q) (hq : Steady follows rest Q q R) :
    Steady follows rest P (seq p q) R :=
  fun _ _ hnext => hp _ _ (hq _ _ hnext)

theorem Agree.or {ks : List Twin} {m n m' n' : Option Nat} (h : Agree ks m n) (h' : Agree ks m' n') :
    Agree ks (m.or m') (n.or n') := by
  rcases h with ⟨rfl, rfl⟩ | ⟨js, hpre, hwhole, rfl, rfl⟩
  · exact h'
  · exact .inr ⟨js, hpre, hwhole, rfl, rfl⟩

theorem Steady.either (hp : Steady follows rest P p Q) (hq : Steady follows rest P q Q) :
    Steady follows rest P (either p q) Q := by
  intro m n hnext b c ks hks hP
  simp only [run_either]
  exact (hp _ _ hnext b c ks hks hP).or (hq _ _ hnext b c ks hks hP)

/-- A condition that holds on both texts or on none. -/
theorem steady_look {holds : Option Char → Text → Bool}
    (h : ∀ b c ks, Aligned follows ks → P b c ks →
      holds c (rights ks) = holds b (lefts ks ++ rest)) :
    Steady follows rest P (look holds) P := by
  intro m n hnext b c ks hks hP
  simp only [run_look, h b c ks hks hP]
  split
  · exact hnext b c ks hks hP
  · exact .of_none rfl rfl

/-- Nothing is taken of a text that begins with blanks or with a character of another class. -/
theorem run_one_eq_none {accepts : Char → Bool} (ha : Impartial accepts) {g : Text}
    (hg : g.isAllBlank = true) {c : Char} (hc : g = [] → accepts c = false) (before : Option Char)
    (r : Text) (next : Next) : (one accepts).run before (g ++ c :: r) next = none := by
  by_cases hne : g = []
  · rw [hne, List.nil_append, run_one_cons, if_neg (by simp [hc hne])]
  · exact run_one_blank ha hg hne before _ next

theorem run_one_tail {accepts : Char → Bool} (ha : Impartial accepts) {g : Text}
    (hg : g.isAllBlank = true) (before : Option Char) (next : Next) :
    (one accepts).run before g next = none := by
  cases g with
  | nil => rfl
  | cons b g =>
      have h := run_one_blank ha hg (by simp) before [] next
      rwa [List.append_nil] at h

/-- A character that is taken has blanks before it in both texts or in none, so that it is taken of
    both texts if there are none, and of none if there are some. -/
theorem agree_one {accepts : Char → Bool} (ha : Impartial accepts) (hrest : rest.isAllBlank = true)
    {b c : Option Char} {ks : List Twin} (hks : Aligned follows ks)
    (hwhole : ∀ k js, ks = k :: js → accepts k.char = true → k.Whole) {m n : Next}
    (hnext : ∀ k js, ks = k :: js → accepts k.char = true → k.Bare →
      Agree js (m (some k.char) (lefts js ++ rest)) (n (some k.other) (rights js))) :
    Agree ks ((one accepts).run b (lefts ks ++ rest) m) ((one accepts).run c (rights ks) n) := by
  cases ks with
  | nil => exact .of_none (run_one_tail ha hrest b m) rfl
  | cons k ks =>
      have hk := hks.even k (by simp)
      have hsame := ha.even hk
      rw [lefts_cons, rights_cons, List.append_assoc, List.cons_append]
      by_cases hbare : accepts k.char = true ∧ k.Bare
      · obtain ⟨hc, hbare⟩ := hbare
        rw [hbare.1, hbare.2, List.nil_append, List.nil_append, run_one_cons, run_one_cons, hsame,
          if_pos hc, if_pos hc]
        exact (hnext k ks rfl hc hbare).cons hbare
      · have hrefused : k.left = [] ∨ k.right = [] → accepts k.char = false := by
          intro hempty
          by_contra hc
          rw [Bool.not_eq_false] at hc
          have hiff := hwhole k ks rfl hc
          exact hbare ⟨hc, hempty.elim (fun h => ⟨h, hiff.mp h⟩) fun h => ⟨hiff.mpr h, h⟩⟩
        exact .of_none (run_one_eq_none ha hk.left (fun h => hrefused (.inl h)) b _ m)
          (run_one_eq_none ha hk.right (fun h => hsame.trans (hrefused (.inr h))) c _ n)

/-- A character that both texts have or none, and what is known after it. -/
def Leads (follows : Twin → List Twin → Prop) (P : Context) (accepts : Char → Bool) (Q : Context) :
    Prop :=
  ∀ b c k ks, k.Even → P b c (k :: ks) → accepts k.char = true →
    k.Whole ∧ (k.Bare → follows k.bare ks → Q (some k.char) (some k.other) ks)

/-- One character that both texts have, or none of them, with the same gap before it. -/
theorem steady_one {accepts : Char → Bool} (ha : Impartial accepts) (hrest : rest.isAllBlank = true)
    (h : Leads follows P accepts Q) : Steady follows rest P (one accepts) Q := by
  intro m n hnext b c ks hks hbc
  refine agree_one ha hrest hks (fun k js heq hc => ?_) fun k js heq hk hbare => ?_
  · subst heq
    exact (h b c k js (hks.even k (by simp)) hbc hc).1
  · subst heq
    exact hnext _ _ js hks.tail ((h b c k js (hks.even k (by simp)) hbc hk).2 hbare hks.head)

theorem steady_never {accepts : Char → Bool} (ha : Impartial accepts) (hrest : rest.isAllBlank = true)
    (h : ∀ b c k ks, P b c (k :: ks) → accepts k.char = false) :
    Steady follows rest P (one accepts) Q :=
  steady_one ha hrest fun b c k ks _ hP hc => by simp [h b c k ks hP] at hc

theorem steady_most {accepts : Char → Bool} (ha : Impartial accepts) (hrest : rest.isAllBlank = true)
    (h : Leads follows P accepts P) : Steady follows rest P (most (one accepts)) P := by
  intro m n hnext b c ks hks hbc
  beta_reduce
  induction ks generalizing b c with
  | nil =>
      -- there is nothing to take but the blanks at the end
      have hnone : (most (one accepts)).run b rest m = m b rest := by
        cases rest with
        | nil => rfl
        | cons d r => rw [run_most_one, run_one_tail ha hrest b, Option.none_or]
      have hstop := hnext b c [] hks hbc
      rw [lefts_nil, rights_nil, List.nil_append] at hstop ⊢
      rwa [hnone]
  | cons k ks ih =>
      have hstop := hnext b c (k :: ks) hks hbc
      have hmore : Agree (k :: ks)
          ((one accepts).run b (lefts (k :: ks) ++ rest) fun b r => (most (one accepts)).run b r m)
          ((one accepts).run c (rights (k :: ks)) fun c r => (most (one accepts)).run c r n) := by
        refine agree_one ha hrest hks (fun k' js heq hc => ?_) fun k' js heq hk' hbare => ?_
        · obtain ⟨rfl, rfl⟩ := List.cons.inj heq
          exact (h b c k ks (hks.even k (by simp)) hbc hc).1
        · obtain ⟨rfl, rfl⟩ := List.cons.inj heq
          exact ih _ _ hks.tail ((h b c k ks (hks.even k (by simp)) hbc hk').2 hbare hks.head)
      have hmost : ∀ (b : Option Char) (r : Text) (m : Next), r ≠ [] →
          (most (one accepts)).run b r m
            = ((one accepts).run b r fun b r => (most (one accepts)).run b r m).or (m b r) := by
        intro b r m hr
        obtain ⟨d, r, rfl⟩ := List.exists_cons_of_ne_nil hr
        exact run_most_one accepts b d r m
      rw [hmost b _ m (by simp [lefts_cons]), hmost c _ n (by simp [rights_cons])]
      exact hmore.or hstop

theorem head?_any_of_blank {accepts : Char → Bool} (ha : Impartial accepts) {g : Text}
    (hg : g.isAllBlank = true) (hne : g ≠ []) (r : Text) : (g ++ r).head?.any accepts = false := by
  obtain ⟨e, g, rfl⟩ := List.exists_cons_of_ne_nil hne
  rw [Text.isAllBlank_cons, Bool.and_eq_true] at hg
  exact ha.blank e (mem_blanks hg.1)

/-- What comes next is of no class that spans a gap of one text only, so both texts agree on whether
    it comes. -/
theorem head?_any {accepts : Char → Bool} (ha : Impartial accepts) (hrest : rest.isAllBlank = true)
    {ks : List Twin} (hks : Aligned follows ks)
    (hwhole : ∀ k js, ks = k :: js → accepts k.char = true → k.Whole) :
    (rights ks).head?.any accepts = (lefts ks ++ rest).head?.any accepts := by
  cases ks with
  | nil =>
      by_cases hne : rest = []
      · rw [hne]
        rfl
      · have hnone := head?_any_of_blank ha hrest hne []
        rw [List.append_nil] at hnone
        rw [lefts_nil, List.nil_append, hnone]
        rfl
  | cons k ks =>
      have hk := hks.even k (by simp)
      have hsame := ha.even hk
      rw [lefts_cons, rights_cons, List.append_assoc, List.cons_append]
      by_cases hbare : k.Bare
      · rw [hbare.1, hbare.2]
        exact hsame
      · have hrefused : k.left = [] ∨ k.right = [] → accepts k.char = false := by
          intro hempty
          by_contra hc
          rw [Bool.not_eq_false] at hc
          have hiff := hwhole k ks rfl hc
          exact hbare (hempty.elim (fun h => ⟨h, hiff.mp h⟩) fun h => ⟨hiff.mpr h, h⟩)
        have hnone : ∀ {g : Text} {d : Char} {r : Text}, g.isAllBlank = true →
            (g = [] → accepts d = false) → (g ++ d :: r).head?.any accepts = false := by
          intro g d r hg hd
          by_cases hne : g = []
          · rw [hne]
            exact hd hne
          · exact head?_any_of_blank ha hg hne _
        rw [hnone hk.left fun h => hrefused (.inl h),
          hnone hk.right fun h => hsame.trans (hrefused (.inr h))]

theorem steady_notBefore {accepts : Char → Bool} (ha : Impartial accepts)
    (hrest : rest.isAllBlank = true)
    (hP : ∀ b c k ks, P b c (k :: ks) → accepts k.char = true → k.Whole) :
    Steady follows rest P (notBefore accepts) P :=
  steady_look fun b c _ hks hbc =>
    congrArg not (head?_any ha hrest hks fun k js heq hc => hP b c k js (heq ▸ hbc) hc)

theorem steady_absurd : Steady follows rest (fun _ _ _ => False) p Q :=
  fun _ _ _ _ _ _ _ h => h.elim

/-- A token begins with a character of a class. -/
def Starts (first : Char → Bool) (P : Context) : Context := fun b c ks =>
  P b c ks ∧ ∃ k ls, ks = k :: ls ∧ k.Bare ∧ first k.char = true

/-- Whether a pattern takes a character at least, and none of a class to begin with. -/
def Hidden (first : Char → Bool) (p : Pattern) : Prop :=
  p.spellsNothing = false ∧
    ∀ n < 128, first (Char.ofNat n) = true → p.mayBegin (Char.ofNat n) = false

instance (first : Char → Bool) (p : Pattern) : Decidable (Hidden first p) :=
  inferInstanceAs (Decidable (_ ∧ _))

theorem steady_hidden {first : Char → Bool} (hfirst : Impartial first) (h : Hidden first p) :
    Steady follows rest (Starts first P) p Q := by
  rintro m n - b c ks hks ⟨-, k, ls, rfl, hbare, hk⟩
  have heven := hks.even k (by simp)
  have hnone : ∀ {c : Char}, c.toNat < 128 → first c = true → p.mayBegin c = false := fun hc =>
    ascii_induction (P := fun c => first c = true → p.mayBegin c = false) h.2 hc
  refine .of_none ?_ ?_
  · rw [lefts_cons, hbare.1, List.nil_append]
    exact run_eq_none h.1 (hnone heven.ascii hk) b _ m
  · rw [rights_cons, hbare.2, List.nil_append]
    exact run_eq_none h.1 (hnone heven.other ((hfirst.even heven).trans hk)) c _ n

theorem Steady.maybe (h : Steady follows rest P p P) : Steady follows rest P (maybe p) P :=
  h.either steady_done

/-! ## Blanks within a match -/

/-- A pattern agrees on both texts, if what is matched next begins with a character that shows. -/
def Ready (follows : Twin → List Twin → Prop) (rest : Text) (P : Context) (p : Pattern) (Q : Context) :
    Prop :=
  ∀ m n, Keen m → Keen n → Related follows rest Q m n →
    Related follows rest P (fun b r => p.run b r m) (fun c r => p.run c r n)

/-- What is matched begins with a character that shows. -/
def Shows (p : Pattern) : Prop :=
  ∀ next, Keen fun b r => p.run b r next

/-- What is matched does so if what is matched next does. -/
def Lets (p : Pattern) : Prop :=
  ∀ next, Keen next → Keen fun b r => p.run b r next

theorem Shows.lets (h : Shows p) : Lets p :=
  fun next _ => h next

theorem lets_done : Lets done :=
  fun _ h => h

theorem Shows.seq (h : Shows p) : Shows (Pattern.seq p q) :=
  fun next => h fun b r => q.run b r next

theorem Lets.seq (hp : Lets p) (hq : Shows q) : Shows (Pattern.seq p q) :=
  fun next => hp _ (hq next)

theorem Shows.either (hp : Shows p) (hq : Shows q) : Shows (Pattern.either p q) := by
  intro next b r n hn
  beta_reduce at hn
  rw [run_either, Option.or_eq_some_iff] at hn
  rcases hn with hn | ⟨-, hn⟩
  · exact hp next b r n hn
  · exact hq next b r n hn

theorem Lets.either (hp : Lets p) (hq : Lets q) : Lets (Pattern.either p q) := by
  intro next hnext b r n hn
  beta_reduce at hn
  rw [run_either, Option.or_eq_some_iff] at hn
  rcases hn with hn | ⟨-, hn⟩
  · exact hp next hnext b r n hn
  · exact hq next hnext b r n hn

theorem shows_one {accepts : Char → Bool} (ha : ∀ c, isBlank c = true → accepts c = false) :
    Shows (one accepts) := by
  intro next b r n hn
  cases r with
  | nil => simp at hn
  | cons c r =>
      beta_reduce at hn
      rw [run_one_cons] at hn
      split at hn
      · rename_i hc
        obtain ⟨m, -, rfl⟩ := Option.map_eq_some_iff.mp hn
        refine ⟨m.succ_pos, c, r, rfl, ?_⟩
        by_contra hblank
        rw [Bool.not_eq_false] at hblank
        simp [ha c hblank] at hc
      · simp at hn

theorem shows_literal {s : String} (h : Lettered s) : Shows (literal s) := by
  obtain ⟨c, cs, hs⟩ := List.exists_cons_of_ne_nil h.1
  have hc := (impartial_letter (h.2 c (by simp [hs]))).blank
  have hletter : Shows (letter c) := shows_one fun d hd => hc d (mem_blanks hd)
  rw [literal, hs]
  cases cs with
  | nil => exact hletter
  | cons d cs => exact hletter.seq

theorem shows_oneOf {ws : List String} (h : ∀ s ∈ ws, Lettered s) : Shows (oneOf ws) := by
  rw [oneOf]
  induction ws with
  | nil =>
      intro next b r n hn
      simp [firstOf] at hn
  | cons s ws ih =>
      rw [List.forall_mem_cons] at h
      cases ws with
      | nil => exact shows_literal h.1
      | cons s' ws => exact (shows_literal h.1).either (ih h.2)

theorem any_lastOf {g : Text} (hg : g.isAllBlank = true) (hne : g ≠ []) (before : Option Char) :
    (lastOf before g).any isBlank = true := by
  rw [lastOf, List.getLast?_eq_some_getLast hne, Option.some_or]
  exact Text.isBlank_of_mem hg (List.getLast_mem hne)

theorem Steady.ready (h : Steady follows rest P p Q) : Ready follows rest P p Q :=
  fun _ _ _ _ hnext => h _ _ hnext

theorem Ready.either (hp : Ready follows rest P p Q) (hq : Ready follows rest P q Q) :
    Ready follows rest P (either p q) Q := by
  intro m n hm hn hnext b c ks hks hP
  simp only [run_either]
  exact (hp _ _ hm hn hnext b c ks hks hP).or (hq _ _ hm hn hnext b c ks hks hP)

theorem Ready.seq (hp : Ready follows rest P p Q) (hq : Ready follows rest Q q R) (hlets : Lets q) :
    Ready follows rest P (Pattern.seq p q) R :=
  fun m n hm hn hnext => hp _ _ (hlets m hm) (hlets n hn) (hq _ _ hm hn hnext)

theorem Steady.seq_ready (hp : Steady follows rest P p Q) (hq : Ready follows rest Q q R) :
    Ready follows rest P (Pattern.seq p q) R :=
  fun m n hm hn hnext => hp _ _ (hq m n hm hn hnext)

theorem Ready.steady (hp : Ready follows rest P p Q) (hq : Steady follows rest Q q R)
    (hshows : Shows q) : Steady follows rest P (Pattern.seq p q) R :=
  fun m n hnext => hp _ _ (hshows m) (hshows n) (hq _ _ hnext)

/-- What is known after the blanks. -/
def Past (P : Context) : Context := fun b c ks =>
  b.any isBlank = true ∧ c.any isBlank = true ∧
    ∃ b' c' k ls, ks = k.bare :: ls ∧ P b' c' (k :: ls)

/-- Blanks are taken all together, if there are some in both texts. -/
theorem ready_spaces (hrest : rest.isAllBlank = true)
    (hP : ∀ b c k ks, P b c (k :: ks) → k.Whole) :
    Ready follows rest P TokenRule.spaces (Past P) := by
  intro m n hm hn hnext b c ks hks hbc
  beta_reduce
  cases ks with
  | nil =>
      refine .of_none ?_ rfl
      rw [lefts_nil, List.nil_append]
      by_cases hempty : rest = []
      · rw [hempty]
        rfl
      · have hnext : ∀ c ∈ ([] : Text).head?, isBlank c = false := by simp
        have hspaces := run_spaces hm hrest hempty hnext b
        rw [List.append_nil] at hspaces
        rw [hspaces, hm.nil, Option.map_none]
  | cons k ks =>
      have hk := hks.even k (by simp)
      have hwhole := hP b c k ks hbc
      rw [lefts_cons, rights_cons, List.append_assoc, List.cons_append]
      by_cases hempty : k.left = []
      · rw [hempty, hwhole.mp hempty]
        exact .of_none (run_spaces_shown hk.shown b _ m) (run_spaces_shown hk.shown_other c _ n)
      · rw [run_spaces hm hk.left hempty (by simpa using hk.shown),
          run_spaces hn hk.right (fun h => hempty (hwhole.mpr h)) (by simpa using hk.shown_other)]
        have hagree := hnext (lastOf b k.left) (lastOf c k.right) (k.bare :: ks) hks.bare
          ⟨any_lastOf hk.left hempty b, any_lastOf hk.right (fun h => hempty (hwhole.mpr h)) c, b, c, k, ks,
            rfl, hbc⟩
        rw [lefts_bare, rights_bare] at hagree
        exact hagree.past hwhole fun i hi => (hm _ _ _ hi).1

end

end Pattern

end SqlLayout
