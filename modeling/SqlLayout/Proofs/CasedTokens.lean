import SqlLayout.Proofs.TwinTokens

/-! # Tokens in another letter case

Patterns do not look at the case of ASCII letters, so the rules take as many characters of two texts
that differ in letter case alone. Comments are closed by the same marks in both.
-/

namespace SqlLayout

/-- Two ASCII characters that are the same but for their case. -/
structure Cased (c d : Char) : Prop where
  ascii : c.toNat < 128
  other : d.toNat < 128
  same : c.toLower = d.toLower

/-- A class of characters that has an ASCII letter in both cases or in none. -/
def Caseless (accepts : Char → Bool) : Prop :=
  ∀ n < 128, accepts (Char.ofNat n).toLower = accepts (Char.ofNat n)

instance (accepts : Char → Bool) : Decidable (Caseless accepts) :=
  inferInstanceAs (Decidable (∀ n < 128, accepts (Char.ofNat n).toLower = accepts (Char.ofNat n)))

theorem Caseless.eq {accepts : Char → Bool} (h : Caseless accepts) {c d : Char} (hcd : Cased c d) :
    accepts c = accepts d := by
  rw [← apply_toLower accepts h c, hcd.same, apply_toLower accepts h d]

theorem caseless_foldLetter (c : Char) : Caseless fun d => foldLetter d == foldLetter c :=
  fun n _ => congrArg (· == foldLetter c) (foldLetter_toLower (Char.ofNat n))

namespace Pattern

/-- Where two texts go on with the same letters but for their case, after the same character but for
    its case. -/
structure Abreast (b b' : Option Char) (s t : Text) : Prop where
  before : Option.Rel Cased b b'
  rest : List.Forall₂ Cased s t

/-- No class in the pattern and no condition of it tells letters in one case from letters in the
    other. -/
def CaseBlind : Pattern → Prop
  | done => True
  | one accepts => Caseless accepts
  | seq p q => p.CaseBlind ∧ q.CaseBlind
  | either p q => p.CaseBlind ∧ q.CaseBlind
  | most p => p.CaseBlind
  | least p => p.CaseBlind
  | look holds => ∀ b b' s t, Abreast b b' s t → holds b s = holds b' t

section

variable {b b' : Option Char} {s t : Text}

/-- What is matched next takes as many characters of two texts side by side. -/
def SameNext (next next' : Next) : Prop :=
  ∀ b b' s t, Abreast b b' s t → next b s = next' b' t

theorem run_caseBlind {p : Pattern} (hp : p.CaseBlind) {next next' : Next} (hnext : SameNext next next')
    (h : Abreast b b' s t) : p.run b s next = p.run b' t next' := by
  induction p generalizing b b' s t next next' with
  | done => exact hnext _ _ _ _ h
  | one accepts =>
      obtain ⟨-, hrest⟩ := h
      cases hrest with
      | nil => rfl
      | @cons c d s t hcd hst =>
          have haccepts : accepts c = accepts d := hp.eq hcd
          rw [run_one_cons, run_one_cons, haccepts, hnext _ _ _ _ ⟨.some hcd, hst⟩]
  | seq p q ihp ihq => exact ihp hp.1 (fun _ _ _ _ hq => ihq hp.2 hnext hq) h
  | either p q ihp ihq => rw [run_either, run_either, ihp hp.1 hnext h, ihq hp.2 hnext h]
  | most p ih =>
      -- the texts are as long as each other, and their lengths are all that bounds the items
      have hmost : ∀ {u v : Text}, List.Forall₂ Cased u v → ∀ {b b' : Option Char} {s t : Text},
          Abreast b b' s t → repeatMost p.run u b s next = repeatMost p.run v b' t next' := by
        intro u v huv
        induction huv with
        | nil => exact fun h => hnext _ _ _ _ h
        | cons _ _ ihbound =>
            intro b b' s t h
            rw [repeatMost_cons, repeatMost_cons, hnext _ _ _ _ h,
              ih hp (fun _ _ _ _ hrest => ihbound hrest) h]
      exact hmost h.rest h
  | least p ih =>
      have hleast : ∀ {u v : Text}, List.Forall₂ Cased u v → ∀ {b b' : Option Char} {s t : Text},
          Abreast b b' s t → repeatLeast p.run u b s next = repeatLeast p.run v b' t next' := by
        intro u v huv
        induction huv with
        | nil => exact fun h => hnext _ _ _ _ h
        | cons _ _ ihbound =>
            intro b b' s t h
            rw [repeatLeast_cons, repeatLeast_cons, hnext _ _ _ _ h,
              ih hp (fun _ _ _ _ hrest => ihbound hrest) h]
      exact hleast h.rest h
  | look holds => rw [run_look, run_look, hp _ _ _ _ h, hnext _ _ _ _ h]

/-! ## The rules -/

theorem Abreast.any_before (h : Abreast b b' s t) {accepts : Char → Bool}
    (ha : Caseless accepts) : b.any accepts = b'.any accepts := by
  cases h.before with
  | none => rfl
  | some hcd => exact ha.eq hcd

theorem any_head? (h : List.Forall₂ Cased s t) {accepts : Char → Bool}
    (ha : Caseless accepts) : s.head?.any accepts = t.head?.any accepts := by
  cases h with
  | nil => rfl
  | cons hcd _ => exact ha.eq hcd

end

section

variable (p q : Pattern) (ps : List Pattern)

@[simp] theorem caseBlind_done : done.CaseBlind := trivial

@[simp] theorem caseBlind_one (accepts : Char → Bool) : (one accepts).CaseBlind ↔ Caseless accepts :=
  Iff.rfl

@[simp] theorem caseBlind_exactly (c : Char) : (exactly c).CaseBlind ↔ Caseless (· == c) := Iff.rfl

@[simp] theorem caseBlind_seq : (seq p q).CaseBlind ↔ p.CaseBlind ∧ q.CaseBlind := Iff.rfl

@[simp] theorem caseBlind_either : (either p q).CaseBlind ↔ p.CaseBlind ∧ q.CaseBlind := Iff.rfl

@[simp] theorem caseBlind_most : (most p).CaseBlind ↔ p.CaseBlind := Iff.rfl

@[simp] theorem caseBlind_least : (least p).CaseBlind ↔ p.CaseBlind := Iff.rfl

@[simp] theorem caseBlind_maybe : (maybe p).CaseBlind ↔ p.CaseBlind := and_iff_left trivial

@[simp] theorem caseBlind_oneOrMore : (oneOrMore p).CaseBlind ↔ p.CaseBlind := and_self_iff

@[simp] theorem caseBlind_inOrder : (inOrder ps).CaseBlind ↔ ∀ p ∈ ps, p.CaseBlind := by
  induction ps with
  | nil => simp [inOrder]
  | cons p ps ih =>
      cases ps with
      | nil => simp [inOrder]
      | cons q ps => rw [inOrder, caseBlind_seq, ih, ← List.forall_mem_cons]

@[simp] theorem caseBlind_firstOf : (firstOf ps).CaseBlind ↔ ∀ p ∈ ps, p.CaseBlind := by
  induction ps with
  | nil => simp [firstOf, CaseBlind]
  | cons p ps ih =>
      cases ps with
      | nil => simp [firstOf]
      | cons q ps => rw [firstOf, caseBlind_either, ih, ← List.forall_mem_cons]

@[simp] theorem caseBlind_letter (c : Char) : (letter c).CaseBlind :=
  caseless_foldLetter c

@[simp] theorem caseBlind_literal (s : String) : (literal s).CaseBlind := by
  simp [literal]

@[simp] theorem caseBlind_oneOf (ws : List String) : (oneOf ws).CaseBlind := by
  simp [oneOf]

end

theorem caseless_isWord : Caseless isWord := impartial_isWord.cased

theorem caseless_isNameStart : Caseless isNameStart := impartial_isNameStart.cased

@[simp] theorem caseBlind_wordEdge : wordEdge.CaseBlind := by
  intro b b' s t h
  rw [isWordEdge, isWordEdge, h.any_before caseless_isWord, any_head? h.rest caseless_isWord]

@[simp] theorem caseBlind_notAfter {accepts : Char → Bool} (h : Caseless accepts) :
    (notAfter accepts).CaseBlind :=
  fun _ _ _ _ hst => congrArg Bool.not (hst.any_before h)

@[simp] theorem caseBlind_notBefore {accepts : Char → Bool} (h : Caseless accepts) :
    (notBefore accepts).CaseBlind :=
  fun _ _ _ _ hst => congrArg Bool.not (any_head? hst.rest h)

theorem beq_some (b : Option Char) (c : Char) : (b == some c) = b.any (· == c) := by
  cases b <;> rfl

@[simp] theorem caseBlind_afterPoint : (look fun before _ => before == some '.').CaseBlind := by
  simp only [beq_some]
  exact fun _ _ _ _ h => h.any_before (by decide)

@[simp] theorem caseBlind_beforeCall : (look fun _ rest => rest.head? == some '(').CaseBlind := by
  simp only [beq_some]
  exact fun _ _ _ _ h => any_head? h.rest (by decide)

@[simp] theorem caseBlind_atEnd : (look fun _ rest => rest.isEmpty).CaseBlind := by
  intro b b' s t h
  cases h.rest <;> rfl

theorem forall₂_dropWhile {accepts : Char → Bool} (ha : Caseless accepts) {s t : Text}
    (h : List.Forall₂ Cased s t) :
    List.Forall₂ Cased (s.dropWhile accepts) (t.dropWhile accepts) := by
  induction h with
  | nil => exact .nil
  | @cons c d s t hcd hst ih =>
      rw [List.dropWhile_cons, List.dropWhile_cons, ha.eq hcd]
      split
      · exact ih
      · exact .cons hcd hst

/-- A point with no digit after it. -/
def opensName : Text → Bool
  | '.' :: after => !after.head?.any isDecimal
  | _ => false

theorem opensName_cased {s t : Text} (h : List.Forall₂ Cased s t) : opensName s = opensName t := by
  have hother : ∀ {c : Char} {s : Text}, c ≠ '.' → opensName (c :: s) = false := by
    intro c s hc
    unfold opensName
    split
    · next heq => exact absurd (List.cons.inj heq).1 hc
    · rfl
  cases h with
  | nil => rfl
  | @cons c d s t hcd hst =>
      have hpoint : (c == '.') = (d == '.') := (by decide : Caseless (· == '.')).eq hcd
      by_cases hc : c = '.'
      · obtain rfl : d = '.' := by simpa [hc] using hpoint
        rw [hc, opensName, opensName, any_head? hst (by decide)]
      · have hd : d ≠ '.' := by simpa [hc] using hpoint
        rw [hother hc, hother hd]

@[simp] theorem caseBlind_beforePoint : TokenRule.beforePoint.CaseBlind := by
  intro b b' s t h
  exact opensName_cased (forall₂_dropWhile (by decide) h.rest)

theorem caseless_closing : Caseless fun c => isWord c || c == ']' || c == ')' := by decide

@[simp] theorem caseBlind_spaces : TokenRule.spaces.CaseBlind :=
  ⟨show Caseless isBlank by decide, show Caseless isBlank by decide⟩

@[simp] theorem caseBlind_phrase (ws : List String) : (TokenRule.phrase ws).CaseBlind := by
  rw [TokenRule.phrase, caseBlind_inOrder]
  intro p hp
  induction ws with
  | nil => simp at hp
  | cons w ws ih =>
      cases ws with
      | nil =>
          obtain rfl : p = literal w := by simpa using hp
          exact caseBlind_literal w
      | cons w' ws =>
          rw [List.map_cons, List.map_cons, List.intersperse_cons_cons, List.mem_cons, List.mem_cons] at hp
          rcases hp with rfl | rfl | hp
          · exact caseBlind_literal w
          · exact caseBlind_spaces
          · exact ih hp

@[simp] theorem caseBlind_wholePhrase (ws : List String) : (TokenRule.wholePhrase ws).CaseBlind :=
  ⟨caseBlind_phrase ws, caseBlind_wordEdge⟩

@[simp] theorem caseBlind_maybeWord (ws : List String) : (TokenRule.maybeWord ws).CaseBlind :=
  (caseBlind_maybe _).mpr ⟨caseBlind_oneOf ws, caseBlind_spaces⟩

/-- No rule looks at the case of letters. -/
theorem caseBlind_all : ∀ rule ∈ TokenRule.all, rule.pattern.CaseBlind := by
  -- the conditions on what is around are settled, so that the classes of characters are left
  simp only [TokenRule.all, TokenRule.hint, TokenRule.lineComment, TokenRule.lineBreak,
    TokenRule.lineEnd, TokenRule.space, TokenRule.between, TokenRule.percentPlaceholder,
    TokenRule.signPlaceholder, TokenRule.plainKeyword, TokenRule.signedName, TokenRule.name,
    TokenRule.hexadecimal, TokenRule.withExponent, TokenRule.withPoint, TokenRule.whole,
    TokenRule.bracketed, TokenRule.join, TokenRule.blockEnd, TokenRule.ifExists, TokenRule.direction,
    TokenRule.nullsPlace, TokenRule.create, TokenRule.batchEnd, TokenRule.lateralView,
    TokenRule.timeZone, TokenRule.likeOperator, TokenRule.regexpOperator, TokenRule.looseWord,
    TokenRule.arrowOperator, TokenRule.among, TokenRule.other, TokenRule.wordChar, TokenRule.digit,
    TokenRule.digits, TokenRule.sign, caseBlind_notAfter caseless_isWord,
    caseBlind_notAfter caseless_closing, caseBlind_notBefore caseless_isNameStart,
    List.forall_mem_cons, List.not_mem_nil, List.cons_append, List.nil_append, false_implies,
    implies_true, true_and, and_true, caseBlind_done, caseBlind_one, caseBlind_exactly, caseBlind_seq,
    caseBlind_either, caseBlind_most, caseBlind_least, caseBlind_maybe, caseBlind_oneOrMore,
    caseBlind_inOrder, caseBlind_firstOf, caseBlind_letter, caseBlind_literal, caseBlind_oneOf,
    caseBlind_wordEdge, caseBlind_afterPoint, caseBlind_beforeCall, caseBlind_atEnd,
    caseBlind_beforePoint, caseBlind_spaces, caseBlind_phrase, caseBlind_wholePhrase,
    caseBlind_maybeWord, caseless_isWord]
  and_intros <;> decide +kernel

end Pattern

namespace Token

open Pattern

variable {b b' : Option Char} {s t : Text}

theorem byRule?_cased (h : Abreast b b' s t) : byRule? b s = byRule? b' t := by
  have hrules := caseBlind_all
  rw [byRule?, byRule?]
  generalize TokenRule.all = rules at hrules
  induction rules with
  | nil => rfl
  | cons rule rules ih =>
      rw [List.forall_mem_cons] at hrules
      have hlength : rule.pattern.length? b s = rule.pattern.length? b' t :=
        run_caseBlind hrules.1 (fun _ _ _ _ _ => rfl) h
      rw [List.findSome?_cons, List.findSome?_cons, hlength, ih hrules.2]

/-- A delimiter without letters stands at the start of both texts or of neither. -/
theorem isPrefixOf_cased {delimiter : Text} (hd : ∀ c ∈ delimiter, Caseless (· == c))
    (h : List.Forall₂ Cased s t) : delimiter.isPrefixOf s = delimiter.isPrefixOf t := by
  induction delimiter generalizing s t with
  | nil => rfl
  | cons c delimiter ih =>
      rw [List.forall_mem_cons] at hd
      cases h with
      | nil => rfl
      | @cons a a' s t haa' hst =>
          have hsame : (c == a) = (c == a') := by
            rw [Bool.beq_comm (a := c), Bool.beq_comm (a := c)]
            exact hd.1.eq haa'
          rw [List.isPrefixOf_cons_cons, List.isPrefixOf_cons_cons, hsame, ih hd.2 hst]

theorem lengthThrough?_cased {delimiter : Text} (hd : ∀ c ∈ delimiter, Caseless (· == c))
    (h : List.Forall₂ Cased s t) : lengthThrough? delimiter s = lengthThrough? delimiter t := by
  induction h with
  | nil => rfl
  | cons hcd hst ih =>
      rw [lengthThrough?, lengthThrough?, isPrefixOf_cased hd (.cons hcd hst), ih]

theorem spanLength?_cased {delimiter : Text} (hd : ∀ c ∈ delimiter, Caseless (· == c)) (n : Nat)
    (h : List.Forall₂ Cased s t) : spanLength? n delimiter s = spanLength? n delimiter t := by
  rw [spanLength?, spanLength?, lengthThrough?_cased hd (List.forall₂_drop n h)]

/-- Block comments are as long and of the same kind. -/
theorem comment_cased (h : List.Forall₂ Cased s t) :
    commentLength? s = commentLength? t ∧ commentKind s = commentKind t := by
  have hhint := isPrefixOf_cased (by decide : ∀ c ∈ "/*+".toList, Caseless (· == c)) h
  have hopen := isPrefixOf_cased (by decide : ∀ c ∈ "/*".toList, Caseless (· == c)) h
  have hclose := fun n => spanLength?_cased (by decide : ∀ c ∈ "*/".toList, Caseless (· == c)) n h
  constructor
  · rw [commentLength?, commentLength?, hhint, hopen, hclose, hclose]
  · rw [commentKind, commentKind, hhint]

end Token

end SqlLayout
