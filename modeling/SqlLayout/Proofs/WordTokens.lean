import SqlLayout.Proofs.Spots
import SqlLayout.Proofs.TwinTokens

/-! # Tokens of words

Where a text is made of words and blanks, all rules take the same words whatever the blanks between
them are, as long as there are blanks in both texts or in none. The only rule that counts blanks is
the one for the end of a batch, which wants a single one before the count.
-/

namespace SqlLayout

open Pattern Twin TokenRule

namespace Token

/-- A single blank in both texts or in none, if a digit comes after GO. -/
def KeepsCount (j : Twin) (ks : List Twin) : Prop :=
  ∀ o k ls, ks = o :: k :: ls → foldLetter j.char = 'G' → foldLetter o.char = 'O' → o.Bare →
    isDecimal k.char = true → (k.left.length = 1 ↔ k.right.length = 1)

/-- A word character with another one after it, which has blanks before it in both texts or in none. -/
structure Worded (j : Twin) (ks : List Twin) : Prop where
  word : isWord j.char = true
  next : ∀ k ∈ ks.head?, k.Whole ∧ isWord k.char = true
  count : KeepsCount j ks

/-- Both texts go on after a word character or after a blank, or begin. -/
def Within : Context := fun b c ks =>
  c.any isWord = b.any isWord ∧ b ≠ some '.' ∧ c ≠ some '.' ∧
    ∀ k ∈ ks.head?, k.Whole ∧ isWord k.char = true

section

variable {rest : Text} (hrest : rest.isAllBlank = true) {p q : Pattern}

theorem within_of_worded {k : Twin} {ks : List Twin} (hk : k.Even) (h : Worded k.bare ks) :
    Within (some k.char) (some k.other) ks := by
  have hword : isWord k.char = true := h.word
  have hother : isWord k.other = true := (impartial_isWord.even hk).trans hword
  have hpoint : ∀ {c : Char}, isWord c = true → some c ≠ some '.' := by
    rintro c hc hpoint
    obtain rfl := Option.some.inj hpoint
    exact absurd hc (by decide)
  exact ⟨hother.trans hword.symm, hpoint hword, hpoint hother, h.next⟩

theorem leads_within {accepts : Char → Bool} : Leads Worded Within accepts Within :=
  fun _ _ k _ hk h _ => ⟨(h.2.2.2 k rfl).1, fun _ hnext => within_of_worded hk hnext⟩

/-- A pattern takes the same words of both texts. -/
def Fair (rest : Text) (p : Pattern) : Prop :=
  Steady Worded rest Within p Within

include hrest

theorem fair_one {accepts : Char → Bool} (ha : Impartial accepts) : Fair rest (one accepts) :=
  steady_one ha hrest leads_within

theorem fair_most {accepts : Char → Bool} (ha : Impartial accepts) : Fair rest (most (one accepts)) :=
  steady_most ha hrest leads_within

omit hrest in
theorem fair_inOrder {ps : List Pattern} (h : ∀ p ∈ ps, Fair rest p) : Fair rest (inOrder ps) := by
  induction ps with
  | nil => exact steady_done
  | cons p ps ih =>
      rw [List.forall_mem_cons] at h
      cases ps with
      | nil => exact h.1
      | cons q ps => exact h.1.seq (ih h.2)

omit hrest in
theorem fair_firstOf {ps : List Pattern} (h : ∀ p ∈ ps, Fair rest p) : Fair rest (firstOf ps) := by
  induction ps with
  | nil => exact steady_look fun _ _ _ _ _ => rfl
  | cons p ps ih =>
      rw [List.forall_mem_cons] at h
      cases ps with
      | nil => exact h.1
      | cons q ps => exact h.1.either (ih h.2)

theorem fair_literal {s : String} (h : Lettered s) :
    Fair rest (literal s) := by
  refine fair_inOrder fun p hp => ?_
  obtain ⟨c, hc, rfl⟩ := List.mem_map.mp hp
  exact fair_one hrest (impartial_letter (h.2 c hc))

theorem fair_oneOf {ws : List String}
    (h : ∀ s ∈ ws, Lettered s) :
    Fair rest (oneOf ws) := by
  refine fair_firstOf fun p hp => ?_
  obtain ⟨s, hs, rfl⟩ := List.mem_map.mp hp
  exact fair_literal hrest (h s hs)

theorem head?_any_within {accepts : Char → Bool} (ha : Impartial accepts) {b c : Option Char}
    {ks : List Twin} (hks : Aligned Worded ks) (h : Within b c ks) :
    (rights ks).head?.any accepts = (lefts ks ++ rest).head?.any accepts :=
  head?_any ha hrest hks fun k js heq _ => (h.2.2.2 k (by simp [heq])).1

theorem fair_edge : Fair rest wordEdge := by
  refine steady_look fun b c ks hks h => ?_
  rw [isWordEdge, isWordEdge, h.1, head?_any_within hrest impartial_isWord hks h]

omit hrest in
theorem not_word_of_blank {b : Option Char} (h : b.any isBlank = true) :
    b.any isWord = false ∧ b ≠ some '.' := by
  cases b with
  | none => simp at h
  | some d =>
      refine ⟨isWord_of_isBlank h, fun heq => ?_⟩
      obtain rfl := Option.some.inj heq
      exact absurd h (by decide)

omit hrest in
theorem within_past {b c : Option Char} {ks : List Twin} (h : Past Within b c ks) : Within b c ks := by
  obtain ⟨hb, hc, b', c', k, ls, rfl, h⟩ := h
  obtain ⟨hb, hbpoint⟩ := not_word_of_blank hb
  obtain ⟨hc, hcpoint⟩ := not_word_of_blank hc
  refine ⟨hc.trans hb.symm, hbpoint, hcpoint, fun j hj => ?_⟩
  obtain rfl := Option.some.inj hj
  exact ⟨Iff.rfl, (h.2.2.2 k rfl).2⟩

theorem ready_spaces_within : Ready Worded rest Within spaces Within :=
  fun m n hm hn hnext => ready_spaces hrest (fun _ _ k _ h => (h.2.2.2 k rfl).1) m n hm hn
    (hnext.mono fun _ _ _ => within_past)

theorem fair_spaces (hq : Fair rest q) (hshows : Shows q) : Fair rest (seq spaces q) :=
  (ready_spaces_within hrest).steady hq hshows

theorem ready_maybeWord {ws : List String}
    (h : ∀ s ∈ ws, Lettered s) :
    Ready Worded rest Within (maybeWord ws) Within :=
  ((fair_oneOf hrest h).seq_ready (ready_spaces_within hrest)).either steady_done.ready

theorem fair_maybeWord {ws : List String}
    (h : ∀ s ∈ ws, Lettered s) (hq : Fair rest q)
    (hshows : Shows q) : Fair rest (seq (maybeWord ws) q) :=
  (ready_maybeWord hrest h).steady hq hshows

/-! ## Rules -/

theorem fair_notBefore {accepts : Char → Bool} (ha : Impartial accepts) :
    Fair rest (notBefore accepts) :=
  steady_notBefore ha hrest fun _ _ k _ h _ => (h.2.2.2 k rfl).1

theorem fair_digits : Fair rest digits :=
  (fair_one hrest impartial_isDecimal).seq (fair_most hrest impartial_isDecimal)

theorem fair_sign : Fair rest sign :=
  (fair_one hrest impartial_minus).maybe

theorem fair_hexadecimal : Fair rest hexadecimal :=
  (fair_sign hrest).seq <| (fair_literal hrest (by decide)).seq <|
    (fair_one hrest impartial_isHexDigit).seq (fair_most hrest impartial_isHexDigit)

theorem fair_withExponent : Fair rest withExponent :=
  (fair_sign hrest).seq <| (fair_digits hrest).seq <|
    (((fair_one hrest impartial_point).seq (fair_digits hrest)).maybe).seq <|
      (fair_one hrest (impartial_letter (by decide))).seq <| (fair_sign hrest).seq (fair_digits hrest)

theorem fair_withPoint : Fair rest withPoint :=
  (fair_notBefore hrest impartial_isNameStart).seq <| (fair_sign hrest).seq <|
    (((fair_digits hrest).seq ((fair_one hrest impartial_point).seq
      (fair_most hrest impartial_isDecimal))).either
        ((fair_one hrest impartial_point).seq (fair_digits hrest))).seq
      (fair_notBefore hrest impartial_isNameStart)

theorem fair_whole : Fair rest whole :=
  (fair_notBefore hrest impartial_isNameStart).seq <| (fair_sign hrest).seq <|
    (fair_digits hrest).seq (fair_notBefore hrest impartial_isNameStart)

theorem fair_looseWord : Fair rest looseWord :=
  (fair_one hrest impartial_isWord).seq (fair_most hrest impartial_loose)

theorem fair_name : Fair rest name :=
  (fair_one hrest impartial_isNameLetter).seq (fair_most hrest impartial_isWord)

/-- No point follows, be it after blanks or not. -/
theorem fair_beforePoint : Fair rest beforePoint := by
  refine steady_look fun b c ks hks h => ?_
  have hnone : (∀ after, (lefts ks ++ rest).dropWhile isBlank ≠ '.' :: after) ∧
      ∀ after, (rights ks).dropWhile isBlank ≠ '.' :: after := by
    cases ks with
    | nil =>
        have hend : rest.dropWhile isBlank = [] :=
          List.dropWhile_eq_nil_iff.mpr fun c hc => Text.isBlank_of_mem hrest hc
        simp [hend]
    | cons k ks =>
        have hk := hks.even k (by simp)
        have hword : isWord k.char = true := hks.head.word
        have hother := (impartial_isWord.even hk).trans hword
        rw [lefts_cons, rights_cons, List.append_assoc, List.cons_append,
          Text.dropWhile_isBlank_append hk.left, Text.dropWhile_isBlank_append hk.right,
          Text.dropWhile_isBlank_cons hk.shown, Text.dropWhile_isBlank_cons hk.shown_other]
        refine ⟨fun after heq => ?_, fun after heq => ?_⟩
        · rw [(List.cons.inj heq).1] at hword
          exact absurd hword (by decide)
        · rw [(List.cons.inj heq).1] at hother
          exact absurd hother (by decide)
  split
  · rename_i heq
    exact absurd heq (hnone.2 _)
  · split
    · rename_i heq
      exact absurd heq (hnone.1 _)
    · rfl

omit hrest in
theorem fair_afterPoint : Fair rest (look fun before _ => before == some '.') := by
  refine steady_look fun b c ks hks h => ?_
  rw [beq_eq_false_iff_ne.mpr h.2.1, beq_eq_false_iff_ne.mpr h.2.2.1]

theorem fair_beforeCall : Fair rest (look fun _ rest => rest.head? == some '(') := by
  have hany : ∀ s : Text, (s.head? == some '(') = s.head?.any (· == '(') := by
    rintro (- | ⟨c, s⟩) <;> rfl
  refine steady_look fun b c ks hks h => ?_
  rw [hany, hany, head?_any_within hrest (by decide) hks h]

theorem fair_join : Fair rest join :=
  have hqualifiers : Ready Worded rest Within (seq (maybeWord ["LEFT", "RIGHT", "FULL"])
      (maybeWord ["INNER", "OUTER", "STRAIGHT"])) Within :=
    (ready_maybeWord hrest (by decide)).seq (ready_maybeWord hrest (by decide))
      (((shows_oneOf (by decide)).seq).lets.either lets_done)
  (hqualifiers.either ((ready_maybeWord hrest (by decide)).either steady_done.ready)).steady
    ((fair_literal hrest (by decide)).seq (fair_edge hrest)) (shows_literal (by decide)).seq

theorem fair_blockEnd : Fair rest blockEnd :=
  (fair_literal hrest (by decide)).seq <|
    ((fair_spaces hrest (fair_oneOf hrest (by decide)) (shows_oneOf (by decide))).maybe).seq
      (fair_edge hrest)

theorem fair_ifExists : Fair rest ifExists :=
  have hexists : Fair rest (seq (literal "EXISTS") wordEdge) :=
    (fair_literal hrest (by decide)).seq (fair_edge hrest)
  have hshows : Shows (seq (literal "EXISTS") wordEdge) := (shows_literal (by decide)).seq
  (fair_literal hrest (by decide)).seq <|
    fair_spaces hrest (fair_maybeWord hrest (by decide) hexists hshows)
      ((((shows_oneOf (by decide)).seq).lets.either lets_done).seq hshows)

theorem fair_phrase {first second : String} (hfirst : Lettered first) (hsecond : Lettered second) :
    Fair rest (phrase [first, second]) :=
  (fair_literal hrest hfirst).seq
    (fair_spaces hrest (fair_literal hrest hsecond) (shows_literal hsecond))

theorem fair_wholePhrase {first second : String} (hfirst : Lettered first) (hsecond : Lettered second) :
    Fair rest (wholePhrase [first, second]) :=
  (fair_phrase hrest hfirst hsecond).seq (fair_edge hrest)

theorem fair_nullsPlace : Fair rest nullsPlace :=
  (fair_literal hrest (by decide)).seq
    (fair_spaces hrest (fair_oneOf hrest (by decide)) (shows_oneOf (by decide)))

theorem fair_direction : Fair rest direction :=
  (fair_oneOf hrest (by decide)).seq <|
    ((fair_spaces hrest (fair_nullsPlace hrest) (shows_literal (by decide)).seq).maybe).seq
      (fair_edge hrest)

theorem fair_create : Fair rest create :=
  (fair_literal hrest (by decide)).seq <|
    ((fair_spaces hrest (fair_phrase hrest (by decide) (by decide))
      (shows_literal (by decide)).seq).maybe).seq (fair_edge hrest)

theorem fair_lateralView : Fair rest lateralView :=
  (fair_phrase hrest (by decide) (by decide)).seq <|
    fair_spaces hrest ((fair_oneOf hrest (by decide)).seq (fair_edge hrest))
      (shows_oneOf (by decide)).seq

/-- A time zone has a name between quotes, which a text of words has not. -/
theorem fair_timeZone : Fair rest timeZone := by
  have hquote : Steady Worded rest Within
      (inOrder [exactly '\'', oneOrMore (other '\''), exactly '\'']) Within := by
    refine .seq (steady_never (by decide) hrest fun b c k ks h => ?_) steady_absurd
    have hword := (h.2.2.2 k rfl).2
    rw [beq_eq_false_iff_ne]
    intro heq
    rw [heq] at hword
    exact absurd hword (by decide)
  have hshows : Shows (exactly '\'') := shows_one fun c hc => by
    rw [beq_eq_false_iff_ne]
    rintro rfl
    exact absurd hc (by decide)
  exact (fair_oneOf hrest (by decide)).seq <|
    fair_spaces hrest ((fair_phrase hrest (by decide) (by decide)).seq
      (fair_spaces hrest hquote hshows.seq)) (shows_literal (by decide)).seq.seq

theorem fair_likeOperator : Fair rest likeOperator :=
  fair_maybeWord hrest (by decide) ((fair_oneOf hrest (by decide)).seq (fair_edge hrest))
    (shows_oneOf (by decide)).seq

theorem fair_regexpOperator : Fair rest regexpOperator :=
  fair_maybeWord hrest (by decide)
    ((fair_literal hrest (by decide)).seq <|
      ((fair_spaces hrest (fair_literal hrest (by decide)) (shows_literal (by decide))).maybe).seq
        (fair_edge hrest))
    (shows_literal (by decide)).seq

/-! ## The end of a batch -/

omit hrest in
theorem run_digits_eq_none {d : Char} (hd : isDecimal d = false) (before : Option Char) (s : Text)
    (next : Next) : digits.run before (d :: s) next = none := by
  simp [digits, digit, oneOrMore, hd]

omit hrest in
/-- A single blank is taken, if digits come after it. -/
theorem run_space_digits {g : Text} (hg : g.isAllBlank = true) {d : Char} (hd : isBlank d = false)
    (before : Option Char) (s : Text) (next : Next) :
    (seq space digits).run before (g ++ d :: s) next
      = if g.length = 1 then (digits.run (lastOf before g) (d :: s) next).map (· + g.length)
        else none := by
  cases g with
  | nil => simp [space, hd]
  | cons e g =>
      rw [Text.isAllBlank_cons, Bool.and_eq_true] at hg
      rw [List.cons_append, run_seq, space, run_one_cons, if_pos hg.1]
      cases g with
      | nil => rfl
      | cons e' g =>
          rw [Text.isAllBlank_cons, Bool.and_eq_true] at hg
          have hnone := run_digits_eq_none (impartial_isDecimal.blank e' (mem_blanks hg.2.1)) (some e)
            (g ++ d :: s) next
          simp [hnone]

/-- A single blank before a digit, in both texts or in none. -/
def Counted : Context := fun b c ks =>
  Within b c ks ∧ ∀ k ∈ ks.head?, isDecimal k.char = true → (k.left.length = 1 ↔ k.right.length = 1)

/-- The letter O comes, and then a single blank before a digit, in both texts or in none. -/
def Counting : Context := fun b c ks =>
  Within b c ks ∧ ∀ o k ls, ks = o :: k :: ls → foldLetter o.char = 'O' → o.Bare →
    isDecimal k.char = true → (k.left.length = 1 ↔ k.right.length = 1)

theorem steady_space_digits : Steady Worded rest Counted (seq space digits) Within := by
  rintro m n hnext b c ks hks ⟨hwithin, hcount⟩
  beta_reduce
  cases ks with
  | nil =>
      refine .of_none ?_ rfl
      rw [lefts_nil, List.nil_append]
      cases rest with
      | nil => rfl
      | cons e g =>
          rw [Text.isAllBlank_cons, Bool.and_eq_true] at hrest
          cases g with
          | nil => simp [space, digits, digit, oneOrMore]
          | cons e' g =>
              rw [Text.isAllBlank_cons, Bool.and_eq_true] at hrest
              have hnone := run_digits_eq_none (impartial_isDecimal.blank e' (mem_blanks hrest.2.1))
                (some e) g m
              simp [space, hnone]
  | cons k ks =>
      have hk := hks.even k (by simp)
      have hwhole := (hwithin.2.2.2 k rfl).1
      rw [lefts_cons, rights_cons, List.append_assoc, List.cons_append,
        run_space_digits hk.left hk.shown, run_space_digits hk.right hk.shown_other]
      by_cases hdecimal : isDecimal k.char = true
      · by_cases hone : k.left.length = 1
        · have hne : k.left ≠ [] := by
            intro h
            simp [h] at hone
          have hpast : Past Within (lastOf b k.left) (lastOf c k.right) (k.bare :: ks) :=
            ⟨any_lastOf hk.left hne b, any_lastOf hk.right (fun h => hne (hwhole.mpr h)) c, b, c, k, ks,
              rfl, hwithin⟩
          have hagree := fair_digits hrest m n hnext _ _ _ hks.bare (within_past hpast)
          rw [lefts_bare, rights_bare] at hagree
          rw [if_pos hone, if_pos ((hcount k rfl hdecimal).mp hone)]
          have hshows : Shows digits :=
            (shows_one fun d hd => impartial_isDecimal.blank d (mem_blanks hd)).seq
          exact hagree.past hwhole fun i hi => (hshows m _ _ _ hi).1
        · rw [if_neg hone, if_neg fun h => hone ((hcount k rfl hdecimal).mpr h)]
          exact .of_none rfl rfl
      · have hother := impartial_isDecimal.even hk
        rw [Bool.not_eq_true] at hdecimal
        rw [run_digits_eq_none hdecimal, run_digits_eq_none (hother.trans hdecimal)]
        simp only [Option.map_none, ite_self]
        exact .of_none rfl rfl

theorem fair_batchEnd : Fair rest batchEnd := by
  have hfirst : Steady Worded rest Within (letter 'G') Counting := by
    refine steady_one (impartial_letter (by decide)) hrest fun b c k ks hk h hc => ?_
    refine ⟨(h.2.2.2 k rfl).1, fun _ hnext => ⟨within_of_worded hk hnext, fun o l ls hls => ?_⟩⟩
    exact hnext.count o l ls hls ((beq_iff_eq.mp hc).trans (by decide))
  have hsecond : Steady Worded rest Counting (letter 'O') Counted := by
    refine steady_one (impartial_letter (by decide)) hrest fun b c k ks hk h hc => ?_
    refine ⟨(h.1.2.2.2 k rfl).1, fun hbare hnext => ⟨within_of_worded hk hnext, fun l hl => ?_⟩⟩
    obtain ⟨ls, rfl⟩ := List.head?_eq_some_iff.mp hl
    exact h.2 k l ls rfl ((beq_iff_eq.mp hc).trans (by decide)) hbare
  exact (hfirst.seq hsecond).seq ((steady_space_digits hrest).seq (fair_edge hrest))

/-! ## All rules -/

theorem fair_letterRules : ∀ rule ∈ letterRules, Fair rest rule.pattern := by
  simp only [letterRules, rulesFrom, TokenRule.all, List.drop_succ_cons, List.drop_zero,
    List.take_succ_cons, List.take_zero, List.cons_append, List.nil_append, List.forall_mem_cons,
    List.not_mem_nil, false_implies, implies_true, and_true]
  exact ⟨(fair_oneOf hrest (by decide)).seq (fair_edge hrest),
    (fair_name hrest).seq (fair_beforePoint hrest), fair_afterPoint.seq (fair_name hrest),
    (fair_name hrest).seq (fair_beforeCall hrest), fair_join hrest, fair_blockEnd hrest,
    fair_ifExists hrest, fair_wholePhrase hrest (by decide) (by decide), fair_direction hrest,
    (fair_oneOf hrest (by decide)).seq (fair_edge hrest),
    (fair_nullsPlace hrest).seq (fair_edge hrest), fair_wholePhrase hrest (by decide) (by decide),
    fair_create hrest, fair_wholePhrase hrest (by decide) (by decide),
    fair_wholePhrase hrest (by decide) (by decide), fair_wholePhrase hrest (by decide) (by decide),
    fair_wholePhrase hrest (by decide) (by decide), fair_wholePhrase hrest (by decide) (by decide),
    fair_batchEnd hrest, fair_lateralView hrest, fair_timeZone hrest, fair_likeOperator hrest,
    fair_regexpOperator hrest⟩

theorem fair_numberRules : ∀ rule ∈ numberRules, Fair rest rule.pattern := by
  simp only [numberRules, rulesFrom, TokenRule.all, List.drop_succ_cons, List.drop_zero,
    List.take_succ_cons, List.take_zero, List.cons_append, List.nil_append, List.forall_mem_cons,
    List.not_mem_nil, false_implies, implies_true, and_true]
  exact ⟨fair_hexadecimal hrest, fair_withExponent hrest, fair_withPoint hrest, fair_whole hrest,
    fair_looseWord hrest⟩

omit hrest in
theorem hidden_markRules : ∀ rule ∈ markRules, Hidden isWord rule.pattern := by
  decide

omit hrest in
/-- Where a token begins, both texts go on after a word character or after a blank, or begin. -/
theorem within_start {j : Option Twin} {k : Twin} {ks : List Twin}
    (h : Aligned Worded (j.toList ++ k :: ks)) :
    Within (lastOf (j.map char) k.left) (lastOf (j.map Twin.other) k.right) (k.bare :: ks) := by
  have heven := h.even k (by simp)
  have hword : isWord k.char = true := (h.suffix (List.suffix_append _ (k :: ks))).head.word
  have hnext : ∀ l ∈ (k.bare :: ks).head?, l.Whole ∧ isWord l.char = true := by
    intro l hl
    obtain rfl := Option.some.inj hl
    exact ⟨Iff.rfl, hword⟩
  cases j with
  | none =>
      have hnone : ∀ {g : Text}, g.isAllBlank = true →
          (lastOf none g).any isWord = false ∧ lastOf none g ≠ some '.' := by
        intro g hg
        by_cases hne : g = []
        · rw [hne]
          exact ⟨rfl, by simp [lastOf]⟩
        · exact not_word_of_blank (any_lastOf hg hne none)
      obtain ⟨hb, hbpoint⟩ := hnone heven.left
      obtain ⟨hc, hcpoint⟩ := hnone heven.right
      exact ⟨hc.trans hb.symm, hbpoint, hcpoint, hnext⟩
  | some j =>
      have hj := h.even j (by simp)
      have hfollows := Aligned.head h
      have hwhole := (hfollows.next k rfl).1
      by_cases hne : k.left = []
      · obtain ⟨hsame, hbpoint, hcpoint, -⟩ := within_of_worded hj hfollows
        rw [hne, hwhole.mp hne]
        exact ⟨hsame, hbpoint, hcpoint, hnext⟩
      · obtain ⟨hb, hbpoint⟩ := not_word_of_blank (any_lastOf heven.left hne (some j.char))
        obtain ⟨hc, hcpoint⟩ := not_word_of_blank
          (any_lastOf heven.right (fun h => hne (hwhole.mpr h)) (some j.other))
        exact ⟨hc.trans hb.symm, hbpoint, hcpoint, hnext⟩

/-- The rules take the same words of both texts. -/
theorem rulesConcur_worded : RulesConcur Worded rest := by
  intro j k ks h
  have hk : Aligned Worded (k :: ks) := h.suffix (List.suffix_append _ _)
  have hstart : Starts isWord Within (lastOf (j.map char) k.left) (lastOf (j.map Twin.other) k.right)
      (k.bare :: ks) :=
    ⟨within_start h, k.bare, ks, rfl, ⟨rfl, rfl⟩, hk.head.word⟩
  refine agree_ruleLength? fun rule hrule => ?_
  have hsteady : Steady Worded rest (Starts isWord Within) rule.pattern Within := by
    rcases mem_rules hrule with hrule | hrule | hrule
    · exact steady_hidden impartial_isWord (hidden_markRules rule hrule)
    · exact (fair_numberRules hrest rule hrule).mono (fun _ _ _ h => h.1) fun _ _ _ h => h
    · exact (fair_letterRules hrest rule hrule).mono (fun _ _ _ h => h.1) fun _ _ _ h => h
  exact hsteady _ _ (fun _ _ ks _ _ => .inr ⟨[], List.nil_prefix, by simp, rfl, rfl⟩) _ _ _ hk.bare hstart

end

theorem spans_of_isWord {c : Char} (h : isWord c = true) : spans c = false := by
  by_contra hspan
  simp only [spans, Bool.not_eq_false, Bool.or_eq_true, beq_iff_eq] at hspan
  rcases hspan with (rfl | rfl) | rfl <;> exact absurd h (by decide)

/-- The lexer takes the same words of both texts. -/
theorem lexer_concur_worded : lexer.Concur Worded := by
  refine concur_of_rules (fun _ hrest => rulesConcur_worded hrest) (fun j k ks h hslash => ?_)
    fun j ks h => spans_of_isWord h.word
  have hword := h.word
  rw [hslash] at hword
  exact absurd hword (by decide)

end Token

end SqlLayout
