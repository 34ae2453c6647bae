import SqlLayout.Proofs.LexerTwins
import SqlLayout.Token.Comparison

/-! # SQL tokens side by side

The first token of a text is as long as the first rule tells that applies, unless something begins that
has delimiters of its own. So the lexer takes the same letters of two texts if the rules do.
-/

namespace SqlLayout

open Pattern Twin

namespace Token

/-! ## What rules begin with -/

/-- The rules that come after some others. -/
def rulesFrom (skipped count : Nat) : List TokenRule :=
  (TokenRule.all.drop skipped).take count

/-- The rules for marks, which begin with no word character. -/
def markRules : List TokenRule :=
  rulesFrom 0 13 ++ rulesFrom 14 1 ++ rulesFrom 22 3 ++ rulesFrom 45 4

/-- The rules for numbers, and the one for words of any kind. -/
def numberRules : List TokenRule :=
  rulesFrom 18 4 ++ rulesFrom 44 1

/-- The rules for names and keywords, which begin with a letter. -/
def letterRules : List TokenRule :=
  rulesFrom 13 1 ++ rulesFrom 15 3 ++ rulesFrom 25 19

theorem mem_rules {rule : TokenRule} (h : rule ∈ TokenRule.all) :
    rule ∈ markRules ∨ rule ∈ numberRules ∨ rule ∈ letterRules := by
  have hall : TokenRule.all = rulesFrom 0 13 ++ rulesFrom 13 1 ++ rulesFrom 14 1 ++ rulesFrom 15 3
      ++ rulesFrom 18 4 ++ rulesFrom 22 3 ++ rulesFrom 25 19 ++ rulesFrom 44 1 ++ rulesFrom 45 4 := rfl
  rw [hall] at h
  simp only [markRules, numberRules, letterRules, List.mem_append] at h ⊢
  tauto

/-! ## The first token -/

/-- How many characters the first rule that applies takes. -/
def ruleLength? (before : Option Char) (rest : Text) : Option Nat :=
  TokenRule.all.findSome? fun rule => rule.pattern.length? before rest

theorem map_byRule? (before : Option Char) (rest : Text) :
    (byRule? before rest).map (·.2) = ruleLength? before rest := by
  rw [byRule?, ruleLength?]
  induction TokenRule.all with
  | nil => rfl
  | cons rule rules ih =>
      rw [List.findSome?_cons, List.findSome?_cons]
      cases rule.pattern.length? before rest with
      | none => exact ih
      | some n => rfl

/-- No rule applies without taking a character. -/
theorem not_spellsNothing : ∀ rule ∈ TokenRule.all, rule.pattern.spellsNothing = false := by
  decide

/-- A rule that applies takes what its pattern spells, and so it may begin with the first character. -/
theorem byRule?_parts {before : Option Char} {c : Char} {s : Text} {kind : TokenKind} {n : Nat}
    (h : byRule? before (c :: s) = some (kind, n)) :
    ∃ rule ∈ TokenRule.all, rule.kind = kind ∧ rule.pattern.mayBegin c = true ∧
      ∃ u v, c :: s = u ++ v ∧ Spells rule.pattern u ∧ n = u.length := by
  obtain ⟨rule, hrule, hlength⟩ := List.exists_of_findSome?_eq_some h
  obtain ⟨m, hm, hkind⟩ := Option.map_eq_some_iff.mp hlength
  obtain ⟨rfl, rfl⟩ := Prod.mk.inj hkind
  obtain ⟨u, v, k, hsplit, hu, hk, rfl⟩ := run_parts rule.pattern hm
  obtain rfl := Option.some.inj hk
  refine ⟨rule, hrule, rfl, ?_, u, v, hsplit, hu, rfl⟩
  cases u with
  | nil => exact absurd (spellsNothing_of_spells hu rfl) (by simp [not_spellsNothing rule hrule])
  | cons d u =>
      obtain ⟨rfl, -⟩ := List.cons.inj hsplit
      exact mayBegin_of_spells hu rfl

/-- A mark that begins or ends a span of its own. -/
def spans (c : Char) : Bool :=
  c == '$' || c == '\'' || c == '"'

/-- Nothing that begins here has delimiters of its own. -/
structure Open (rest : Text) : Prop where
  mark : ∀ c ∈ rest.head?, spans c = false
  comment : ¬"/*".toList <+: rest

theorem dollarLength?_of_open {rest : Text} (h : Open rest) (before : Option Char) :
    dollarLength? before rest = none := by
  have hnone : dollarDelimiter? rest = none := by
    cases rest with
    | nil => rfl
    | cons c s =>
        have hc : c ≠ '$' := by
          rintro rfl
          exact absurd (h.mark '$' rfl) (by decide)
        unfold dollarDelimiter?
        split
        · rename_i heq
          exact absurd (List.cons.inj heq).1 hc
        · rfl
  rw [dollarLength?, hnone]
  split <;> rfl

theorem commentLength?_of_open {rest : Text} (h : Open rest) : commentLength? rest = none := by
  have hhint : ¬"/*+".toList <+: rest := fun hpre => h.comment ((by decide : _ <+: _).trans hpre)
  rw [commentLength?, if_neg, if_neg]
  · rw [List.isPrefixOf_iff_prefix]
    exact h.comment
  · rw [List.isPrefixOf_iff_prefix]
    exact hhint

/-- The first token is as long as the rules tell. -/
theorem text_first_of_open {before : Option Char} {rest : Text} (h : Open rest) :
    (first before rest).text = rest.take (max 1 ((ruleLength? before rest).getD 1)) := by
  rw [first, dollarLength?_of_open h, commentLength?_of_open h, ← map_byRule?]
  cases byRule? before rest <;> rfl

/-- What a rule tells of a token that begins with a character that shows and is no quote. -/
theorem kind_of_byRule? {before : Option Char} {c : Char} {s : Text} {kind : TokenKind} {n : Nat}
    (hc : c.toNat < 128) (hshown : isBlank c = false) (hquote : isQuote c = false)
    (h : byRule? before (c :: s) = some (kind, n)) : kind.isBlank = false ∧ kind.isQuoted = false := by
  have hrules : ∀ rule ∈ TokenRule.all, rule.kind.isBlank = true ∨ rule.kind.isQuoted = true →
      ∀ n < 128, isBlank (Char.ofNat n) = false → isQuote (Char.ofNat n) = false →
        rule.pattern.mayBegin (Char.ofNat n) = false := by
    set_option maxRecDepth 1024 in decide
  obtain ⟨rule, hmem, rfl, hbegin, -⟩ := byRule?_parts h
  rw [← Bool.not_eq_true, ← Bool.not_eq_true, ← not_or]
  intro hkind
  have hnot := ascii_induction (P := fun c => isBlank c = false → isQuote c = false →
    rule.pattern.mayBegin c = false) (hrules rule hmem hkind) hc hshown hquote
  simp [hnot] at hbegin

/-! ## Blanks -/

theorem foldLetter_feed {c : Char} (h : foldLetter c = '\r' ∨ foldLetter c = '\n') :
    isBlank c = true := by
  by_cases hc : c.toNat < 128
  · exact ascii_induction (P := fun c => foldLetter c = '\r' ∨ foldLetter c = '\n' → isBlank c = true)
      (by decide) hc h
  · rcases foldLetter_beyond_ascii hc with heq | ⟨hmem, -⟩
    · rcases h with h | h <;> exact absurd (by rw [← heq, h]; decide) hc
    · rcases h with h | h <;> exact absurd (h ▸ hmem) (by decide)

theorem isBlank_of_mayTake_lineBreak {c : Char} (h : TokenRule.lineBreak.mayTake c = true) :
    isBlank c = true := by
  refine foldLetter_feed ?_
  have hfeeds : foldLetter '\r' = '\r' ∧ foldLetter '\n' = '\n' := by decide
  simp only [TokenRule.lineBreak, oneOf, firstOf, literal, List.map_cons, List.map_nil,
    show "\r\n".toList = ['\r', '\n'] from rfl, show "\r".toList = ['\r'] from rfl,
    show "\n".toList = ['\n'] from rfl, inOrder, letter, mayTake, Bool.or_eq_true, beq_iff_eq,
    hfeeds.1, hfeeds.2] at h
  tauto

/-- Blanks at the start of a text are a token that does not count, or several. -/
theorem first_blank {b : Char} (hb : isBlank b = true) (before : Option Char) (s : Text) :
    (first before (b :: s)).kind.isBlank = true ∧ (first before (b :: s)).text.isAllBlank = true := by
  have hmem := mem_blanks hb
  have hopen : Open (b :: s) := by
    refine ⟨?_, ?_⟩
    · rintro c hc
      obtain rfl := Option.some.inj hc
      exact (by decide : ∀ b ∈ blanks, spans b = false) b hmem
    · rintro ⟨t, ht⟩
      obtain ⟨rfl, -⟩ := List.cons.inj ht
      exact absurd hb (by decide)
  have hsome : (byRule? before (b :: s)).isSome = true := by
    rw [byRule?, List.findSome?_isSome_iff]
    refine ⟨⟨.space, TokenRule.space⟩, by simp [TokenRule.all], ?_⟩
    simp [length?, TokenRule.space, hb]
  obtain ⟨⟨kind, n⟩, hrule⟩ := Option.isSome_iff_exists.mp hsome
  have hblank : ∀ rule ∈ TokenRule.all, rule.kind.isBlank = false → ∀ b ∈ blanks,
      rule.pattern.mayBegin b = false := by
    decide +kernel
  have htext : ∀ rule ∈ TokenRule.all, rule.kind.isBlank = true →
      ∀ c, rule.pattern.mayTake c = true → isBlank c = true := by
    have hkinds : TokenRule.all.filter (·.kind.isBlank)
        = [⟨.lineBreak, TokenRule.lineBreak⟩, ⟨.space, TokenRule.space⟩] := rfl
    intro rule hrule hkind c hc
    have hmem : rule ∈ TokenRule.all.filter (·.kind.isBlank) := List.mem_filter.mpr ⟨hrule, hkind⟩
    rw [hkinds, List.mem_cons, List.mem_singleton] at hmem
    rcases hmem with rfl | rfl
    · exact isBlank_of_mayTake_lineBreak hc
    · exact hc
  obtain ⟨rule, hrule', rfl, hbegin, u, v, hsplit, hu, rfl⟩ := byRule?_parts hrule
  have hkind : rule.kind.isBlank = true := by
    by_contra h
    rw [Bool.not_eq_true] at h
    simp [hblank rule hrule' h b hmem] at hbegin
  rw [first, dollarLength?_of_open hopen, commentLength?_of_open hopen, hrule]
  refine ⟨hkind, ?_⟩
  have hne : u ≠ [] := by
    rintro rfl
    exact absurd (spellsNothing_of_spells hu rfl) (by simp [not_spellsNothing rule hrule'])
  have htake : (ofLength rule.kind u.length (b :: s)).text = u := by
    have hpos := List.length_pos_iff.mpr hne
    simp [ofLength, hsplit, Nat.max_eq_right (Nat.succ_le_of_lt hpos)]
  rw [htake]
  exact List.all_eq_true.mpr fun c hc => htext rule hrule' hkind c (mayTake_of_spells hu c hc)

theorem isQuoted_commentKind (rest : Text) :
    (commentKind rest).isBlank = false ∧ (commentKind rest).isQuoted = false := by
  rw [commentKind]
  split <;> exact ⟨rfl, rfl⟩

/-- Tokens are told apart by their first characters. -/
theorem lexer_sorts : lexer.Sorts where
  blank before b s hb := first_blank hb before.getLast? s
  shown before c s hc hshown hquote := by
    show (first before.getLast? (c :: s)).kind.isBlank = false ∧
      (first before.getLast? (c :: s)).kind.isQuoted = false
    rw [first]
    split
    · exact ⟨rfl, rfl⟩
    · exact isQuoted_commentKind _
    · exact kind_of_byRule? hc hshown hquote ‹_›
    · exact ⟨rfl, rfl⟩

/-! ## Two texts -/

/-- Wherever a token may begin, the rules take the same letters of both texts. -/
def RulesConcur (follows : Twin → List Twin → Prop) (rest : Text) : Prop :=
  ∀ (j : Option Twin) (k : Twin) (ks : List Twin), Aligned follows (j.toList ++ k :: ks) →
    Agree (k.bare :: ks)
      (ruleLength? (lastOf (j.map char) k.left) (lefts (k.bare :: ks) ++ rest))
      (ruleLength? (lastOf (j.map Twin.other) k.right) (rights (k.bare :: ks)))

theorem agree_ruleLength? {ks : List Twin} {b c : Option Char} {s t : Text}
    (h : ∀ rule ∈ TokenRule.all, Agree ks (rule.pattern.length? b s) (rule.pattern.length? c t)) :
    Agree ks (ruleLength? b s) (ruleLength? c t) := by
  have hor : ∀ {rules : List TokenRule} {rule : TokenRule} {b : Option Char} {s : Text},
      (rule :: rules).findSome? (fun rule => rule.pattern.length? b s)
        = (rule.pattern.length? b s).or (rules.findSome? fun rule => rule.pattern.length? b s) := by
    intro rules rule b s
    rw [List.findSome?_cons]
    cases rule.pattern.length? b s <;> rfl
  rw [ruleLength?, ruleLength?]
  generalize TokenRule.all = rules at h
  induction rules with
  | nil => exact .of_none rfl rfl
  | cons rule rules ih =>
      rw [List.forall_mem_cons] at h
      rw [hor, hor]
      exact h.1.or (ih h.2)

theorem impartial_spans : Impartial spans := by decide

theorem impartial_slash : Impartial (· == '/') := by decide

theorem impartial_star : Impartial (· == '*') := by decide

/-- A comment begins only where a star follows right after a slash. -/
theorem open_cons {c : Char} {s : Text} (hc : spans c = false) (hs : c = '/' → s.head? ≠ some '*') :
    Open (c :: s) := by
  refine ⟨?_, ?_⟩
  · rintro d hd
    obtain rfl := Option.some.inj hd
    exact hc
  · rintro ⟨t, ht⟩
    obtain ⟨rfl, rfl⟩ := List.cons.inj ht
    exact hs rfl rfl

theorem head?_append_of_isAllBlank {g s : Text} (hg : g.isAllBlank = true) {c : Char}
    (hc : isBlank c = false) (h : (g ++ s).head? = some c) : s.head? = some c := by
  cases g with
  | nil => exact h
  | cons b g =>
      obtain rfl := Option.some.inj h
      rw [Text.isAllBlank_cons, hc] at hg
      simp at hg

section

variable {follows : Twin → List Twin → Prop} {rest : Text} {k : Twin} {ks : List Twin}

/-- Nothing with delimiters of its own begins in either text. -/
theorem open_twins (hrest : rest.isAllBlank = true)
    (hcomment : ∀ j k ks, follows j (k :: ks) → j.char = '/' → k.char ≠ '*') (h : Aligned follows (k :: ks))
    (hspan : spans k.char = false) :
    Open (lefts (k.bare :: ks) ++ rest) ∧ Open (rights (k.bare :: ks)) := by
  have hk := h.even k (by simp)
  rw [lefts_bare, rights_bare, List.cons_append]
  refine ⟨open_cons hspan fun hslash hhead => ?_,
    open_cons ((impartial_spans.even hk).trans hspan) fun hslash hhead => ?_⟩
  · cases ks with
    | nil =>
        rw [lefts_nil, List.nil_append, ← List.append_nil rest] at hhead
        simpa using head?_append_of_isAllBlank hrest (by decide) hhead
    | cons l ks =>
        rw [lefts_cons, List.append_assoc] at hhead
        have hl := (h.tail.even l (by simp)).left
        exact hcomment k.bare l ks h.head hslash (Option.some.inj (head?_append_of_isAllBlank hl (by decide) hhead))
  · cases ks with
    | nil => simp at hhead
    | cons l ks =>
        rw [rights_cons] at hhead
        have hl := h.tail.even l (by simp)
        have hother := Option.some.inj (head?_append_of_isAllBlank hl.right (by decide) hhead)
        have hslash' := (impartial_slash.even hk).symm.trans (beq_iff_eq.mpr hslash)
        have hstar' := (impartial_star.even hl).symm.trans (beq_iff_eq.mpr hother)
        exact hcomment k.bare l ks h.head (beq_iff_eq.mp hslash') (beq_iff_eq.mp hstar')

/-- A token is of one character at least, whether a rule applies or not. -/
theorem exists_token {m n : Option Nat} (h : Agree (k.bare :: ks) m n) :
    ∃ ls, ls <+: ks ∧ (∀ i ∈ ls, i.Whole) ∧
      max 1 (m.getD 1) = (lefts ls).length + 1 ∧ max 1 (n.getD 1) = (rights ls).length + 1 := by
  have hsingle : ∃ ls, ls <+: ks ∧ (∀ i ∈ ls, i.Whole) ∧
      1 = (lefts ls).length + 1 ∧ 1 = (rights ls).length + 1 :=
    ⟨[], List.nil_prefix, by simp, rfl, rfl⟩
  rcases h with ⟨rfl, rfl⟩ | ⟨js, hpre, hwhole, rfl, rfl⟩
  · exact hsingle
  · cases js with
    | nil => exact hsingle
    | cons j ls =>
        obtain ⟨rfl, hls⟩ := List.cons_prefix_cons.mp hpre
        refine ⟨ls, hls, fun i hi => hwhole i (by simp [hi]), ?_, ?_⟩
        · simp [lefts_bare]
        · simp [rights_bare]

theorem getLast?_lefts (js : List Twin) (g : Text) :
    (lefts js ++ g).getLast? = lastOf (js.getLast?.map char) g := by
  rcases List.eq_nil_or_concat js with rfl | ⟨js, j, rfl⟩
  · simp [lastOf]
  · simp [lastOf, lefts_append, lefts_cons, List.getLast?_append, List.getLast?_cons]

theorem getLast?_rights (js : List Twin) (g : Text) :
    (rights js ++ g).getLast? = lastOf (js.getLast?.map Twin.other) g := by
  rcases List.eq_nil_or_concat js with rfl | ⟨js, j, rfl⟩
  · simp [lastOf]
  · simp [lastOf, rights_append, rights_cons, List.getLast?_append, List.getLast?_cons]

theorem aligned_getLast? {js : List Twin} (h : Aligned follows (js ++ ks)) :
    Aligned follows (js.getLast?.toList ++ ks) := by
  refine h.suffix ?_
  by_cases hne : js = []
  · simp [hne]
  · refine ⟨js.dropLast, ?_⟩
    rw [List.getLast?_eq_some_getLast hne, ← List.append_assoc, Option.toList_some,
      List.dropLast_append_getLast]

theorem length_first_of_open {before : Option Char} {c : Char} {s : Text} {n : Nat} (h : Open (c :: s))
    (hlength : max 1 ((ruleLength? before (c :: s)).getD 1) = n + 1) (hn : n ≤ s.length) :
    (first before (c :: s)).text.length = n + 1 := by
  rw [text_first_of_open h, hlength, List.length_take, List.length_cons]
  omega

/-- The lexer takes the same letters of two texts if the rules do, and no span begins in them. -/
theorem concur_of_rules (hrules : ∀ rest, rest.isAllBlank = true → RulesConcur follows rest)
    (hcomment : ∀ j k ks, follows j (k :: ks) → j.char = '/' → k.char ≠ '*')
    (hspan : ∀ j ks, follows j ks → spans j.char = false) : lexer.Concur follows := by
  intro rest js k ks hrest h
  have hk : Aligned follows (k :: ks) := h.suffix (List.suffix_append _ _)
  obtain ⟨ls, hls, hwhole, hleft, hright⟩ := exists_token (hrules rest hrest js.getLast? k ks (aligned_getLast? h))
  obtain ⟨hopenl, hopenr⟩ := open_twins hrest hcomment hk (hspan k.bare ks hk.head)
  rw [lefts_bare, List.cons_append, ← getLast?_lefts] at hleft
  rw [lefts_bare, List.cons_append] at hopenl
  rw [rights_bare, ← getLast?_rights] at hright
  rw [rights_bare] at hopenr
  obtain ⟨ms, rfl⟩ := hls
  exact ⟨ls, List.prefix_append _ _, hwhole,
    length_first_of_open hopenl hleft (by simp [lefts_append]),
    length_first_of_open hopenr hright (by simp [rights_append])⟩

end

end Token

end SqlLayout
