import SqlLayout.Proofs.CasedTokens
import SqlLayout.Proofs.LexerTwins
import SqlLayout.Proofs.Mismatches
import SqlLayout.Proofs.Places

/-! # Tokens of re-cased texts

Re-casing keywords changes the case of ASCII letters and nothing else. A lexer that does not look at
letter case cuts the two texts at the same places, and a comparison sees no difference unless a token is
quoted.
-/

namespace SqlLayout

/-- An ASCII character stays the same in a letter case, but for its case. -/
theorem LetterCase.applyChar_ascii (m : LetterCase) {c : Char} (hc : c.toNat < 128) :
    ∃ d, m.applyChar c = [d] ∧ Cased c d := by
  have hall : ∀ n < 128, m.applyChar (Char.ofNat n) = [(m.applyChar (Char.ofNat n)).headD 'a'] ∧
      ((m.applyChar (Char.ofNat n)).headD 'a').toNat < 128 ∧
      (Char.ofNat n).toLower = ((m.applyChar (Char.ofNat n)).headD 'a').toLower := by
    cases m <;> decide +kernel
  obtain ⟨happly, hascii, hlower⟩ := ascii_induction (P := fun c =>
    m.applyChar c = [(m.applyChar c).headD 'a'] ∧ ((m.applyChar c).headD 'a').toNat < 128 ∧
      c.toLower = ((m.applyChar c).headD 'a').toLower) hall hc
  exact ⟨_, happly, hc, hascii, hlower⟩

theorem cased_applyAt (m : LetterCase) {places : Nat → Prop} [DecidablePred places] (i : Nat)
    {s : Text} (hs : ∀ c ∈ s, c.toNat < 128) : List.Forall₂ Cased s (m.applyAt places i s) := by
  induction s generalizing i with
  | nil => exact .nil
  | cons c s ih =>
      rw [List.forall_mem_cons] at hs
      obtain ⟨d, hd, hcd⟩ := m.applyChar_ascii hs.1
      rw [LetterCase.applyAt, hd]
      split
      · exact .cons hcd (ih (i + 1) hs.2)
      · exact .cons ⟨hs.1, hs.1, rfl⟩ (ih (i + 1) hs.2)

/-- Re-casing an ASCII text changes the case of letters only. -/
theorem cased_recase (m : LetterCase) {s : Text} (hs : ∀ c ∈ s, c.toNat < 128) :
    List.Forall₂ Cased s (Casing.recase m s) := by
  rw [recase_eq_applyAt]
  exact cased_applyAt m 0 hs

/-! ## Lexers without letter case -/

/-- Tokens that are the same but for their case. -/
structure Lexeme.Alike (a b : Lexeme) : Prop where
  isBlank : a.isBlank = b.isBlank
  isQuoted : a.isQuoted = b.isQuoted
  text : List.Forall₂ Cased a.text b.text

namespace Lexer

/-- Texts that are the same but for their case have first tokens that are so. -/
def CaseBlind (l : Lexer) : Prop :=
  ∀ before before' rest rest', List.Forall₂ Cased before before' → List.Forall₂ Cased rest rest' →
    (l.first before rest).Alike (l.first before' rest')

/-- A token is quoted only if it has a quote in it. -/
def QuotesOnly (l : Lexer) : Prop :=
  ∀ before c s, (l.first before (c :: s)).isQuoted = true →
    ∃ q ∈ (l.first before (c :: s)).text, isQuote q = true

variable {l : Lexer} {s s' : Text}

theorem QuotesOnly.not_isQuoted (h : l.QuotesOnly) {before : Text} {c : Char}
    (hs : ∀ d ∈ c :: s, isQuote d = false) : (l.first before (c :: s)).isQuoted = false := by
  obtain ⟨n, hn⟩ := l.text_first before c s
  rw [← Bool.not_eq_true]
  intro hquoted
  obtain ⟨d, hd, hquote⟩ := h before c s hquoted
  rw [hn] at hd
  have hmem : d ∈ c :: s := List.cons_subset_cons c (List.take_subset n s) hd
  simp [hs d hmem] at hquote

/-- The tokens of two texts that are the same but for their case, if none has a quote in it. -/
theorem CaseBlind.forall₂_cutFrom (hblind : l.CaseBlind) (hquotes : l.QuotesOnly) {before before' : Text}
    (hbefore : List.Forall₂ Cased before before') (h : List.Forall₂ Cased s s')
    (hs : ∀ c ∈ s, isQuote c = false) (taken : Nat) :
    List.Forall₂ (fun a b => a.Alike b ∧ a.isQuoted = false) (l.cutFrom before taken s)
      (l.cutFrom before' taken s') := by
  induction h generalizing before before' taken with
  | nil => simp [cutFrom]
  | @cons c c' s s' hc hst ih =>
      have hnext : List.Forall₂ Cased (before ++ [c]) (before' ++ [c']) :=
        List.rel_append hbefore (.cons hc .nil)
      have hrest : ∀ d ∈ s, isQuote d = false := fun d hd => hs d (by simp [hd])
      cases taken with
      | succ taken => exact ih hnext hrest taken
      | zero =>
          have halike := hblind before before' (c :: s) (c' :: s') hbefore (.cons hc hst)
          rw [cutFrom, cutFrom, ← halike.text.length_eq]
          exact .cons ⟨halike, hquotes.not_isQuoted hs⟩ (ih hnext hrest _)

end Lexer

theorem upper_cased {u v : Text} (h : List.Forall₂ Cased u v) : upper u = upper v := by
  induction h with
  | nil => rfl
  | @cons c d u v hcd _ ih =>
      have hchar : upperChar c = upperChar d := by
        rw [← upperChar_toLower c, hcd.same, upperChar_toLower d]
      show upperChar c ++ upper u = upperChar d ++ upper v
      rw [hchar, ih]

/-- Tokens that are the same but for their case are the same to a comparison, unless they are quoted. -/
theorem significant_alike {as bs : List Lexeme}
    (h : List.Forall₂ (fun a b => a.Alike b ∧ a.isQuoted = false) as bs) :
    Lexeme.significant as = Lexeme.significant bs := by
  induction h with
  | nil => rfl
  | @cons a b as bs hab _ ih =>
      obtain ⟨halike, hquoted⟩ := hab
      cases hblank : a.isBlank with
      | true =>
          rw [Lexeme.significant_blank hblank, Lexeme.significant_blank (halike.isBlank.symm.trans hblank), ih]
      | false =>
          rw [Lexeme.significant_shown hblank, Lexeme.significant_shown (halike.isBlank.symm.trans hblank),
            Lexeme.compared, Lexeme.compared, ← halike.isQuoted, hquoted, upper_cased halike.text, ih]
          rfl

/-- A comparison tells nothing of an ASCII text without quotes and the re-cased text, if the lexer does
    not look at letter case and nothing is quoted without a quote. -/
theorem compare_recased {ε : Type} {t : Tokenizer ε} {l : Lexer} (hcuts : t.CutsBy l)
    (hblind : l.CaseBlind) (honly : l.QuotesOnly) (setting : Setting) {s : Text}
    (hascii : ∀ c ∈ s, c.toNat < 128) (hquotes : '\'' ∉ s ∧ '"' ∉ s) {found : List Mismatch}
    (h : t.compare s (Casing.recase (.ofSetting setting) s) = .ok found) : found = [] := by
  have hplain : ∀ c ∈ s, isQuote c = false := by
    intro c hc
    simp only [isQuote, Bool.or_eq_false_iff, beq_eq_false_iff_ne]
    exact ⟨fun heq => hquotes.1 (heq ▸ hc), fun heq => hquotes.2 (heq ▸ hc)⟩
  have halike := hblind.forall₂_cutFrom honly .nil (cased_recase (.ofSetting setting) hascii) hplain 0
  rw [hcuts.compare_ok h, Lexer.cut, Lexer.cut, significant_alike halike]
  exact Mismatch.between_self 0 _

namespace Token

open Pattern

/-- The first token of a text as comments and rules tell. Text between dollar signs is left out, for its
    delimiters are compared as they are spelled. -/
def firstPlain (before : Option Char) (rest : Text) : Token :=
  match commentLength? rest, byRule? before rest with
  | some n, _ => ofLength (commentKind rest) n rest
  | none, some (kind, n) => ofLength kind n rest
  | none, none => ofLength .other 1 rest

/-- The lexer without text between dollar signs. -/
def plainLexer : Lexer where
  first before rest := (firstPlain before.getLast? rest).lexeme
  text_first before c s := by
    show ∃ n, (firstPlain before.getLast? (c :: s)).text = c :: s.take n
    unfold firstPlain
    split <;> exact text_ofLength _ _ c s

theorem alike_ofLength (kind : TokenKind) (n : Nat) {s t : Text} (h : List.Forall₂ Cased s t) :
    (ofLength kind n s).lexeme.Alike (ofLength kind n t).lexeme :=
  ⟨rfl, rfl, List.forall₂_take _ h⟩

theorem rel_getLast? {s t : Text} (h : List.Forall₂ Cased s t) :
    Option.Rel Cased s.getLast? t.getLast? := by
  induction h with
  | nil => exact .none
  | @cons c d s t hcd hst ih =>
      rw [List.getLast?_cons, List.getLast?_cons]
      generalize s.getLast? = x at ih
      generalize t.getLast? = y at ih
      cases ih with
      | none => exact .some hcd
      | some h => exact .some h

theorem plainLexer_caseBlind : plainLexer.CaseBlind := by
  intro before before' rest rest' hbefore hrest
  obtain ⟨hlength, hkind⟩ := comment_cased hrest
  show (firstPlain before.getLast? rest).lexeme.Alike (firstPlain before'.getLast? rest').lexeme
  rw [firstPlain, firstPlain, ← hlength, ← hkind, ← byRule?_cased ⟨rel_getLast? hbefore, hrest⟩]
  split <;> exact alike_ofLength _ _ hrest

theorem mayBegin_between (mark : Char) (escapes : List Pattern) (c : Char) :
    (TokenRule.between mark escapes).mayBegin c = (c == mark) := by
  simp [TokenRule.between, inOrder, exactly, mayBegin, spellsNothing]

/-- The rules for quoted text begin with a quote. -/
theorem isQuote_of_mayBegin {rule : TokenRule} (hrule : rule ∈ TokenRule.all)
    (hquoted : rule.kind.isQuoted = true) {c : Char} (hc : rule.pattern.mayBegin c = true) :
    isQuote c = true := by
  have hrules : TokenRule.all.filter (·.kind.isQuoted)
      = [⟨.text, TokenRule.between '\'' [literal "\\'"]⟩,
        ⟨.symbol, TokenRule.between '"' [literal "\\\""]⟩] := rfl
  have hmem : rule ∈ TokenRule.all.filter (·.kind.isQuoted) := List.mem_filter.mpr ⟨hrule, hquoted⟩
  rw [hrules, List.mem_cons, List.mem_singleton] at hmem
  rcases hmem with rfl | rfl
  · rw [mayBegin_between] at hc
    simp [isQuote, hc]
  · rw [mayBegin_between] at hc
    simp [isQuote, hc]

theorem plainLexer_quotesOnly : plainLexer.QuotesOnly := by
  intro before c s
  show (firstPlain before.getLast? (c :: s)).kind.isQuoted = true →
    ∃ q ∈ (firstPlain before.getLast? (c :: s)).text, isQuote q = true
  rw [firstPlain]
  split
  · intro hquoted
    simp [ofLength, (isQuoted_commentKind (c :: s)).2] at hquoted
  · rename_i kind n _ hrule
    intro hquoted
    obtain ⟨rule, hmem, rfl, hbegin, -⟩ := byRule?_parts hrule
    obtain ⟨m, hm⟩ := text_ofLength rule.kind n c s
    rw [hm]
    exact ⟨c, List.mem_cons_self, isQuote_of_mayBegin hmem hquoted hbegin⟩
  · exact fun hquoted => absurd hquoted (by decide : ¬TokenKind.other.isQuoted = true)

end Token

/-- Keywords before a point, in a comment and after a number are written in capitals, and nothing is told
    of it. -/
theorem compare_recased_comment :
    let capitals : Setting := .text "upper".toList
    let s : Text := "or.a /* or */ 1e5 and :or".toList
    let t : Tokenizer Grouping.Fault := fun s => .ok (Token.plainLexer.cut s)
    Casing.recase (.ofSetting capitals) s = "OR.a /* OR */ 1e5 AND :OR".toList ∧
      Token.plainLexer.cut s = Token.lexer.cut s ∧
      ∃ found, t.compare s (Casing.recase (.ofSetting capitals) s) = .ok found ∧ found = [] := by
  intro capitals s t
  have hcuts : t.CutsBy Token.plainLexer := fun s ls h => (Except.ok.inj h).symm
  exact ⟨by decide +kernel, by decide +kernel, _, rfl,
    compare_recased hcuts Token.plainLexer_caseBlind Token.plainLexer_quotesOnly capitals (by decide)
      (by decide) rfl⟩

end SqlLayout
