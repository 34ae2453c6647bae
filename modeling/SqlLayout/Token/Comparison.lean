import SqlLayout.Comparison.Lexer
import SqlLayout.Grouping.Steps
import SqlLayout.Token.Lexer

/-! # Comparison of SQL texts

The tokenizer of the program, by which its comparisons are made unless another one is given. The tokens
of a text count only if they can be grouped; what the groups are is of no interest here.
-/

namespace SqlLayout

namespace Token

/-- A token as a comparison sees it. -/
def lexeme (t : Token) : Lexeme where
  text := t.text
  isBlank := t.kind.isBlank
  isQuoted := t.kind.isQuoted

/-- The tokens of a text, unless it cannot be grouped. -/
def tokenize : Tokenizer Grouping.Fault := fun s =>
  let tokens := cut s
  (Grouping.ofTokens tokens).map fun _ => tokens.map lexeme

/-- The tokens of a text that count. -/
def significant? (s : Text) : Except Grouping.Fault (List Text) :=
  tokenize.significant? s

/-- Of what comes before a token only the last character matters. -/
def lexer : Lexer where
  first before rest := (first before.getLast? rest).lexeme
  text_first before c s := text_first before.getLast? c s

theorem cutFrom_lexer (before : Text) (taken : Nat) (s : Text) :
    lexer.cutFrom before taken s = (cutFrom before.getLast? taken s).map lexeme := by
  induction s generalizing before taken with
  | nil => simp [Lexer.cutFrom, cutFrom]
  | cons c s ih =>
      have hlast : (before ++ [c]).getLast? = some c := by simp
      cases taken with
      | succ taken => rw [Lexer.cutFrom, cutFrom, ih, hlast]
      | zero =>
          rw [Lexer.cutFrom, cutFrom, List.map_cons, ih, hlast]
          rfl

/-- The tokenizer of the program cuts by its rules. -/
theorem tokenize_cutsBy : tokenize.CutsBy lexer := by
  intro s ls h
  rw [Lexer.cut, cutFrom_lexer]
  rw [tokenize] at h
  cases hgroup : Grouping.ofTokens (cut s) with
  | error fault => simp [hgroup, Except.map] at h
  | ok nodes =>
      rw [hgroup] at h
      exact (Except.ok.inj h).symm

end Token

/-- The mismatches of two SQL texts. -/
def Mismatch.ofTexts (first second : Text) : Except Grouping.Fault (List Mismatch) :=
  Token.tokenize.compare first second

end SqlLayout
