import SqlLayout.Text.Case

/-! # Comparison of texts by their tokens

What cuts a text into tokens comes from outside, and may refuse a text. Of a token a comparison sees
its text, and whether it is blank or quoted. Two lists of tokens are compared place by place; where
one of them has ended, an empty text stands for the missing token.
-/

namespace SqlLayout

/-- A token as a comparison sees it. -/
structure Lexeme where
  text : Text
  /-- Whether it is one that does not count. -/
  isBlank : Bool
  /-- Whether it counts as it is spelled. -/
  isQuoted : Bool
  deriving DecidableEq

/-- What cuts texts into tokens, or refuses to. -/
abbrev Tokenizer (ε : Type) := Text → Except ε (List Lexeme)

namespace Lexeme

/-- What of a token counts in a comparison. -/
def compared (l : Lexeme) : Text :=
  if l.isQuoted then l.text else upper l.text

/-- Of some tokens those that count, as they are compared. -/
def significant (ls : List Lexeme) : List Text :=
  (ls.filter fun l => !l.isBlank).map compared

theorem significant_blank {l : Lexeme} (h : l.isBlank = true) (ls : List Lexeme) :
    significant (l :: ls) = significant ls := by
  simp [significant, h]

theorem significant_shown {l : Lexeme} (h : l.isBlank = false) (ls : List Lexeme) :
    significant (l :: ls) = l.compared :: significant ls := by
  simp [significant, h]

end Lexeme

/-- A place at which two lists of tokens differ. -/
structure Mismatch where
  /-- The place, counted from zero. -/
  index : Nat
  before : Text
  after : Text
  deriving DecidableEq

namespace Mismatch

/-- A mismatch at a place, unless the two tokens are the same. -/
def at? (index : Nat) (before after : Text) : List Mismatch :=
  if before = after then [] else [⟨index, before, after⟩]

/-- The mismatches of no tokens and a list, the first place of which has the given index. -/
def ofMissing (index : Nat) : List Text → List Mismatch
  | [] => []
  | b :: bs => at? index [] b ++ ofMissing (index + 1) bs

/-- The mismatches of two lists, the first places of which have the given index. -/
def between (index : Nat) : List Text → List Text → List Mismatch
  | [], bs => ofMissing index bs
  | a :: as, [] => at? index a [] ++ between (index + 1) as []
  | a :: as, b :: bs => at? index a b ++ between (index + 1) as bs

end Mismatch

namespace Tokenizer

variable {ε : Type} (t : Tokenizer ε)

/-- The tokens of a text that count. -/
def significant? (s : Text) : Except ε (List Text) :=
  (t s).map Lexeme.significant

/-- The mismatches of two texts. -/
def compare (first second : Text) : Except ε (List Mismatch) :=
  match t.significant? first with
  | .error fault => .error fault
  | .ok before =>
    match t.significant? second with
    | .error fault => .error fault
    | .ok after => .ok (Mismatch.between 0 before after)

theorem significant?_eq_ok {s : Text} {ts : List Text} :
    t.significant? s = .ok ts ↔ ∃ ls, t s = .ok ls ∧ Lexeme.significant ls = ts := by
  rw [significant?]
  cases t s <;> simp [Except.map]

theorem compare_eq_ok {first second : Text} {found : List Mismatch} :
    t.compare first second = .ok found ↔ ∃ before after, t.significant? first = .ok before ∧
      t.significant? second = .ok after ∧ Mismatch.between 0 before after = found := by
  rw [compare]
  cases t.significant? first <;> cases t.significant? second <;> simp

end Tokenizer

end SqlLayout
