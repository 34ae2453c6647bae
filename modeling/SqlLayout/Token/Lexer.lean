import SqlLayout.Token.Rules

/-! # Tokens

A text is cut into tokens from left to right. First it is seen whether a span with delimiters of
its own begins, a block comment or text between dollar signs; then the rules are tried; a character
to which no rule applies is a token. No character is lost.
-/

namespace SqlLayout

namespace Token

/-- How many characters there are up to the end of the first occurrence of a delimiter, if it
    occurs. -/
def lengthThrough? (delimiter : Text) : Text → Option Nat
  | [] => none
  | c :: s =>
    if delimiter.isPrefixOf (c :: s) then some delimiter.length
    else (lengthThrough? delimiter s).map (· + 1)

/-- How long a span is that begins here with some characters and ends with a delimiter after
    them. -/
def spanLength? (opened : Nat) (delimiter rest : Text) : Option Nat :=
  (lengthThrough? delimiter (rest.drop opened)).map (opened + ·)

/-- How long a block comment is that begins here and is closed. -/
def commentLength? (rest : Text) : Option Nat :=
  if "/*+".toList.isPrefixOf rest then spanLength? 3 "*/".toList rest
  else if "/*".toList.isPrefixOf rest then spanLength? 2 "*/".toList rest
  else none

/-- What a block comment at the start of a text is. -/
def commentKind (rest : Text) : TokenKind :=
  if "/*+".toList.isPrefixOf rest then .hint else .blockComment

/-- The name at the start of a text, which may be empty. -/
def delimiterName : Text → Text
  | [] => []
  | c :: s => if isNameStart c then c :: s.takeWhile isWord else []

/-- The dollar delimiter at the start of a text: a dollar sign, a name or none, a dollar sign. -/
def dollarDelimiter? : Text → Option Text
  | '$' :: s =>
    if (s.drop (delimiterName s).length).head? = some '$' then
      some ('$' :: delimiterName s ++ ['$'])
    else none
  | _ => none

/-- Whether dollar text may begin after a character. -/
def allowsDollar (before : Option Char) : Bool :=
  !before.any fun c => isWord c || c == '"' || c == '$'

/-- How long dollar text is that begins here and is closed by the same delimiter. -/
def dollarLength? (before : Option Char) (rest : Text) : Option Nat :=
  if allowsDollar before then
    match dollarDelimiter? rest with
    | none => none
    | some delimiter => spanLength? delimiter.length delimiter rest
  else none

/-- How many characters the first rule that applies takes, and the kind that the rule gives. -/
def byRule? (before : Option Char) (rest : Text) : Option (TokenKind × Nat) :=
  TokenRule.all.findSome? fun rule =>
    (rule.pattern.length? before rest).map fun n => (rule.kind, n)

/-- A token of so many characters of a text, but at least one. -/
def ofLength (kind : TokenKind) (n : Nat) (rest : Text) : Token :=
  ⟨kind, rest.take (max 1 n)⟩

/-- The first token of a text, given the character before. -/
def first (before : Option Char) (rest : Text) : Token :=
  match dollarLength? before rest, commentLength? rest, byRule? before rest with
  | some n, _, _ => ofLength .dollarText n rest
  | none, some n, _ => ofLength (commentKind rest) n rest
  | none, none, some (kind, n) => ofLength kind n rest
  | none, none, none => ofLength .other 1 rest

/-- The tokens of a text, given the character before and how many characters belong to a token
    that is already cut. -/
def cutFrom (before : Option Char) : (taken : Nat) → Text → List Token
  | _, [] => []
  | taken + 1, c :: s => cutFrom (some c) taken s
  | 0, c :: s =>
    let token := first before (c :: s)
    token :: cutFrom (some c) (token.text.length - 1) s

/-- The tokens of a text. -/
def cut (s : Text) : List Token :=
  cutFrom none 0 s

theorem text_ofLength (kind : TokenKind) (n : Nat) (c : Char) (s : Text) :
    ∃ m, (ofLength kind n (c :: s)).text = c :: s.take m := by
  refine ⟨max 1 n - 1, ?_⟩
  obtain ⟨m, hm⟩ : ∃ m, max 1 n = m + 1 := ⟨max 1 n - 1, by omega⟩
  simp [ofLength, hm]

/-- The first token of a text begins where the text does and has a character at least. -/
theorem text_first (before : Option Char) (c : Char) (s : Text) :
    ∃ n, (first before (c :: s)).text = c :: s.take n := by
  unfold first
  split <;> exact text_ofLength _ _ c s

theorem text_cutFrom (before : Option Char) (taken : Nat) (s : Text) :
    (cutFrom before taken s).flatMap Token.text = s.drop taken := by
  induction s generalizing before taken with
  | nil => simp [cutFrom]
  | cons c s ih =>
      cases taken with
      | succ taken => simp [cutFrom, ih]
      | zero =>
          obtain ⟨n, hn⟩ := text_first before c s
          simp only [cutFrom, List.flatMap_cons, ih, hn, List.drop_zero, List.cons_append,
            List.length_cons, List.length_take, Nat.add_sub_cancel]
          rw [List.take_eq_take_min, List.take_append_drop]

/-- Cutting a text into tokens loses nothing. -/
theorem text_cut (s : Text) : (cut s).flatMap Token.text = s := by
  simp [cut, text_cutFrom]

end Token

end SqlLayout
