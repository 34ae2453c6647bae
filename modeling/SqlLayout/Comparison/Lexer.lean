import SqlLayout.Comparison.Tokenizer

/-! # Lexers

A lexer cuts a text into tokens from left to right. For each token it sees all of the text, what comes
before and what is left. No character is lost.
-/

namespace SqlLayout

/-- Tells the tokens of a text one after the other. -/
structure Lexer where
  /-- The first token of what is left of a text, given what comes before. -/
  first : (before rest : Text) → Lexeme
  /-- It begins where the rest does, and has a character at least. -/
  text_first : ∀ (before : Text) (c : Char) (s : Text),
    ∃ n, (first before (c :: s)).text = c :: s.take n

namespace Lexer

variable (l : Lexer)

/-- The tokens of what is left of a text, given what comes before and how many characters belong to a
    token that is already cut. -/
def cutFrom (before : Text) : (taken : Nat) → Text → List Lexeme
  | _, [] => []
  | taken + 1, c :: s => cutFrom (before ++ [c]) taken s
  | 0, c :: s =>
    let token := l.first before (c :: s)
    token :: cutFrom (before ++ [c]) (token.text.length - 1) s

/-- The tokens of a text. -/
def cut (s : Text) : List Lexeme :=
  l.cutFrom [] 0 s

/-- After the characters of a token that is already cut. -/
theorem cutFrom_append (before u v : Text) :
    l.cutFrom before u.length (u ++ v) = l.cutFrom (before ++ u) 0 v := by
  induction u generalizing before with
  | nil => simp
  | cons c u ih => rw [List.cons_append, List.length_cons, cutFrom, ih, List.append_assoc]; rfl

theorem cutFrom_first {before u v : Text} (hne : u ≠ []) (h : (l.first before (u ++ v)).text = u) :
    l.cutFrom before 0 (u ++ v) = l.first before (u ++ v) :: l.cutFrom (before ++ u) 0 v := by
  obtain ⟨c, u, rfl⟩ := List.exists_cons_of_ne_nil hne
  rw [List.cons_append] at h ⊢
  rw [cutFrom, h, List.length_cons, Nat.add_sub_cancel, cutFrom_append, List.append_assoc]
  rfl

theorem text_ne_nil_of_mem_cutFrom {before : Text} {taken : Nat} {s : Text} {t : Lexeme}
    (h : t ∈ l.cutFrom before taken s) : t.text ≠ [] := by
  induction s generalizing before taken with
  | nil => simp [cutFrom] at h
  | cons c s ih =>
      cases taken with
      | succ taken => exact ih h
      | zero =>
          rcases List.mem_cons.mp h with rfl | h
          · obtain ⟨n, hn⟩ := l.text_first before c s
            simp [hn]
          · exact ih h

end Lexer

/-- The tokens of a text, unless it is refused, are those that a lexer cuts. -/
def Tokenizer.CutsBy {ε : Type} (t : Tokenizer ε) (l : Lexer) : Prop :=
  ∀ s ls, t s = .ok ls → ls = l.cut s

namespace Tokenizer

variable {ε : Type} {t : Tokenizer ε} {l : Lexer}

/-- The mismatches of two texts, if none is refused. -/
theorem CutsBy.compare_ok (h : t.CutsBy l) {first second : Text} {found : List Mismatch}
    (hfound : t.compare first second = .ok found) :
    found = Mismatch.between 0 (Lexeme.significant (l.cut first)) (Lexeme.significant (l.cut second)) := by
  obtain ⟨before, after, hbefore, hafter, rfl⟩ := t.compare_eq_ok.mp hfound
  obtain ⟨ls, hls, rfl⟩ := t.significant?_eq_ok.mp hbefore
  obtain ⟨ms, hms, rfl⟩ := t.significant?_eq_ok.mp hafter
  rw [h first ls hls, h second ms hms]

end Tokenizer

end SqlLayout
