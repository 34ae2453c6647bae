import SqlLayout.Comparison.Lexer
import SqlLayout.Proofs.Settling
import SqlLayout.Proofs.Twins

/-! # Lexers on texts side by side

If a lexer takes the same letters of two texts wherever a token may begin, the texts have the same
tokens but for the blanks inside of them and the case of their letters. Blanks between tokens are
tokens that do not count, however many there are.
-/

namespace SqlLayout

open Twin

def isQuote (c : Char) : Bool :=
  c == '\'' || c == '"'

theorem impartial_isQuote : Impartial isQuote := by decide

namespace Lexer

/-- Tokens are told apart by their first characters: at a blank there are blanks only, and elsewhere
    text is quoted only if it begins with a quote. -/
structure Sorts (l : Lexer) : Prop where
  blank : ∀ (before : Text) (b : Char) (s : Text), isBlank b = true →
    (l.first before (b :: s)).isBlank = true ∧ (l.first before (b :: s)).text.isAllBlank = true
  shown : ∀ (before : Text) (c : Char) (s : Text),
    c.toNat < 128 → isBlank c = false → isQuote c = false →
      (l.first before (c :: s)).isBlank = false ∧ (l.first before (c :: s)).isQuoted = false

/-- Wherever a token may begin, the same letters of both texts are taken. -/
def Concur (l : Lexer) (follows : Twin → List Twin → Prop) : Prop :=
  ∀ (rest : Text) (js : List Twin) (k : Twin) (ks : List Twin), rest.isAllBlank = true →
    Pattern.Aligned follows (js ++ k :: ks) →
    ∃ ls, ls <+: ks ∧ (∀ i ∈ ls, i.Whole) ∧
      (l.first (lefts js ++ k.left) (k.char :: (lefts ks ++ rest))).text.length
        = (lefts ls).length + 1 ∧
      (l.first (rights js ++ k.right) (k.other :: rights ks)).text.length = (rights ls).length + 1

/-! ## One text -/

variable {l : Lexer}

/-- Blanks taken of a text are those before its first character that shows. -/
theorem exists_append_of_isAllBlank {t r g s : Text} (h : t ++ r = g ++ s) (ht : t.isAllBlank = true)
    (hs : ∀ c ∈ s.head?, isBlank c = false) : ∃ g', g = t ++ g' ∧ r = g' ++ s := by
  rcases List.append_eq_append_iff.mp h with h | ⟨a, rfl, hsplit⟩
  · exact h
  · cases a with
    | nil => exact ⟨[], by simp, by simpa using hsplit.symm⟩
    | cons c a =>
        rw [Text.isAllBlank_append, Bool.and_eq_true, Text.isAllBlank_cons, Bool.and_eq_true] at ht
        have hc := hs c (by simp [hsplit])
        simp [ht.2.1] at hc

/-- Blanks before a token make no difference to the tokens that count. -/
theorem Sorts.significant_blank (h : l.Sorts) {g : Text} (hg : g.isAllBlank = true) (before : Text)
    {s : Text} (hs : ∀ c ∈ s.head?, isBlank c = false) :
    Lexeme.significant (l.cutFrom before 0 (g ++ s))
      = Lexeme.significant (l.cutFrom (before ++ g) 0 s) := by
  induction hlen : g.length using Nat.strong_induction_on generalizing g before with
  | _ n ih =>
    cases g with
    | nil => simp
    | cons b g =>
        have hb : isBlank b = true := by
          rw [Text.isAllBlank_cons, Bool.and_eq_true] at hg
          exact hg.1
        obtain ⟨hblank, htext⟩ := h.blank before b (g ++ s) hb
        obtain ⟨m, hm⟩ := l.text_first before b (g ++ s)
        generalize htoken : l.first before (b :: (g ++ s)) = token at hblank htext hm
        have hsplit : token.text ++ (g ++ s).drop m = (b :: g) ++ s := by
          rw [hm, List.cons_append, List.take_append_drop, List.cons_append]
        obtain ⟨g', hg', hrest⟩ := exists_append_of_isAllBlank hsplit htext hs
        have hne : token.text ≠ [] := by simp [hm]
        have hall : g'.isAllBlank = true := by
          rw [hg', Text.isAllBlank_append, Bool.and_eq_true] at hg
          exact hg.2
        have hshort : g'.length < n := by
          have hpos := List.length_pos_iff.mpr hne
          have hlength := congrArg List.length hg'
          simp only [List.length_append] at hlength
          omega
        have hfirst : l.first before (token.text ++ (g' ++ s)) = token := by
          rw [← hrest, hsplit, List.cons_append, htoken]
        have hcut := l.cutFrom_first hne (congrArg Lexeme.text hfirst)
        rw [hfirst] at hcut
        rw [hg', List.append_assoc, hcut, Lexeme.significant_blank hblank, ← List.append_assoc,
          ← ih _ hshort hall (before ++ token.text) rfl]

/-- The first token counts if it begins with a character that shows. -/
theorem Sorts.significant_first (h : l.Sorts) {before : Text} {c : Char} {u v : Text}
    (hascii : c.toNat < 128) (hshown : isBlank c = false) (hquote : isQuote c = false)
    (hlength : (l.first before (c :: (u ++ v))).text.length = u.length + 1) :
    Lexeme.significant (l.cutFrom before 0 (c :: (u ++ v)))
      = upper (c :: u) :: Lexeme.significant (l.cutFrom (before ++ c :: u) 0 v) := by
  obtain ⟨hblank, hquoted⟩ := h.shown before c (u ++ v) hascii hshown hquote
  have htext : (l.first before (c :: u ++ v)).text = c :: u := by
    obtain ⟨n, hn⟩ := l.text_first before c (u ++ v)
    have hpre : (l.first before (c :: u ++ v)).text <+: c :: u ++ v := by
      rw [List.cons_append, hn]
      exact List.cons_prefix_cons.mpr ⟨rfl, List.take_prefix n _⟩
    exact (List.prefix_of_prefix_length_le hpre (List.prefix_append _ v) (by simp [hlength])).eq_of_length
      (by simp [hlength])
  rw [← List.cons_append, l.cutFrom_first (by simp) htext, List.cons_append,
    Lexeme.significant_shown hblank, Lexeme.compared, hquoted, ← List.cons_append, htext]
  rfl

/-! ## Two texts -/

/-- Two tokens of the same letters, which have blanks at the same places. -/
def Told (P : Twin → Prop) (a b : Text) : Prop :=
  ∃ js : List Twin, (∀ j ∈ js, j.Even ∧ j.Whole ∧ P j) ∧ a = upper (lefts js) ∧ b = upper (rights js)

section

variable {follows : Twin → List Twin → Prop} {rest : Text}

/-- Two texts, of which the same letters are taken, have the same tokens. -/
theorem Concur.forall₂_significant {P : Twin → Prop} (hconcur : l.Concur follows) (hsorts : l.Sorts)
    (hrest : rest.isAllBlank = true) (hP : ∀ k, P k → P k.bare) (js ks : List Twin)
    (h : Pattern.Aligned follows (js ++ ks)) (hquote : ∀ k ∈ ks, isQuote k.char = false)
    (hks : ∀ k ∈ ks, P k) :
    List.Forall₂ (Told P) (Lexeme.significant (l.cutFrom (lefts js) 0 (lefts ks ++ rest)))
      (Lexeme.significant (l.cutFrom (rights js) 0 (rights ks))) := by
  induction hlen : ks.length using Nat.strong_induction_on generalizing js ks with
  | _ n ih =>
    cases ks with
    | nil =>
        have hnone := hsorts.significant_blank hrest (lefts js) (s := []) (by simp)
        rw [List.append_nil] at hnone
        rw [lefts_nil, List.nil_append, hnone]
        exact .nil
    | cons k ks =>
        obtain ⟨ls, ⟨ms, rfl⟩, hwhole, hleft, hright⟩ := hconcur rest js k ks hrest h
        have heven := h.even k (by simp)
        have hother : isQuote k.other = false :=
          (impartial_isQuote.even heven).trans (hquote k (by simp))
        rw [lefts_append, List.append_assoc] at hleft
        rw [rights_append] at hright
        -- the blanks before the token are passed over, and the token is taken of both texts
        have hlefts : Lexeme.significant (l.cutFrom (lefts js) 0 (lefts (k :: (ls ++ ms)) ++ rest))
            = upper (lefts (k.bare :: ls))
              :: Lexeme.significant (l.cutFrom (lefts (js ++ k :: ls)) 0 (lefts ms ++ rest)) := by
          rw [lefts_cons, List.append_assoc, List.cons_append,
            hsorts.significant_blank heven.left _ (by simpa using heven.shown), lefts_append,
            List.append_assoc, hsorts.significant_first heven.ascii heven.shown (hquote k (by simp)) hleft,
            lefts_bare, lefts_append, lefts_cons, List.append_assoc]
        have hrights : Lexeme.significant (l.cutFrom (rights js) 0 (rights (k :: (ls ++ ms))))
            = upper (rights (k.bare :: ls))
              :: Lexeme.significant (l.cutFrom (rights (js ++ k :: ls)) 0 (rights ms)) := by
          rw [rights_cons, hsorts.significant_blank heven.right _ (by simpa using heven.shown_other),
            rights_append, hsorts.significant_first heven.other heven.shown_other hother hright,
            rights_bare, rights_append, rights_cons, List.append_assoc]
        rw [hlefts, hrights]
        have hnext : Pattern.Aligned follows ((js ++ k :: ls) ++ ms) := by simpa using h
        refine .cons ⟨k.bare :: ls, ?_, rfl, rfl⟩ (ih ms.length (by simp at hlen; omega) _ ms hnext
          (fun i hi => hquote i (by simp [hi])) (fun i hi => hks i (by simp [hi])) rfl)
        rw [List.forall_mem_cons]
        exact ⟨⟨heven.bare, Iff.rfl, hP k (hks k (by simp))⟩,
          fun i hi => ⟨h.even i (by simp [hi]), hwhole i hi, hks i (by simp [hi])⟩⟩

/-- Two whole texts, of which the same letters are taken, have the same tokens. -/
theorem Concur.forall₂_cut {P : Twin → Prop} (hconcur : l.Concur follows) (hsorts : l.Sorts)
    (hrest : rest.isAllBlank = true) (hP : ∀ k, P k → P k.bare) {ks : List Twin}
    (h : Pattern.Aligned follows ks) (hquote : ∀ k ∈ ks, isQuote k.char = false)
    (hks : ∀ k ∈ ks, P k) :
    List.Forall₂ (Told P) (Lexeme.significant (l.cut (lefts ks ++ rest)))
      (Lexeme.significant (l.cut (rights ks))) :=
  hconcur.forall₂_significant hsorts hrest hP [] ks h hquote hks

end

/-! ## What is told of tokens -/

theorem upperChar_of_isBlank {b : Char} (hb : isBlank b = true) : upperChar b = [b] :=
  (by decide : ∀ b ∈ blanks, upperChar b = [b]) b (mem_blanks hb)

theorem upper_of_isAllBlank {g : Text} (hg : g.isAllBlank = true) : upper g = g := by
  induction g with
  | nil => rfl
  | cons b g ih =>
      rw [Text.isAllBlank_cons, Bool.and_eq_true] at hg
      show upperChar b ++ upper g = b :: g
      rw [upperChar_of_isBlank hg.1, ih hg.2]
      rfl

/-- A letter in capitals is the same in both texts. -/
theorem upperChar_even {k : Twin} (h : k.Even) :
    ∃ d, isBlank d = false ∧ upperChar k.char = [d] ∧ upperChar k.other = [d] := by
  have hchar : upperChar k.char = [k.char.toUpper] := if_pos h.ascii
  have hshown : isBlank k.char.toUpper = isBlank k.char :=
    ascii_induction (P := fun c => isBlank c.toUpper = isBlank c) (by decide) h.ascii
  refine ⟨k.char.toUpper, hshown.trans h.shown, hchar, ?_⟩
  rw [← upperChar_toLower k.other, ← h.same, upperChar_toLower, hchar]

theorem upper_lefts_cons {k : Twin} (hk : k.Even) (ks : List Twin) :
    upper (lefts (k :: ks)) = k.left ++ (upperChar k.char ++ upper (lefts ks)) := by
  have happend : ∀ s t : Text, upper (s ++ t) = upper s ++ upper t := fun s t => List.flatMap_append
  rw [lefts_cons, happend, upper_of_isAllBlank hk.left]
  rfl

theorem upper_rights_cons {k : Twin} (hk : k.Even) (ks : List Twin) :
    upper (rights (k :: ks)) = k.right ++ (upperChar k.other ++ upper (rights ks)) := by
  have happend : ∀ s t : Text, upper (s ++ t) = upper s ++ upper t := fun s t => List.flatMap_append
  rw [rights_cons, happend, upper_of_isAllBlank hk.right]
  rfl

/-- Tokens of the same letters are the same with single spaces for their blanks. -/
theorem Told.collapse_eq {P : Twin → Prop} {a b : Text} (h : Told P a b) :
    Spacing.collapse a = Spacing.collapse b := by
  obtain ⟨js, hjs, rfl, rfl⟩ := h
  induction js with
  | nil => rfl
  | cons k js ih =>
      rw [List.forall_mem_cons] at hjs
      obtain ⟨⟨hk, hwhole, -⟩, hjs⟩ := hjs
      obtain ⟨d, hd, hchar, hother⟩ := upperChar_even hk
      rw [upper_lefts_cons hk, upper_rights_cons hk, hchar, hother, List.singleton_append,
        List.singleton_append, Gaps.collapse_append_cons hk.left hd,
        Gaps.collapse_append_cons hk.right hd, ih hjs]
      have hempty : k.left.isEmpty = k.right.isEmpty := by
        rw [Bool.eq_iff_iff, List.isEmpty_iff, List.isEmpty_iff]
        exact hwhole
      rw [hempty]

/-- Tokens of the same letters are the same if there are no blanks in them. -/
theorem Told.eq {a b : Text} (h : Told (·.left = []) a b) : a = b := by
  obtain ⟨js, hjs, rfl, rfl⟩ := h
  induction js with
  | nil => rfl
  | cons k js ih =>
      rw [List.forall_mem_cons] at hjs
      obtain ⟨⟨hk, hwhole, hleft⟩, hjs⟩ := hjs
      obtain ⟨d, -, hchar, hother⟩ := upperChar_even hk
      rw [upper_lefts_cons hk, upper_rights_cons hk, hleft, hwhole.mp hleft, hchar, hother, ih hjs]

/-- Of two tokens of the same letters, which are not the same, the first has a blank in it. -/
theorem Told.exists_blank {P : Twin → Prop} {a b : Text} (h : Told P a b) (hne : a ≠ b) :
    ∃ c ∈ a, isBlank c = true := by
  obtain ⟨js, hjs, rfl, rfl⟩ := h
  by_contra hnone
  have hleft : ∀ j ∈ js, j.left = [] := by
    clear hne
    induction js with
    | nil => simp
    | cons k js ih =>
        rw [List.forall_mem_cons] at hjs ⊢
        rw [upper_lefts_cons hjs.1.1] at hnone
        refine ⟨?_, ih hjs.2 fun ⟨c, hc, hb⟩ => hnone ⟨c, by simp [hc], hb⟩⟩
        by_contra hgap
        obtain ⟨c, g, hg⟩ := List.exists_cons_of_ne_nil hgap
        exact hnone ⟨c, by simp [hg], Text.isBlank_of_mem hjs.1.1.left (by simp [hg])⟩
  exact hne (Told.eq ⟨js, fun j hj => ⟨(hjs j hj).1, (hjs j hj).2.1, hleft j hj⟩, rfl, rfl⟩)

end Lexer

/-- A mismatch is at the place of two tokens that are not the same. -/
theorem Mismatch.of_mem_between {R : Text → Text → Prop} {as bs : List Text}
    (h : List.Forall₂ R as bs) {index : Nat} {m : Mismatch} (hm : m ∈ between index as bs) :
    R m.before m.after ∧ m.before ≠ m.after := by
  induction h generalizing index with
  | nil => simp [between, ofMissing] at hm
  | @cons a b as bs hab h ih =>
      rw [between, List.mem_append] at hm
      rcases hm with hm | hm
      · rw [at?] at hm
        split at hm
        · simp at hm
        · rename_i hne
          obtain rfl := List.mem_singleton.mp hm
          exact ⟨hab, hne⟩
      · exact ih hm

end SqlLayout
