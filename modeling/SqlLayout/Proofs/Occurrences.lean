import SqlLayout.Proofs.Places

/-! # Where phrases stand

Two texts that differ in blanks only have the same characters that show, in the same order, so a
character can be found again by its number among them.
-/

namespace SqlLayout

open Phrase

namespace Text

/-- The characters of a text that show. -/
def ink (s : Text) : Text :=
  s.filter fun c => !isBlank c

@[simp] theorem ink_append (s t : Text) : ink (s ++ t) = ink s ++ ink t :=
  List.filter_append s t

theorem ink_blank {g : Text} (hg : g.isAllBlank = true) : ink g = [] :=
  List.filter_eq_nil_iff.mpr fun c hc => by simp [isBlank_of_mem hg hc]

theorem ink_shown {s : Text} (h : ∀ c ∈ s, isBlank c = false) : ink s = s :=
  List.filter_eq_self.mpr fun c hc => by simp [h c hc]

end Text

/-- The character with a number, among those that show, lies inside a phrase that stands in a text as
    whole words, in any letter case. -/
def Covers (phrases : List Text) (s : Text) (k : Nat) : Prop :=
  ∃ before found after, s = before ++ found ++ after ∧ fold found ∈ phrases ∧
    Gaps.holds isWord before.getLast? = false ∧ Gaps.holds isWord after.head? = false ∧
    before.ink.length ≤ k ∧ k < (before ++ found).ink.length

/-- A place inside a phrase is covered by its number among the characters that show. -/
theorem Inside.covers {phrases : List Text} {u r : Text} {c : Char} (hc : isBlank c = false)
    (h : Inside phrases (u ++ c :: r) u.length) : Covers phrases (u ++ c :: r) u.ink.length := by
  obtain ⟨before, found, after, heq, hfound, hbefore, hafter, hlow, hhigh⟩ := h
  rw [← List.append_assoc] at heq
  refine ⟨before, found, after, heq, hfound, hbefore, hafter, ?_, ?_⟩
  · obtain ⟨rest, rfl⟩ : before <+: u :=
      List.prefix_of_prefix_length_le ⟨found ++ after, by rw [heq, List.append_assoc]⟩
        (List.prefix_append u _) hlow
    simp
  · obtain ⟨rest, hrest⟩ : u ++ [c] <+: before ++ found :=
      List.prefix_of_prefix_length_le ⟨r, by rw [← heq, List.append_assoc]; rfl⟩
        (List.prefix_append _ after) (by simp; omega)
    rw [← hrest]
    simp [Text.ink, hc]

/-- The keywords, and the word that is changed in join clauses. -/
def Keyword.changed : List Text :=
  "ON".toList :: all.map Phrase.text

namespace Spot

theorem ink_text {a : Spot} (h : a.Solid) : a.text.ink = a.piece.text := by
  rw [text, Text.ink_append, Text.ink_blank h.1, Text.ink_shown fun c hc => isBlank_of_mem_text h hc,
    List.nil_append]

/-- Wherever something happens to a word, the characters with the numbers of its letters have a
    property. -/
def Marked (P : Nat → Prop) : (k : Nat) → List Edges → List Spot → Prop
  | k, e :: es, a :: as =>
    (e.inside = true ∨ a.word?.map fold = some "ON".toList → ∀ j < a.piece.text.length, P (k + j)) ∧
      Marked P (k + a.piece.text.length) es as
  | _, _, _ => True

/-- The letters of words to which something happens lie inside of phrases. -/
theorem marked_edges {tail : Text} (ht : tail.isAllBlank = true) (pre as : List Spot)
    (h : Sound (pre ++ as)) :
    Marked (Covers Keyword.changed (write (pre ++ as) ++ tail)) (write pre).ink.length
      (edges Keyword.all (lastWord none pre) as) as := by
  -- the spots before are kept, because a phrase may begin in the last of them
  induction as generalizing pre with
  | nil => trivial
  | cons a as ih =>
      have hsolid := h.solid a (by simp)
      have hrest := ih (pre ++ [a]) (by simpa using h)
      have hink : (write (pre ++ [a])).ink.length = (write pre).ink.length + a.piece.text.length := by
        simp [ink_text hsolid]
      have hlast : lastWord none (pre ++ [a]) = a.word? := by
        rw [lastWord_append]
        rfl
      rw [hink, hlast, List.append_assoc, List.singleton_append] at hrest
      refine ⟨fun hin j hj => ?_, hrest⟩
      have hinside : Inside Keyword.changed (write (pre ++ a :: as) ++ tail)
          ((write pre ++ a.gap).length + j) := by
        rcases hin with hin | hon
        · exact ((inside_iff_edges ht h hj).mpr hin).mono fun _ => List.mem_cons_of_mem _
        · obtain ⟨g, piece⟩ := a
          cases piece with
          | mark c => simp at hon
          | word w =>
              rw [word?_word, Option.map_some, Option.some.injEq] at hon
              exact inside_word ht h (by simp [Keyword.changed, hon]) hj
      obtain ⟨l, c, r, htext, rfl⟩ : ∃ l c r, a.piece.text = l ++ c :: r ∧ l.length = j :=
        ⟨a.piece.text.take j, a.piece.text[j], a.piece.text.drop (j + 1), by simp,
          by simp [Nat.le_of_lt hj]⟩
      have hshows : ∀ d ∈ l ++ c :: r, isBlank d = false :=
        fun d hd => isBlank_of_mem_text hsolid (htext ▸ hd)
      have hsplit : write (pre ++ a :: as) ++ tail
          = (write pre ++ a.gap ++ l) ++ c :: (r ++ (write as ++ tail)) := by
        simp [text, htext]
      rw [hsplit, ← List.length_append] at hinside
      have hcovers := hinside.covers (hshows c (by simp))
      have hl : Text.ink l = l := Text.ink_shown fun d hd => hshows d (by simp [hd])
      rwa [← hsplit, Text.ink_append, Text.ink_append, Text.ink_blank hsolid.1, List.append_nil, hl,
        List.length_append] at hcovers

end Spot

end SqlLayout
