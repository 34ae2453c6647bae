import SqlLayout.Proofs.Reformatting
import SqlLayout.Proofs.Retelling

/-! # Strokes

A formatted text is written with one stroke for each character that shows: the character itself, or
the same letter in another case. Strokes come in the order of the characters, a letter changes inside
of keywords only, and words are neither joined nor taken apart.
-/

namespace SqlLayout

/-- A character of a text that shows, with the blanks before it, and what is written for it. -/
structure Stroke where
  before : Text
  char : Char
  /-- The blanks before what is written. -/
  gap : Text
  /-- What is written for the character. -/
  written : Text

namespace Stroke

/-- The text that is read. -/
def source (k : Stroke) : Text :=
  k.before ++ [k.char]

/-- The text that is written. -/
def target (k : Stroke) : Text :=
  k.gap ++ k.written

/-- What is written shows, and is the character or its capital or small letter. -/
structure Faithful (k : Stroke) : Prop where
  before : k.before.isAllBlank = true
  gap : k.gap.isAllBlank = true
  char : isBlank k.char = false
  shown : ∀ d ∈ k.written, isBlank d = false
  written : k.written = [k.char] ∨ k.written = upperChar k.char ∨ k.written = lowerChar k.char

/-- Word characters next to each other stay so, and others stay apart. -/
def KeepsGap (k l : Stroke) : Prop :=
  isWord k.char = true → isWord l.char = true → (l.gap ≠ [] ↔ l.before ≠ [])

/-- The strokes of a piece. -/
def ofText (before gap : Text) (f : Char → Text) : Text → List Stroke
  | [] => []
  | c :: s => ⟨before, c, gap, f c⟩ :: ofText [] [] f s

section

variable (before gap : Text) (f : Char → Text)

theorem source_ofText {s : Text} (hs : s ≠ []) :
    (ofText before gap f s).flatMap source = before ++ s := by
  induction s generalizing before gap with
  | nil => exact absurd rfl hs
  | cons c s ih =>
      rw [ofText, List.flatMap_cons]
      cases s with
      | nil => simp [ofText, source]
      | cons d s =>
          rw [ih _ _ (by simp)]
          simp [source]

theorem target_ofText {s : Text} (hs : s ≠ []) :
    (ofText before gap f s).flatMap target = gap ++ s.flatMap f := by
  induction s generalizing before gap with
  | nil => exact absurd rfl hs
  | cons c s ih =>
      rw [ofText, List.flatMap_cons]
      cases s with
      | nil => simp [ofText, target]
      | cons d s =>
          rw [ih _ _ (by simp)]
          simp [target]

theorem length_ofText (s : Text) : (ofText before gap f s).length = s.length := by
  induction s generalizing before gap with
  | nil => rfl
  | cons c s ih => simp only [ofText, List.length_cons, ih]

theorem mem_ofText {s : Text} {k : Stroke} (h : k ∈ ofText before gap f s) :
    (k.before = before ∨ k.before = []) ∧ (k.gap = gap ∨ k.gap = []) ∧ k.char ∈ s ∧
      k.written = f k.char := by
  induction s generalizing before gap with
  | nil => simp [ofText] at h
  | cons c s ih =>
      rcases List.mem_cons.mp h with rfl | h
      · simp
      · obtain ⟨hb, hg, hc, hw⟩ := ih [] [] h
        exact ⟨Or.inr (by simpa using hb), Or.inr (by simpa using hg), by simp [hc], hw⟩

theorem head?_ofText (s : Text) :
    (ofText before gap f s).head? = s.head?.map fun c => ⟨before, c, gap, f c⟩ := by
  cases s <;> rfl

theorem isChain_ofText (s : Text) : (ofText before gap f s).IsChain KeepsGap := by
  induction s generalizing before gap with
  | nil => exact .nil
  | cons c s ih =>
      refine List.isChain_cons.mpr ⟨fun k hk => ?_, ih [] []⟩
      rw [head?_ofText] at hk
      obtain ⟨d, -, rfl⟩ := Option.map_eq_some_iff.mp hk
      simp [KeepsGap]

end

/-- Texts without blanks are what strokes read and write. -/
theorem ink_source {ks : List Stroke} (h : ∀ k ∈ ks, k.Faithful) :
    Text.ink (ks.flatMap source) = ks.map char := by
  induction ks with
  | nil => rfl
  | cons k ks ih =>
      have hk := h k (by simp)
      rw [List.flatMap_cons, Text.ink_append, ih fun l hl => h l (by simp [hl]), source,
        Text.ink_append, Text.ink_blank hk.before, Text.ink_shown (by simpa using hk.char)]
      rfl

theorem ink_target {ks : List Stroke} (h : ∀ k ∈ ks, k.Faithful) :
    Text.ink (ks.flatMap target) = ks.flatMap written := by
  induction ks with
  | nil => rfl
  | cons k ks ih =>
      have hk := h k (by simp)
      rw [List.flatMap_cons, Text.ink_append, ih fun l hl => h l (by simp [hl]), target,
        Text.ink_append, Text.ink_blank hk.gap, Text.ink_shown hk.shown]
      rfl

/-- Strokes that write a text for another one, where a character may only change if its number has
    the property. -/
structure Writes (P : Nat → Prop) (k : Nat) (ks : List Stroke) (s t : Text) : Prop where
  source : ks.flatMap source = s
  target : ks.flatMap target = t
  faithful : ∀ x ∈ ks, x.Faithful
  kept : ∀ i x, ks[i]? = some x → x.written ≠ [x.char] → P (k + i)
  chain : ks.IsChain KeepsGap

/-- The strokes of a piece are faithful, if it is written as pieces are. -/
theorem faithful_ofText {a : Spot} (h : a.Solid) {gap : Text} {f : Char → Text}
    (blank : gap.isAllBlank = true)
    (shown : ∀ c ∈ a.piece.text, f c ≠ [] ∧ ∀ d ∈ f c, isBlank d = false)
    (kinds : (∀ c ∈ a.piece.text, f c = [c]) ∨ f = upperChar ∨ f = lowerChar) :
    ∀ x ∈ ofText a.gap gap f a.piece.text, x.Faithful := by
  intro x hx
  obtain ⟨hb, hg, hc, hw⟩ := mem_ofText _ _ _ hx
  refine ⟨?_, ?_, Spot.isBlank_of_mem_text h hc, hw ▸ (shown _ hc).2, ?_⟩
  · rcases hb with hb | hb <;> simp [hb, h.1]
  · rcases hg with hg | hg <;> simp [hg, blank]
  · rcases kinds with hf | rfl | rfl
    · exact Or.inl (hw.trans (hf _ hc))
    · exact Or.inr (Or.inl hw)
    · exact Or.inr (Or.inr hw)

/-- The strokes of a piece come before those of the pieces after it. -/
theorem Writes.cons {P : Nat → Prop} {k : Nat} {ks : List Stroke} {a : Spot} {s t gap : Text}
    {f : Char → Text} (h : Writes P (k + a.piece.text.length) ks s t) (hne : a.piece.text ≠ [])
    (hfaithful : ∀ x ∈ ofText a.gap gap f a.piece.text, x.Faithful)
    (hkept : (∀ c ∈ a.piece.text, f c = [c]) ∨ ∀ j < a.piece.text.length, P (k + j))
    (hchain : ∀ x ∈ (ofText a.gap gap f a.piece.text).getLast?, ∀ y ∈ ks.head?, KeepsGap x y) :
    Writes P k (ofText a.gap gap f a.piece.text ++ ks) (a.text ++ s)
      (gap ++ a.piece.text.flatMap f ++ t) where
  source := by
    rw [List.flatMap_append, source_ofText _ _ _ hne, h.source]
    rfl
  target := by rw [List.flatMap_append, target_ofText _ _ _ hne, h.target]
  faithful := by
    intro x hx
    rcases List.mem_append.mp hx with hx | hx
    · exact hfaithful x hx
    · exact h.faithful x hx
  kept := by
    intro i x hx hchanged
    rw [List.getElem?_append, length_ofText] at hx
    split at hx
    · rename_i hi
      obtain ⟨-, -, hc, hw⟩ := mem_ofText _ _ _ (List.mem_of_getElem? hx)
      rcases hkept with hf | hP
      · exact absurd (hw.trans (hf _ hc)) hchanged
      · exact hP i hi
    · rename_i hi
      have hP := h.kept _ x hx hchanged
      rwa [show k + a.piece.text.length + (i - a.piece.text.length) = k + i by omega] at hP
  chain := (isChain_ofText _ _ _ _).append h.chain hchain

end Stroke

open Stroke

/-- Spots whose pieces are written anew are written with strokes. -/
theorem Retold.strokes {P : Nat → Prop} {k : Nat} {joined : Bool} {as : List Spot} {t : Text}
    (h : Retold P k joined (as.map Spot.piece) t) (hs : Spot.Sound as) :
    ∃ ks, Writes P k ks (Spot.write as) t ∧
      ∀ x ∈ ks.head?, ∃ b ∈ as.head?, x.before = b.gap ∧
        (isWord x.char = true → b.word?.isSome = true ∧ (joined = true → x.gap ≠ [])) := by
  induction as generalizing k joined t with
  | nil =>
      cases h
      exact ⟨[], ⟨rfl, rfl, by simp, by simp, .nil⟩, by simp⟩
  | cons a as ih =>
      have hsolid := hs.head
      have hne := Spot.text_ne_nil hsolid
      obtain ⟨ps, hps⟩ : ∃ ps, as.map Spot.piece = ps := ⟨_, rfl⟩
      rw [List.map_cons, hps] at h
      cases h with
      | @cons _ _ _ _ g t f blank apart shown kept rest =>
          obtain ⟨ks, hks, hhead⟩ := ih (hps ▸ rest) hs.tail
          refine ⟨ofText a.gap g f a.piece.text ++ ks, ?_, ?_⟩
          · refine hks.cons hne (faithful_ofText hsolid blank shown (kept.imp_right And.right))
              (kept.imp_right And.left) fun x hx y hy hwx hwy => ?_
            -- between words the gap is there before and after, between others nothing is asked
            obtain ⟨b, hb, hbefore, hwb⟩ := hhead y hy
            obtain ⟨-, -, hc, -⟩ := mem_ofText _ _ _ (List.mem_of_getLast? hx)
            have hwa := Spot.isSome_of_isWord hsolid hc hwx
            obtain ⟨hwb, hgap⟩ := hwb hwy
            cases as with
            | nil => simp at hb
            | cons d as =>
                simp only [List.head?_cons, Option.mem_def, Option.some.injEq] at hb
                subst hb
                rw [hbefore]
                exact iff_of_true (hgap (Spot.isSome_word? a ▸ hwa)) (hs.next hwa hwb)
          · intro x hx
            obtain ⟨c, cs, hc⟩ := List.exists_cons_of_ne_nil hne
            rw [hc] at hx
            simp only [ofText, List.cons_append, List.head?_cons, Option.mem_def,
              Option.some.injEq] at hx
            subst hx
            refine ⟨a, rfl, rfl, fun hw => ?_⟩
            have hwa := Spot.isSome_of_isWord hsolid (by simp [hc]) hw
            exact ⟨hwa, fun hj => apart hj (Spot.isSome_word? a ▸ hwa)⟩

namespace Spot

theorem marked_congr {P : Nat → Prop} {k : Nat} {es : List Edges} {as bs : List Spot}
    (h : as.map piece = bs.map piece) (hm : Marked P k es as) : Marked P k es bs := by
  induction as generalizing k es bs with
  | nil =>
      obtain rfl := List.map_eq_nil_iff.mp h.symm
      exact hm
  | cons a as ih =>
      obtain ⟨b, bs, rfl, hab, h⟩ := List.map_eq_cons_iff.mp h.symm
      cases es with
      | nil => trivial
      | cons e es =>
          have hword : b.word? = a.word? := by rw [word?, word?, hab]
          refine ⟨?_, ?_⟩
          · rw [hword, hab]
            exact hm.1
          · rw [hab]
            exact ih h.symm hm.2

theorem write_led_nil {as : List Spot} (h : ∀ a ∈ as, a.Solid) :
    write (led [] as) = (write as).dropWhile isBlank := by
  cases as with
  | nil => rfl
  | cons a as =>
      have hsolid := h a (by simp)
      obtain ⟨c, cs, hc⟩ := List.exists_cons_of_ne_nil (text_ne_nil hsolid)
      have hshow := isBlank_of_mem_text hsolid (c := c) (by simp [hc])
      rw [write_cons, text, List.append_assoc, Text.dropWhile_isBlank_append hsolid.1, hc,
        List.cons_append, Text.dropWhile_isBlank_cons hshow]
      simp [text, hc]

/-- Laid out spots write the pieces anew. -/
theorem retold_layOut (style : Style) {as : List Spot} (h : Sound as) {tail : Text}
    (ht : tail.isAllBlank = true) :
    Retold (Covers Keyword.changed (Spacing.collapse (write as ++ tail))) 0 false (as.map piece)
      (write (layOut style as)) := by
  obtain ⟨tail', ht', hcollapse⟩ := collapse_write h ht
  have hsettled := h.settle style.commas
  have hm := marked_edges ht' [] (collapse as) h.collapse
  rw [List.nil_append, ← hcollapse] at hm
  -- what happens at a word is the same after settling
  have hedges : edges Keyword.all none (collapse as) = edges Keyword.all none (settle style.commas as) :=
    (edges_settle _ _ h (tight_collapse h) (shape_collapse as).symm).symm
  have hpiece : (collapse as).map piece = (settle style.commas as).map piece := by
    rw [collapse, settle, map_piece_regap, map_piece_regap]
  have hretold := retold_flow style.letterCase (marked_congr hpiece (hedges ▸ hm))
    (edges_fit Keyword.all_spelled none hsettled.solid) (edges_keyed _ none _) hsettled.solid
    (tight_settle _ h) none false
    (joins (edges Keyword.headings none (tidy style as)) (tidy style as))
  rw [layOut, flow_eq, write_led_nil (sound_flowFrom _ _ _ _ (h.tidy style)).solid]
  rw [settle, map_piece_regap] at hretold
  refine hretold.led fun p hp => ?_
  obtain ⟨a, ha, rfl⟩ := List.mem_map.mp hp
  exact text_ne_nil (h.solid a ha)

end Spot

/-- Formatting only changes blanks, and the case of letters in keywords and in the word ON. -/
theorem format_strokes (o : Options) (s : Text) :
    ∃ (ks : List Stroke) (tail : Text), tail.isAllBlank = true ∧
      s = ks.flatMap source ++ tail ∧ format o s = ks.flatMap target ∧
      s.ink = ks.map char ∧ (format o s).ink = ks.flatMap written ∧
      (∀ k ∈ ks, k.Faithful) ∧
      (∀ i k, ks[i]? = some k → k.written ≠ [k.char] →
        Covers Keyword.changed (Spacing.collapse s) i) ∧
      ks.IsChain KeepsGap := by
  obtain ⟨hs, ht⟩ := Spot.sound_read s
  have hwrite := Spot.write_read s
  have hretold := Spot.retold_layOut o.style hs ht
  obtain ⟨ks, hks, -⟩ := hretold.strokes hs
  have hsource : s = ks.flatMap source ++ (Spot.read s).2 := by rw [hks.source, hwrite]
  have htarget : format o s = ks.flatMap target := by
    rw [hks.target, ← Spot.layOut_write o.style hs ht, hwrite, format]
  refine ⟨ks, (Spot.read s).2, ht, hsource, htarget, ?_, ?_, hks.faithful, fun i k hk hne => ?_, hks.chain⟩
  · rw [hsource, Text.ink_append, Text.ink_blank ht, List.append_nil, ink_source hks.faithful]
  · rw [htarget, ink_target hks.faithful]
  · have hcovers := hks.kept i k hk hne
    rwa [Nat.zero_add, hwrite] at hcovers

end SqlLayout
