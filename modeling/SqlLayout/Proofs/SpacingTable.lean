import SqlLayout.Proofs.Occurrences

/-! # The spacing table

The first stage is known by its outcome: the characters that show stay in their order, single spaces
are the only blanks, and a table of neighbours says where one stands. No other text fits that.
-/

namespace SqlLayout

namespace Text

@[simp] theorem ink_cons (c : Char) (s : Text) :
    ink (c :: s) = if isBlank c then ink s else c :: ink s := by
  cases h : isBlank c <;> simp [ink, h]

theorem isAllBlank_of_ink {s : Text} (h : s.ink = []) : s.isAllBlank = true := by
  rw [isAllBlank, List.all_eq_true]
  intro c hc
  have := List.filter_eq_nil_iff.mp h c hc
  simpa using this

/-- A text is blank, or something shows in it first. -/
theorem blank_or_shown (s : Text) : s.isAllBlank = true ∨
    ∃ (g : Text) (y : Char) (v : Text), g.isAllBlank = true ∧ isBlank y = false ∧ s = g ++ y :: v := by
  induction s with
  | nil => exact .inl rfl
  | cons c s ih =>
      cases hc : isBlank c with
      | false => exact .inr ⟨[], c, s, rfl, hc, rfl⟩
      | true =>
          rcases ih with hs | ⟨g, y, v, hg, hy, rfl⟩
          · exact .inl (by simp [hc, hs])
          · exact .inr ⟨c :: g, y, v, by simp [hc, hg], hy, rfl⟩

/-- A text is cut in one way only after what showed so far. -/
theorem split_of_ink {u u' r r' : Text} {x x' : Char} (hx : isBlank x = false)
    (hx' : isBlank x' = false) (h : u ++ x :: r = u' ++ x' :: r') (hu : u.ink = u'.ink) :
    u = u' ∧ r = r' := by
  induction u generalizing u' with
  | nil =>
      cases u' with
      | nil =>
          injection h with _ hr
          exact ⟨rfl, hr⟩
      | cons c u' =>
          obtain ⟨rfl, -⟩ : x = c ∧ r = u' ++ x' :: r' := by simpa using h
          simp [hx, show ink [] = [] from rfl] at hu
  | cons c u ih =>
      cases u' with
      | nil =>
          obtain ⟨rfl, -⟩ : c = x' ∧ u ++ x :: r = r' := by simpa using h
          simp [hx', show ink [] = [] from rfl] at hu
      | cons c' u' =>
          obtain ⟨rfl, htail⟩ : c = c' ∧ u ++ x :: r = u' ++ x' :: r' := by simpa using h
          have htails : ink u = ink u' := by
            rw [ink_cons, ink_cons] at hu
            split at hu
            · exact hu
            · injection hu
          obtain ⟨rfl, hr⟩ := ih htail htails
          exact ⟨rfl, hr⟩

/-- No two spaces in a row. -/
def Single (s : Text) : Prop :=
  s.IsChain fun c d => ¬(c = ' ' ∧ d = ' ')

theorem Single.right {u v : Text} (h : Single (u ++ v)) : Single v :=
  List.IsChain.right_of_append h

theorem Single.left {u v : Text} (h : Single (u ++ v)) : Single u :=
  List.IsChain.left_of_append h

theorem Single.cons {c : Char} (hc : c ≠ ' ') {s : Text} (h : Single s) : Single (c :: s) := by
  cases s with
  | nil => exact List.isChain_singleton c
  | cons d s => exact List.isChain_cons_cons.mpr ⟨fun hcd => hc hcd.1, h⟩

/-- Where spaces are single, a blank text of spaces is empty or one of them. -/
theorem Single.eq_of_spaces {g : Text} (h : Single g) (hg : ∀ c ∈ g, c = ' ') :
    g = [] ∨ g = [' '] := by
  match g with
  | [] => exact .inl rfl
  | [c] => exact .inr (by rw [hg c (by simp)])
  | c :: d :: g =>
      have hcd := (List.isChain_cons_cons.mp h).1
      exact absurd ⟨hg c (by simp), hg d (by simp)⟩ hcd

end Text

namespace Gaps

/-- The text `t` is `s` spaced by the table. -/
structure SpacedAs (commas : CommaStyle) (s t : Text) : Prop where
  /-- The characters that show are those of `s`, in order. -/
  ink : t.ink = s.ink
  space : ∀ c ∈ t, isBlank c = true → c = ' '
  single : t.Single
  /-- Two characters that follow each other in `s`, blanks apart, have between them what the table
      says. -/
  between : ∀ (u : Text) (x : Char) (g : Text) (y : Char) (v : Text),
    s = u ++ x :: (g ++ y :: v) → isBlank x = false → g.isAllBlank = true → isBlank y = false →
    ∃ u' v' : Text, u'.ink = u.ink ∧
      t = u' ++ x :: ((if spaced commas (some x) (!g.isEmpty) (some y) then [' '] else []) ++ y :: v')
  /-- A space leads where the table puts one before the first character. -/
  leading : t.head? = some ' ' ↔ spaced commas none false s.ink.head? = true
  /-- A space trails where the table puts one after the last character. -/
  trailing : t.getLast? = some ' ' ↔ spaced commas s.ink.getLast? false none = true

theorem ne_space {c : Char} (hc : isBlank c = false) : c ≠ ' ' := by
  rintro rfl
  exact absurd hc (by decide)

theorem Rule.settled_or (commas : CommaStyle) (x : Option Char) (g : Text) (y : Option Char) :
    Rule.settled commas x g y = [] ∨ Rule.settled commas x g y = [' '] := by
  unfold settled
  split
  · exact .inr rfl
  · exact .inl rfl

/-- At the end of a text the blanks there do not count. -/
theorem spaced_end (commas : CommaStyle) (x : Option Char) (gap : Bool) :
    spaced commas x gap none = spaced commas x false none := by
  cases x <;> rfl

theorem spaced_start (commas : CommaStyle) (gap : Bool) (y : Option Char) :
    spaced commas none gap y = spaced commas none false y := by
  cases y <;> rfl

/-! ## The stage fits the table -/

theorem ink_respaceFrom {rule : Rule} (hr : rule.Blank) (x : Option Char) {g : Text}
    (hg : g.isAllBlank = true) (s : Text) : (respaceFrom rule x g s).ink = s.ink := by
  induction s generalizing x g with
  | nil => exact Text.ink_blank (hr x g none hg)
  | cons c s ih =>
      cases hc : isBlank c with
      | true =>
          simp only [respaceFrom, hc, if_true, Text.ink_cons]
          exact ih x (by simp [hg, hc])
      | false =>
          simp [respaceFrom, hc, Text.ink_blank (hr x g (some c) hg), ih (some c) (g := []) rfl]

/-- What follows a character that shows depends on that character only. -/
theorem respaceFrom_shown {rule : Rule} (hr : rule.Blank) (x : Option Char) {g : Text}
    (hg : g.isAllBlank = true) (u : Text) {c : Char} (hc : isBlank c = false) (v : Text) :
    ∃ u', u'.ink = u.ink ∧
      respaceFrom rule x g (u ++ c :: v) = u' ++ c :: respaceFrom rule (some c) [] v := by
  induction u generalizing x g with
  | nil =>
      refine ⟨rule x g (some c), Text.ink_blank (hr x g (some c) hg), ?_⟩
      simp [respaceFrom, hc]
  | cons d u ih =>
      cases hd : isBlank d with
      | true =>
          obtain ⟨u', hu', h⟩ := ih x (g := g ++ [d]) (by simp [hg, hd])
          exact ⟨u', by simp [hd, hu'], by simp [respaceFrom, hd, h]⟩
      | false =>
          obtain ⟨u', hu', h⟩ := ih (some d) (g := []) rfl
          refine ⟨rule x g (some d) ++ d :: u', ?_, ?_⟩
          · simp [hd, hu', Text.ink_blank (hr x g (some d) hg)]
          · simp [respaceFrom, hd, h]

theorem eq_space_of_mem_settled {commas : CommaStyle} {x : Option Char} {g : Text}
    {y : Option Char} {c : Char} (hc : c ∈ Rule.settled commas x g y) : c = ' ' := by
  rcases Rule.settled_or commas x g y with h | h
  · simp [h] at hc
  · simpa [h] using hc

theorem space_settled (commas : CommaStyle) (x : Option Char) (g s : Text) :
    ∀ c ∈ respaceFrom (.settled commas) x g s, isBlank c = true → c = ' ' := by
  induction s generalizing x g with
  | nil => exact fun c hc _ => eq_space_of_mem_settled hc
  | cons d s ih =>
      intro c hc hb
      unfold respaceFrom at hc
      split at hc
      · exact ih x _ c hc hb
      · next hd =>
          rcases List.mem_append.mp hc with hc | hc
          · exact eq_space_of_mem_settled hc
          · rcases List.mem_cons.mp hc with rfl | hc
            · exact absurd hb hd
            · exact ih (some d) [] c hc hb

theorem single_settled (commas : CommaStyle) (x : Option Char) (g s : Text) :
    (respaceFrom (.settled commas) x g s).Single := by
  induction s generalizing x g with
  | nil =>
      rcases Rule.settled_or commas x g none with h | h
      · simp [respaceFrom, h, Text.Single]
      · simp [respaceFrom, h, Text.Single]
  | cons c s ih =>
      unfold respaceFrom
      split
      · exact ih x _
      · next hc =>
          have hne : c ≠ ' ' := ne_space (by simpa using hc)
          have hrest := Text.Single.cons hne (ih (some c) [])
          rcases Rule.settled_or commas x g (some c) with h | h
          · simpa [h] using hrest
          · rw [h]
            exact List.isChain_cons_cons.mpr ⟨fun hcd => hne hcd.2, hrest⟩

theorem head_settled (commas : CommaStyle) (g s : Text) :
    (respaceFrom (.settled commas) none g s).head? = some ' '
      ↔ spaced commas none false s.ink.head? = true := by
  induction s generalizing g with
  | nil => simp [respaceFrom, Rule.settled, spaced, show Text.ink [] = [] from rfl]
  | cons c s ih =>
      cases hc : isBlank c with
      | true => simpa [respaceFrom, hc] using ih (g ++ [c])
      | false =>
          have hne := ne_space hc
          simp only [respaceFrom, hc, Rule.settled, spaced_start commas (!g.isEmpty), Text.ink_cons,
            Bool.false_eq_true, if_false, List.head?_cons]
          split <;> simp_all

theorem getLast_settled (commas : CommaStyle) (x : Option Char) (g s : Text) :
    (respaceFrom (.settled commas) x g s).getLast? = some ' '
      ↔ spaced commas (s.ink.getLast?.or x) false none = true := by
  induction s generalizing x g with
  | nil =>
      simp only [respaceFrom, Rule.settled, spaced_end commas x (!g.isEmpty),
        show Text.ink [] = [] from rfl, List.getLast?_nil, Option.none_or]
      split <;> simp_all
  | cons c s ih =>
      cases hc : isBlank c with
      | true => simpa [respaceFrom, hc] using ih x (g ++ [c])
      | false =>
          have hne := ne_space hc
          have hlast : (Text.ink s).getLast?.or (some c) = (c :: Text.ink s).getLast?.or x := by
            rw [List.getLast?_cons]
            cases (Text.ink s).getLast? <;> rfl
          simp only [respaceFrom, hc, Text.ink_cons, Bool.false_eq_true, if_false]
          rw [← hlast, ← ih (some c) []]
          rw [List.getLast?_append, List.getLast?_cons]
          cases (respaceFrom (.settled commas) (some c) [] s).getLast? with
          | none => simp [hne]
          | some d => simp

theorem spacedAs_normalize (commas : CommaStyle) (s : Text) :
    SpacedAs commas s (Spacing.normalize commas s) := by
  have hblank := Rule.settled_blank commas
  rw [normalize_eq, respace]
  refine ⟨ink_respaceFrom hblank none rfl s, space_settled commas none [] s,
    single_settled commas none [] s, ?_, head_settled commas [] s, ?_⟩
  · rintro u x g y v rfl hx hg hy
    obtain ⟨u', hu', h⟩ := respaceFrom_shown hblank none (g := []) rfl u hx (g ++ y :: v)
    refine ⟨u', respaceFrom (.settled commas) (some y) [] v, hu', ?_⟩
    rw [h, respaceFrom_append _ _ _ hg]
    simp [respaceFrom, hy, Rule.settled]
  · simpa using getLast_settled commas none [] s

/-! ## Nothing else does -/

namespace SpacedAs

variable {commas : CommaStyle} {s t : Text}

/-- A part of the text without anything that shows is empty or a space. -/
theorem blank_part (h : SpacedAs commas s t) {u r v : Text} (ht : t = u ++ r ++ v)
    (hr : r.isAllBlank = true) : r = [] ∨ r = [' '] := by
  have hsingle : r.Single := (ht ▸ h.single : (u ++ r ++ v).Single).left.right
  refine hsingle.eq_of_spaces fun c hc => ?_
  exact h.space c (by simp [ht, hc]) (Text.isBlank_of_mem hr hc)

/-- What the table says of the texts up to a character leaves one text after it. -/
theorem rest (h : SpacedAs commas s t) (u : Text) {x : Char} (v : Text) {u' r : Text}
    (hs : s = u ++ x :: v) (hx : isBlank x = false) (ht : t = u' ++ x :: r) (hu : u'.ink = u.ink) :
    r = respaceFrom (.settled commas) (some x) [] v := by
  -- the induction is on the text that is still to be spaced, one character that shows at a time
  induction hn : v.length using Nat.strong_induction_on generalizing u x v u' r with
  | h n ih =>
      rcases Text.blank_or_shown v with hv | ⟨g, y, w, hg, hy, rfl⟩
      · have hink : r.ink = [] := by
          have hall := h.ink
          rw [hs, ht] at hall
          simpa [hx, hu, Text.ink_blank hv] using hall
        have hlast := h.trailing
        have hsink : s.ink.getLast? = some x := by simp [hs, hx, Text.ink_blank hv]
        have hsettled : respaceFrom (.settled commas) (some x) [] v
            = if spaced commas (some x) false none then [' '] else [] := by
          have hfrom := respaceFrom_append (.settled commas) (some x) [] hv []
          rw [List.append_nil, List.nil_append] at hfrom
          rw [hfrom]
          simp [respaceFrom, Rule.settled, spaced_end]
        rw [hsink, ht] at hlast
        rw [hsettled]
        rcases h.blank_part (u := u' ++ [x]) (v := []) (by simp [ht]) (Text.isAllBlank_of_ink hink)
          with rfl | rfl
        · have hne : ¬spaced commas (some x) false none = true := by
            rw [← hlast]
            simpa using ne_space hx
          rw [if_neg hne]
        · rw [if_pos (hlast.mp (by simp))]
      · obtain ⟨u₂, v', hu₂, ht₂⟩ := h.between u x g y w hs hx hg hy
        obtain ⟨rfl, rfl⟩ := Text.split_of_ink hx hx (ht.symm.trans ht₂) (hu.trans hu₂.symm)
        have hgap : Text.ink (if spaced commas (some x) (!g.isEmpty) (some y) then [' '] else []) = [] :=
          Text.ink_blank (Rule.settled_blank commas (some x) g (some y) hg)
        have hv' : v' = respaceFrom (.settled commas) (some y) [] w := by
          have hsplit : t
              = (u' ++ x :: if spaced commas (some x) (!g.isEmpty) (some y) then [' '] else []) ++ y :: v' := by
            simp [ht]
          refine ih w.length (by simp [← hn]; omega) (u ++ x :: g) w (by simp [hs]) hy hsplit ?_ rfl
          simp [hx, hu, hgap, Text.ink_blank hg]
        rw [respaceFrom_append _ _ _ hg, hv']
        simp [respaceFrom, hy, Rule.settled]

theorem eq_normalize (h : SpacedAs commas s t) : t = Spacing.normalize commas s := by
  rw [normalize_eq, respace]
  rcases Text.blank_or_shown s with hs | ⟨g, y, v, hg, hy, rfl⟩
  · have hink : t.ink = [] := h.ink.trans (Text.ink_blank hs)
    have hlead := h.leading
    rw [Text.ink_blank hs] at hlead
    have hsettled : respaceFrom (.settled commas) none [] s = [] := by
      have hfrom := respaceFrom_append (.settled commas) none [] hs []
      rw [List.append_nil, List.nil_append] at hfrom
      rw [hfrom]
      simp [respaceFrom, Rule.settled, spaced]
    rw [hsettled]
    rcases h.blank_part (u := []) (v := []) (by simp) (Text.isAllBlank_of_ink hink) with rfl | rfl
    · rfl
    · exact absurd (hlead.mp rfl) (by simp [spaced])
  · have hink := h.ink
    rw [Text.ink_append, Text.ink_blank hg, List.nil_append, Text.ink_cons, hy] at hink
    rcases Text.blank_or_shown t with ht | ⟨b, z, r, hb, hz, rfl⟩
    · simp [Text.ink_blank ht] at hink
    · obtain ⟨rfl, -⟩ : z = y ∧ Text.ink r = Text.ink v := by
        simpa [hz, Text.ink_blank hb] using hink
      have hr := h.rest g v rfl hy rfl (by rw [Text.ink_blank hb, Text.ink_blank hg])
      have hlead := h.leading
      rw [Text.ink_append, Text.ink_blank hg, List.nil_append, Text.ink_cons, hy] at hlead
      have hsettled : respaceFrom (.settled commas) none [] (g ++ z :: v)
          = (if spaced commas none false (some z) then [' '] else []) ++ z :: r := by
        rw [respaceFrom_append _ _ _ hg, hr]
        simp [respaceFrom, hy, Rule.settled, spaced_start commas (!g.isEmpty)]
      rw [hsettled]
      rcases h.blank_part (u := []) (v := z :: r) (by simp) hb with rfl | rfl
      · have hne : ¬spaced commas none false (some z) = true := by
          intro hz'
          have := hlead.mpr (by simpa using hz')
          simp [ne_space hy] at this
        rw [if_neg hne]
      · rw [if_pos (by simpa using hlead.mp (by simp))]

end SpacedAs

/-- The first stage gives the one text that fits the table. -/
theorem spacedAs_iff_eq_normalize (setting : Setting) (s t : Text) :
    SpacedAs (.ofSetting setting) s t ↔ t = Spacing.normalize (.ofSetting setting) s :=
  ⟨SpacedAs.eq_normalize, fun h => h ▸ spacedAs_normalize _ s⟩

end Gaps

end SqlLayout
