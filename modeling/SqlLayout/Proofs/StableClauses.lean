import SqlLayout.Proofs.LineEdges
import SqlLayout.Proofs.Occurrences

/-! # Clauses found again

The lines into which spots are cut are not cut any further, and written under each other they are
cut in the same places: a line feed separates the words on either side of it, and the space that is
put after a heading joins no words, as no heading ends in a word that begins another.
-/

namespace SqlLayout

open Phrase

namespace Spot

/-! ## Nothing is lost -/

theorem ink_write_led (g : Text) {as : List Spot} (hg : g.isAllBlank = true) (h : Sound as) :
    (write (led g as)).ink = (write as).ink := by
  cases as with
  | nil => rfl
  | cons a as =>
      have ha := h.head
      have hled : Solid ⟨g, a.piece⟩ := ⟨hg, ha.2⟩
      rw [led_cons, write_cons, write_cons, Text.ink_append, Text.ink_append, ink_text hled, ink_text ha]

theorem ink_cut {es : List Edges} {as : List Spot} (hlen : es.length = as.length) (h : Sound as) :
    (write (cut es as).1).ink ++ Text.ink ((cut es as).2.flatMap write) = (write as).ink := by
  induction as generalizing es with
  | nil =>
      obtain rfl := List.eq_nil_of_length_eq_zero hlen
      rfl
  | cons a as ih =>
      cases es with
      | nil => simp at hlen
      | cons e es =>
          have ih := ih (show es.length = as.length by simpa using hlen) h.tail
          have hlead := (sound_cut es h.tail).1
          have hnext : (write (if e.closes then led [' '] (cut es as).1 else (cut es as).1)).ink
              = (write (cut es as).1).ink := by
            split
            · exact ink_write_led [' '] rfl hlead
            · rfl
          rw [cut, write_cons, Text.ink_append, ← ih]
          split
          · rw [List.flatMap_cons, write_cons, Text.ink_append, Text.ink_append, hnext, List.append_assoc]
            rfl
          · rw [write_cons, Text.ink_append, hnext, List.append_assoc]

theorem ink_lines {es : List Edges} {as : List Spot} (hlen : es.length = as.length) (h : Sound as) :
    Text.ink ((lines es as).flatMap fun l => write (led [] l)) = (write as).ink := by
  have hled : ∀ {ls : List (List Spot)}, (∀ l ∈ ls, Sound l) →
      Text.ink (ls.flatMap fun l => write (led [] l)) = Text.ink (ls.flatMap write) := by
    intro ls
    induction ls with
    | nil => exact fun _ => rfl
    | cons l ls ih =>
        intro hls
        rw [List.flatMap_cons, List.flatMap_cons, Text.ink_append, Text.ink_append,
          ink_write_led [] rfl (hls l (by simp)), ih fun k hk => hls k (by simp [hk])]
  rw [hled fun l hl => (sound_of_mem_lines h hl).2, ← ink_cut hlen h, lines]
  split
  · next hempty =>
      rw [List.isEmpty_iff.mp hempty]
      rfl
  · rw [List.flatMap_cons, Text.ink_append]

/-! ## Lines are not cut further -/

/-- After every closing spot comes a single space. -/
def Padded : List Edges → List Spot → Prop
  | e :: es, _ :: as => (e.closes = true → led [' '] as = as) ∧ Padded es as
  | _, _ => True

theorem Padded.led {es : List Edges} {as : List Spot} (h : Padded es as) (g : Text) :
    Padded es (led g as) := by
  cases as with
  | nil => exact h
  | cons a as =>
      cases es with
      | nil => trivial
      | cons e es => exact h

theorem led_led (g g' : Text) (as : List Spot) : led g (led g' as) = led g as := by
  cases as <;> rfl

theorem padded_cut {v : List Phrase} (hv : Closed v) (before : Option Text) (as : List Spot) :
    Padded (edges v before (cut (edges v before as) as).1) (cut (edges v before as) as).1 ∧
      ∀ l ∈ (cut (edges v before as) as).2, Padded (edges v none l) l := by
  induction as generalizing before with
  | nil => simp [edges, cut, Padded]
  | cons a as ih =>
      obtain ⟨hlead, hsections⟩ := ih a.word?
      rw [edges, cut]
      obtain ⟨e, he⟩ : ∃ e, Edges.ofWords v (reach before a) a.word? (ahead as) = e := ⟨_, rfl⟩
      obtain ⟨next, hnext⟩ : ∃ next, (if e.closes then Spot.led [' '] (cut (edges v a.word? as) as).1
          else (cut (edges v a.word? as) as).1) = next := ⟨_, rfl⟩
      obtain ⟨hkept, hopened⟩ := edges_kept hv he rfl hnext
      have hpadded : Padded (e :: edges v a.word? (cut (edges v a.word? as) as).1) (a :: next) := by
        refine ⟨fun hc => ?_, ?_⟩
        · rw [← hnext, if_pos hc, led_led]
        · rw [← hnext]
          split
          · exact hlead.led [' ']
          · exact hlead
      simp only [he, hnext]
      cases ho : e.opens with
      | true =>
          refine ⟨trivial, fun l hl => ?_⟩
          rcases List.mem_cons.mp hl with rfl | hl
          · exact (hopened ho).symm ▸ hpadded
          · exact hsections l hl
      | false => exact ⟨hkept.symm ▸ hpadded, hsections⟩

theorem padded_of_mem_lines {v : List Phrase} (hv : Closed v) {as l : List Spot}
    (hl : l ∈ lines (edges v none as) as) : Padded (edges v none l) l := by
  obtain ⟨hlead, hsections⟩ := padded_cut hv none as
  unfold lines at hl
  split at hl
  · exact hsections l hl
  · rcases List.mem_cons.mp hl with rfl | hl
    · exact hlead
    · exact hsections l hl

theorem cut_padded {es : List Edges} {as : List Spot} (hlen : es.length = as.length)
    (hp : Padded es as) (ho : ∀ e ∈ es, e.opens = false) : cut es as = (as, []) := by
  induction as generalizing es with
  | nil =>
      obtain rfl := List.eq_nil_of_length_eq_zero hlen
      rfl
  | cons a as ih =>
      cases es with
      | nil => simp at hlen
      | cons e es =>
          have ih := ih (show es.length = as.length by simpa using hlen) hp.2 fun e' he' => ho e' (by simp [he'])
          rw [cut, ih, ho e (by simp)]
          cases hc : e.closes with
          | true => simp [hp.1 hc]
          | false => rfl

theorem lines_padded {es : List Edges} {as : List Spot} (hlen : es.length = as.length)
    (hne : as ≠ []) (hp : Padded es as) (ho : ∀ e ∈ es.tail, e.opens = false) : lines es as = [as] := by
  cases as with
  | nil => exact absurd rfl hne
  | cons a as =>
      cases es with
      | nil => simp at hlen
      | cons e es =>
          have hrest := cut_padded (show es.length = as.length by simpa using hlen) hp.2 ho
          have hnext : (if e.closes then led [' '] as else as) = as := by
            split
            · next hc => exact hp.1 hc
            · rfl
          rw [lines, cut, hrest]
          cases e.opens with
          | true => simp [hnext]
          | false => simp [hnext]

/-- A line is cut into itself. -/
theorem lines_of_mem_lines {v : List Phrase} (hv : Closed v) {as l : List Spot} (h : Sound as)
    (hl : l ∈ lines (edges v none as) as) : lines (edges v none l) l = [l] :=
  lines_padded (length_edges v none l) (sound_of_mem_lines h hl).1 (padded_of_mem_lines hv hl)
    ((edges_of_mem_lines hv as).1 l hl)

/-! ## Lines under each other -/

/-- No word comes right before spots that a line feed begins. -/
def Broken (as : List Spot) : Prop :=
  ∀ a ∈ as.head?, a.gap = ['\n']

theorem broken_led (as : List Spot) : Broken (led ['\n'] as) := by
  cases as <;> simp [Broken]

theorem Broken.append {as bs : List Spot} (ha : Broken as) (hb : Broken bs) : Broken (as ++ bs) := by
  cases as with
  | nil => exact hb
  | cons a as => exact ha

theorem broken_flatMap (ls : List (List Spot)) : Broken (ls.flatMap (led ['\n'])) := by
  induction ls with
  | nil => simp [Broken]
  | cons l ls ih => exact (broken_led l).append ih

theorem edges_append_broken (v : List Phrase) (before : Option Text) (as : List Spot) {bs : List Spot}
    (hb : Broken bs) : edges v before (as ++ bs) = edges v before as ++ edges v none bs := by
  induction as generalizing before with
  | nil =>
      cases bs with
      | nil => rfl
      | cons b bs =>
          have hgap : b.gap ≠ [' '] := by simp [hb b rfl]
          simp [edges, reach, hgap]
  | cons a as ih =>
      have hahead : ahead (as ++ bs) = ahead as := by
        cases as with
        | cons b as => rfl
        | nil =>
            cases bs with
            | nil => rfl
            | cons b bs =>
                have hgap : b.gap ≠ [' '] := by simp [hb b rfl]
                simp [ahead, reach, hgap]
      rw [List.cons_append, edges, edges, hahead, ih, List.cons_append]

/-- Cutting goes on after a line as it does at the start. -/
theorem lines_append {es es' : List Edges} {as bs : List Spot} (hlen : es.length = as.length)
    (hb : (cut es' bs).1 = []) : lines (es ++ es') (as ++ bs) = lines es as ++ lines es' bs := by
  have hcut : cut (es ++ es') (as ++ bs) = ((cut es as).1, (cut es as).2 ++ (cut es' bs).2) := by
    induction as generalizing es with
    | nil =>
        obtain rfl := List.eq_nil_of_length_eq_zero hlen
        exact Prod.ext hb rfl
    | cons a as ih =>
        cases es with
        | nil => simp at hlen
        | cons e es =>
            have ih := ih (show es.length = as.length by simpa using hlen)
            rw [List.cons_append, List.cons_append, cut, ih, cut]
            split <;> rfl
  have hsections : lines es' bs = (cut es' bs).2 := by rw [lines, hb]; rfl
  rw [hsections, lines, hcut, lines]
  split <;> rfl

/-- The gap before a line is kept in it. -/
theorem lines_led {es : List Edges} {l : List Spot} (h : lines es l = [l]) (g : Text) :
    lines es (led g l) = [led g l] := by
  cases l with
  | nil => cases es <;> simp [lines, cut] at h
  | cons a l =>
      cases es with
      | nil => simp [lines, cut] at h
      | cons e es =>
          cases ho : e.opens with
          | true =>
              simp only [lines, cut, ho, if_true, List.isEmpty_nil, List.cons.injEq, true_and] at h
              simp [lines, cut, ho, h]
          | false =>
              simp only [lines, cut, ho, Bool.false_eq_true, if_false, List.isEmpty_cons,
                List.cons.injEq, true_and] at h
              simp [lines, cut, ho, h]

theorem cut_of_opens {es : List Edges} {as : List Spot} (h : es.head?.all Edges.opens = true) :
    (cut es as).1 = [] := by
  cases es with
  | nil => cases as <;> rfl
  | cons e es =>
      cases as with
      | nil => rfl
      | cons a as =>
          have ho : e.opens = true := h
          simp [cut, ho]

/-- Lines are found again where they begin with line feeds. -/
theorem lines_flatMap {v : List Phrase} {ls : List (List Spot)}
    (hls : ∀ l ∈ ls, lines (edges v none l) l = [l])
    (ho : ∀ l ∈ ls.tail, (edges v none l).head?.all Edges.opens = true) :
    lines (edges v none (ls.flatMap (led ['\n']))) (ls.flatMap (led ['\n'])) = ls.map (led ['\n']) := by
  have hled : ∀ l, edges v none (led ['\n'] l) = edges v none l :=
    edges_led (fun next => paired_none_left v next) ['\n']
  induction ls with
  | nil => rfl
  | cons l ls ih =>
      have ih := ih (fun k hk => hls k (by simp [hk])) fun k hk => ho k (List.mem_of_mem_tail hk)
      have hbroken := broken_flatMap ls
      rw [List.flatMap_cons, edges_append_broken v none _ hbroken, hled, lines_append, ih,
        lines_led (hls l (by simp))]
      · rfl
      · rw [length_edges]
        cases l <;> rfl
      · cases ls with
        | nil => rfl
        | cons k ks =>
            -- the next line begins with a heading
            have hk := ho k (by simp)
            rw [List.flatMap_cons, edges_append_broken v none _ (broken_flatMap ks), hled]
            cases k with
            | nil => simpa [lines, cut, edges] using hls [] (by simp)
            | cons a k => exact cut_of_opens hk

/-- The gap before the first line does not count for the texts of the lines. -/
theorem map_write_lines_led (es : List Edges) (as : List Spot) (g : Text) :
    (lines es (led g as)).map (fun l => write (led [] l)) = (lines es as).map fun l => write (led [] l) := by
  cases as with
  | nil => rfl
  | cons a as =>
      cases es with
      | nil => rfl
      | cons e es => cases ho : e.opens <;> simp [lines, cut, ho]

theorem sound_flatMap_led {ls : List (List Spot)} (h : ∀ l ∈ ls, Sound l) :
    Sound (ls.flatMap (led ['\n'])) := by
  induction ls with
  | nil => exact .nil
  | cons l ls ih =>
      refine ((h l (by simp)).led rfl).append (ih fun k hk => h k (by simp [hk])) ?_
      intro a _ b hb _ _
      rw [broken_flatMap ls b hb]
      simp

/-- Lines written under each other are the clauses of what is written. -/
theorem clauses_stack {ls : List (List Spot)} (hs : ∀ l ∈ ls, Sound l)
    (hls : ∀ l ∈ ls, lines (edges Keyword.headings none l) l = [l])
    (ho : ∀ l ∈ ls.tail, (edges Keyword.headings none l).head?.all Edges.opens = true) :
    clauses (write (stack ls)) = ls.map fun l => write (led [] l) := by
  have hsound : Sound (stack ls) := (sound_flatMap_led hs).led rfl
  have hclauses := clauses_write hsound (show Text.isAllBlank [] = true from rfl)
  have hedges : edges Keyword.headings none (stack ls)
      = edges Keyword.headings none (ls.flatMap (led ['\n'])) :=
    edges_led (fun next => paired_none_left _ next) [] _
  rw [List.append_nil] at hclauses
  rw [hclauses, hedges, stack, map_write_lines_led, lines_flatMap hls ho, List.map_map]
  refine List.map_congr_left fun l _ => ?_
  rw [Function.comp_apply, led_led]

/-- A line is written as one clause. -/
theorem clause_line {l : List Spot} (hne : l ≠ []) (h : Sound l)
    (hl : lines (edges Keyword.headings none l) l = [l]) :
    write (led [] l) ≠ [] ∧ (write (led [] l)).trim = write (led [] l) ∧
      clauses (write (led [] l)) = [write (led [] l)] := by
  have hsolid := (h.led (g := []) rfl).solid
  have htrim := trim_write hsolid (show Text.isAllBlank [] = true from rfl)
  have hclauses := clauses_stack (show ∀ k ∈ [l], Sound k by simpa using h) (by simpa using hl)
    (by simp)
  refine ⟨?_, ?_, ?_⟩
  · obtain ⟨a, as, rfl⟩ := List.exists_cons_of_ne_nil hne
    exact write_ne_nil (by simp) hsolid
  · rwa [List.append_nil, led_led] at htrim
  · simpa [stack, led_led] using hclauses

end Spot

/-! ## The clauses of a text -/

/-- The clauses of any text part it for good: none is empty or has blanks around it, in a row they
    show what the text shows, each is one clause, and under each other they are the same clauses. -/
theorem clauses_stable (s : Text) :
    (∀ c ∈ clauses s, c ≠ [] ∧ c.trim = c ∧ clauses c = [c]) ∧
      Text.ink (clauses s).flatten = s.ink ∧
      clauses (Text.joinWith ['\n'] (clauses s)) = clauses s := by
  obtain ⟨hs, ht⟩ := Spot.sound_read s
  have hwrite := Spot.write_read s
  obtain ⟨as, tail, has, htail⟩ : ∃ as tail, (Spot.read s).1 = as ∧ (Spot.read s).2 = tail :=
    ⟨_, _, rfl, rfl⟩
  rw [has] at hs
  rw [htail] at ht
  rw [has, htail] at hwrite
  obtain ⟨ls, hls⟩ : ∃ ls, Spot.lines (Spot.edges Keyword.headings none as) as = ls := ⟨_, rfl⟩
  have hclauses := Spot.clauses_write hs ht
  rw [hwrite, hls] at hclauses
  have hsound : ∀ l ∈ ls, l ≠ [] ∧ Spot.Sound l := fun l hl => Spot.sound_of_mem_lines hs (hls ▸ hl)
  have hone : ∀ l ∈ ls, Spot.lines (Spot.edges Keyword.headings none l) l = [l] := fun l hl =>
    Spot.lines_of_mem_lines Keyword.headings_closed hs (hls ▸ hl)
  have hopens := (Spot.edges_of_mem_lines Keyword.headings_closed as).2
  rw [hls] at hopens
  rw [hclauses]
  refine ⟨fun c hc => ?_, ?_, ?_⟩
  · obtain ⟨l, hl, rfl⟩ := List.mem_map.mp hc
    exact Spot.clause_line (hsound l hl).1 (hsound l hl).2 (hone l hl)
  · have hink := Spot.ink_lines (Spot.length_edges Keyword.headings none as) hs
    rw [hls] at hink
    rw [← List.flatMap_def, hink, ← hwrite, Text.ink_append, Text.ink_blank ht, List.append_nil]
  · rw [Spot.joinWith_write fun l hl => (hsound l hl).1]
    exact Spot.clauses_stack (fun l hl => (hsound l hl).2) hone hopens

end SqlLayout
