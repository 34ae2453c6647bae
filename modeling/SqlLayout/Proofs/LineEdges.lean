import SqlLayout.Proofs.Boundaries
import SqlLayout.Proofs.Reformatting

/-! # Headings in lines

Where spots open a heading, their text has a boundary. Cutting puts every heading at the start of a
line, and a line has no others: it is cut off before the next heading, and the words that are next to
each other on it were so before.
-/

namespace SqlLayout

open Phrase

/-- The text before the first boundary. -/
def leadText (ps : List Part) : Text :=
  (ps.takeWhile fun p => !p.isPhrase).flatMap Part.text

namespace Spot

/-! ## Headings are boundaries -/

theorem countP_marks (g : Text) : (marks g).countP Part.isPhrase = 0 := by
  simp [marks, Part.isPhrase]

theorem isPhrase_ofWord (v : List Phrase) (w : Text) :
    (Part.ofWord v w).isPhrase = alone v (some w) := by
  rw [ofWord_eq]
  split <;> simp_all [Part.isPhrase]

/-- There are as many boundaries as headings are opened. -/
theorem countP_parts {v : List Phrase} (hv : Unlinked v) (tail : Text) {before : Option Text}
    {as : List Spot} (hs : Scan v before as) (h : Sound as) :
    (parts v tail as).countP Part.isPhrase = (edges v before as).countP Edges.opens := by
  induction hs with
  | nil => rw [parts_nil, countP_marks, edges, List.countP_nil]
  | @step before a as free loose rest ih =>
      have ih := ih h.tail
      rw [edges, Edges.ofWords_loose free loose, List.countP_cons, ← ih]
      obtain ⟨g, piece⟩ := a
      cases piece with
      | mark c => simp [parts_mark, countP_marks, Part.isPhrase]
      | word w =>
          rw [parts_word _ _ h loose, List.countP_append, countP_marks, List.countP_cons,
            isPhrase_ofWord, Nat.zero_add]
          rfl
  | @pair before g w w' as bound rest ih =>
      have ih := ih h.tail.tail
      rw [edges, edges, parts_pair _ _ _ _ bound, List.countP_append, countP_marks, List.countP_cons, ih]
      simp [ahead, reach, Edges.ofWords_first hv bound, Edges.ofWords_second bound, Part.isPhrase]

theorem takeWhile_marks (g : Text) (ps : List Part) :
    (marks g ++ ps).takeWhile (fun p => !p.isPhrase)
      = marks g ++ ps.takeWhile fun p => !p.isPhrase := by
  refine List.takeWhile_append_of_pos fun p hp => ?_
  obtain ⟨c, -, rfl⟩ := List.mem_map.mp hp
  rfl

theorem text_marks (g : Text) : (marks g).flatMap Part.text = g := by
  simp [marks, List.flatMap_map, Part.text, Piece.text]

/-- Something comes before the first boundary unless the first spot opens a heading. -/
theorem isAllBlank_leadText {v : List Phrase} (hv : Unlinked v) {tail : Text}
    (ht : tail.isAllBlank = true) {before : Option Text} {as : List Spot} (hs : Scan v before as)
    (h : Sound as) :
    (leadText (parts v tail as)).isAllBlank = (edges v before as).head?.all Edges.opens := by
  cases hs with
  | nil =>
      have hmarks := takeWhile_marks tail []
      rw [List.append_nil, List.takeWhile_nil, List.append_nil] at hmarks
      rw [leadText, parts_nil, hmarks, text_marks, ht]
      rfl
  | @step _ a as free loose rest =>
      have hsolid := h.head
      rw [edges, Edges.ofWords_loose free loose]
      obtain ⟨g, piece⟩ := a
      cases piece with
      | mark c =>
          rw [leadText, parts_mark, takeWhile_marks, List.flatMap_append, text_marks]
          simp [Part.isPhrase, Part.text, Piece.text, hsolid.2.2]
      | word w =>
          rw [leadText, parts_word _ _ h loose, takeWhile_marks, List.flatMap_append, text_marks,
            ofWord_eq, word?_word]
          cases alone v (some w) with
          | true => simp [Part.isPhrase, hsolid.1]
          | false =>
              obtain ⟨c, cs, rfl⟩ := List.exists_cons_of_ne_nil hsolid.2.1
              have hc := isBlank_of_mem_text hsolid (c := c) (by simp [Piece.text])
              simp [Part.isPhrase, Part.text, Piece.text, hc]
  | @pair _ g w w' as bound rest =>
      have hgap := h.head.1
      rw [edges, leadText, parts_pair _ _ _ _ bound, takeWhile_marks, List.flatMap_append, text_marks]
      simp [Part.isPhrase, ahead, reach, Edges.ofWords_first hv bound, hgap]

/-- Spots that open a heading begin with a boundary. -/
theorem parts_of_opens {v : List Phrase} (tail : Text) {a : Spot}
    {as : List Spot} (hs : Scan v none (a :: as)) (h : Sound (a :: as)) (hgap : a.gap = [])
    (ho : (edges v none (a :: as)).head?.all Edges.opens = true) :
    ∃ p ps, parts v tail (a :: as) = .phrase p :: ps := by
  cases hs with
  | step free loose rest =>
      rw [edges, Edges.ofWords_loose free loose] at ho
      obtain ⟨g, piece⟩ := a
      obtain rfl : g = [] := hgap
      cases piece with
      | mark c => simp at ho
      | word w =>
          have halone : alone v (some w) = true := by simpa using ho
          exact ⟨w, parts v tail as, by rw [parts_word _ _ h loose, ofWord_eq, if_pos halone]; rfl⟩
  | @pair _ g w w' as bound rest =>
      obtain rfl : g = [] := hgap
      exact ⟨_, _, parts_pair v tail [] as bound⟩

/-! ## Headings in what is cut -/

theorem tight_led {before : Option Text} {as : List Spot} (h : Tight before as) :
    Tight before (led [' '] as) := by
  cases as with
  | nil => trivial
  | cons a as => exact ⟨fun _ _ => rfl, h.2⟩

theorem shape_led (g : Text) (as : List Spot) : shape (led g as) = shape as := by
  cases as <;> rfl

theorem not_paired_of_opens {v : List Phrase} {before word after : Option Text}
    (h : (Edges.ofWords v before word after).opens = true) : paired v before word = false := by
  simp only [Edges.ofWords, Bool.and_eq_true, Bool.not_eq_true'] at h
  exact h.1

/-- Where no phrase goes on, the first gap does not count. -/
theorem edges_led {v : List Phrase} {before : Option Text}
    (h : ∀ next, paired v before next = false) (g : Text) (as : List Spot) :
    edges v before (led g as) = edges v before as := by
  have hreach : ∀ b : Spot, paired v (reach before b) b.word? = false := by
    intro b
    unfold reach
    split
    · exact h _
    · rfl
  cases as with
  | nil => rfl
  | cons a as =>
      have hled := hreach ⟨g, a.piece⟩
      simp only [led_cons, edges, Edges.ofWords_free hled, Edges.ofWords_free (hreach a)]
      rfl

section

variable {v : List Phrase} {before : Option Text} {a : Spot} {as : List Spot} {e : Edges}

/-- Cutting and padding leave the words that make a phrase next to each other. -/
theorem paired_ahead_cut (hv : Closed v)
    (he : Edges.ofWords v (reach before a) a.word? (ahead as) = e) :
    paired v a.word? (ahead (if e.closes then led [' '] (cut (edges v a.word? as) as).1
        else (cut (edges v a.word? as) as).1))
      = paired v a.word? (ahead as) := by
  cases hc : e.closes with
  | true =>
      have free := Edges.paired_of_closes hv (he ▸ hc)
      rw [free, free]
  | false =>
      cases as with
      | nil => rfl
      | cons b as =>
          rw [edges, cut]
          cases ho : (Edges.ofWords v (reach a.word? b) b.word? (ahead as)).opens with
          | true =>
              -- a heading follows, so the word is not the first one of a phrase
              have hnot := not_paired_of_opens ho
              rw [paired_reach] at hnot
              rw [show paired v a.word? (ahead (b :: as)) = false from hnot]
              simp [ahead]
          | false => rfl

/-- The same happens at a spot after cutting, also where it begins a line. -/
theorem edges_kept (hv : Closed v) (he : Edges.ofWords v (reach before a) a.word? (ahead as) = e)
    {lead next : List Spot} (hlead : (cut (edges v a.word? as) as).1 = lead)
    (hnext : (if e.closes then led [' '] lead else lead) = next) :
    edges v before (a :: next) = e :: edges v a.word? lead ∧
      (e.opens = true → edges v none (a :: next) = e :: edges v a.word? lead) := by
  have hahead := paired_ahead_cut hv he
  rw [hlead, hnext] at hahead
  have hwords : ∀ before', Edges.ofWords v before' a.word? (ahead next)
      = Edges.ofWords v before' a.word? (ahead as) := by
    intro before'
    simp only [Edges.ofWords, hahead]
  have hrest : edges v a.word? next = edges v a.word? lead := by
    rw [← hnext]
    split
    · next hc => exact edges_led (Edges.paired_of_closes hv (he ▸ hc)) [' '] lead
    · rfl
  refine ⟨by rw [edges, hwords, he, hrest], fun ho => ?_⟩
  have free := not_paired_of_opens (he ▸ ho)
  rw [edges, hwords, hrest, ← he, Edges.ofWords_free free]
  simp [reach]

end

theorem tight_cut (es : List Edges) {before : Option Text} {as : List Spot} (ht : Tight before as) :
    Tight before (cut es as).1 ∧ ∀ l ∈ (cut es as).2, Tight none l := by
  induction as generalizing before es with
  | nil => cases es <;> simp [cut, Tight]
  | cons a as ih =>
      cases es with
      | nil => simp [cut, Tight]
      | cons e es =>
          obtain ⟨hlead, hsections⟩ := ih es ht.2
          have hnext : Tight a.word? (if e.closes then led [' '] (cut es as).1 else (cut es as).1) := by
            split
            · exact tight_led hlead
            · exact hlead
          rw [cut]
          split
          · refine ⟨trivial, fun l hl => ?_⟩
            rcases List.mem_cons.mp hl with rfl | hl
            · exact ⟨by simp, hnext⟩
            · exact hsections l hl
          · exact ⟨⟨ht.1, hnext⟩, hsections⟩

theorem edges_cut {v : List Phrase} (hv : Closed v) (before : Option Text) (as : List Spot) :
    edges v before (cut (edges v before as) as).1
        = (edges v before as).takeWhile (fun e => !e.opens) ∧
      ∀ l ∈ (cut (edges v before as) as).2,
        ∃ e es, edges v none l = e :: es ∧ e.opens = true ∧ ∀ e' ∈ es, e'.opens = false := by
  induction as generalizing before with
  | nil => simp [edges, cut]
  | cons a as ih =>
      obtain ⟨hedges, hsections⟩ := ih a.word?
      rw [edges, cut]
      obtain ⟨e, he⟩ : ∃ e, Edges.ofWords v (reach before a) a.word? (ahead as) = e := ⟨_, rfl⟩
      obtain ⟨next, hnext⟩ : ∃ next, (if e.closes then led [' '] (cut (edges v a.word? as) as).1
          else (cut (edges v a.word? as) as).1) = next := ⟨_, rfl⟩
      obtain ⟨hkept, hopened⟩ := edges_kept hv he rfl hnext
      rw [hedges] at hkept hopened
      simp only [he, hnext]
      cases ho : e.opens with
      | true =>
          refine ⟨by simp [edges, ho], fun l hl => ?_⟩
          rcases List.mem_cons.mp hl with rfl | hl
          · refine ⟨_, _, hopened ho, ho, fun e' he' => ?_⟩
            simpa using List.mem_takeWhile_imp he'
          · exact hsections l hl
      | false => exact ⟨by simp [hkept, ho], hsections⟩

/-- There is a line for every heading, and one for what comes before them. -/
theorem length_lines (es : List Edges) {as : List Spot} (h : es.length = as.length) :
    (lines es as).length = es.countP Edges.opens + if es.head?.all Edges.opens then 0 else 1 := by
  have hsections : ∀ {es : List Edges} {as : List Spot}, es.length = as.length →
      (cut es as).2.length = es.countP Edges.opens := by
    intro es as
    induction as generalizing es with
    | nil =>
        intro h
        obtain rfl := List.eq_nil_of_length_eq_zero h
        rfl
    | cons a as ih =>
        intro h
        cases es with
        | nil => simp at h
        | cons e es =>
            have hlen := ih (show es.length = as.length by simpa using h)
            cases ho : e.opens <;> simp [cut, ho, hlen]
  have hlead : (cut es as).1.isEmpty = es.head?.all Edges.opens := by
    cases as with
    | nil =>
        obtain rfl := List.eq_nil_of_length_eq_zero h
        rfl
    | cons a as =>
        cases es with
        | nil => simp at h
        | cons e es => cases ho : e.opens <;> simp [cut, ho]
  rw [lines, hlead]
  split <;> simp [hsections h]

theorem tight_of_mem_lines {es : List Edges} {as l : List Spot} (ht : Tight none as)
    (hl : l ∈ lines es as) : Tight none l := by
  obtain ⟨hlead, hsections⟩ := tight_cut es ht
  unfold lines at hl
  split at hl
  · exact hsections l hl
  · rcases List.mem_cons.mp hl with rfl | hl
    · exact hlead
    · exact hsections l hl

/-- On every line no heading is opened but at its start, and one is opened there on every line but
    the first. -/
theorem edges_of_mem_lines {v : List Phrase} (hv : Closed v) (as : List Spot) :
    (∀ l ∈ lines (edges v none as) as, ∀ e ∈ (edges v none l).tail, e.opens = false) ∧
      ∀ l ∈ (lines (edges v none as) as).tail, (edges v none l).head?.all Edges.opens = true := by
  obtain ⟨hedges, hsections⟩ := edges_cut hv none as
  have hsection : ∀ l ∈ (cut (edges v none as) as).2, (∀ e ∈ (edges v none l).tail, e.opens = false) ∧
      (edges v none l).head?.all Edges.opens = true := by
    intro l hl
    obtain ⟨e, es, he, ho, hes⟩ := hsections l hl
    rw [he]
    exact ⟨hes, ho⟩
  unfold lines
  split
  · exact ⟨fun l hl => (hsection l hl).1, fun l hl => (hsection l (List.mem_of_mem_tail hl)).2⟩
  · refine ⟨fun l hl => ?_, fun l hl => (hsection l hl).2⟩
    rcases List.mem_cons.mp hl with rfl | hl
    · intro e he
      rw [hedges] at he
      simpa using List.mem_takeWhile_imp (List.mem_of_mem_tail he)
    · exact (hsection l hl).1

end Spot

end SqlLayout
