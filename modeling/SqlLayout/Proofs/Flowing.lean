import SqlLayout.Proofs.Cutting
import SqlLayout.Proofs.Recased

/-! # Laying out spots

All stages together change the gaps of spots, and the spelling of keywords and of the word ON. What
the last two stages do at a spot depends on whether headings begin and end there and on whether
its line mentions JOIN, so laying out is a walk over the spots.
-/

namespace SqlLayout

namespace Spot

/-! ## The stages on spots -/

/-- Spots laid out on lines, given where headings begin and end. -/
def flow (m : LetterCase) (es : List Edges) (as : List Spot) : List Spot :=
  stack ((lines es as).map (line m))

/-- Spots with settled gaps and recased keywords. -/
def tidy (style : Style) (as : List Spot) : List Spot :=
  recase style.letterCase (settle style.commas as)

/-- Spots laid out in a style. -/
def layOut (style : Style) (as : List Spot) : List Spot :=
  flow style.letterCase (edges Keyword.headings none (tidy style as)) (tidy style as)

theorem Sound.tidy (style : Style) {as : List Spot} (h : Sound as) : Sound (tidy style as) :=
  (h.settle _).recase _

theorem write_ne_nil {as : List Spot} (hne : as ≠ []) (h : ∀ a ∈ as, a.Solid) : write as ≠ [] := by
  obtain ⟨a, as, rfl⟩ := List.exists_cons_of_ne_nil hne
  simp [text, text_ne_nil (h a (by simp))]

theorem assemble_write (m : LetterCase) {ls : List (List Spot)} (h : ∀ l ∈ ls, l ≠ [] ∧ Sound l) :
    Assembly.assemble m (ls.map fun l => write (led [] l)) = write (stack (ls.map (line m))) := by
  have hled : ∀ l ∈ ls, Sound (led [] l) := fun l hl => (h l hl).2.led rfl
  have hfilter : (ls.map fun l => write (led [] l)).filter (· ≠ [])
      = ls.map fun l => write (led [] l) := by
    rw [List.filter_eq_self]
    intro t ht
    obtain ⟨l, hl, rfl⟩ := List.mem_map.mp ht
    have hne : led [] l ≠ [] := by
      obtain ⟨a, as, rfl⟩ := List.exists_cons_of_ne_nil (h l hl).1
      simp
    simpa using write_ne_nil hne (hled l hl).solid
  have hline : ∀ l ∈ ls, Assembly.line m (write (led [] l)) = write (led [] (line m l)) := by
    intro l hl
    rw [line_write m (hled l hl), line_led]
  have hne : ∀ l ∈ ls.map (line m), l ≠ [] := by
    intro k hk
    obtain ⟨l, hl, rfl⟩ := List.mem_map.mp hk
    unfold line
    split
    · simpa using (h l hl).1
    · exact (h l hl).1
  rw [Assembly.assemble, hfilter, List.map_map, ← joinWith_write hne, List.map_map]
  exact congrArg _ (List.map_congr_left hline)

/-- Laying out a text is laying out its spots. -/
theorem layOut_write (style : Style) {as : List Spot} (h : Sound as) {tail : Text}
    (ht : tail.isAllBlank = true) :
    SqlLayout.layOut style (write as ++ tail) = write (layOut style as) := by
  obtain ⟨tail', ht', hspaced⟩ := normalize_write style.commas h ht
  simp only [SqlLayout.layOut, stages, hspaced, recase_write style.letterCase (h.settle _) ht']
  rw [show recase style.letterCase (settle style.commas as) = tidy style as from rfl,
    clauses_write (h.tidy style) ht']
  exact assemble_write _ fun l hl => sound_of_mem_lines (h.tidy style) hl

theorem layOut_written (style : Style) {as : List Spot} (h : Sound as) :
    SqlLayout.layOut style (write as) = write (layOut style as) := by
  have hwrite := layOut_write style h Text.isAllBlank_nil
  rwa [List.append_nil] at hwrite

theorem layOut_read (style : Style) (s : Text) :
    SqlLayout.layOut style s = write (layOut style (read s).1) := by
  obtain ⟨hs, ht⟩ := sound_read s
  rw [← layOut_write style hs ht, write_read]

/-! ## Laying out as a walk -/

/-- A spot on a line that mentions JOIN, or on one that does not. -/
def respellIf (m : LetterCase) (said : Bool) (a : Spot) : Spot :=
  if said then respellOn m a else a

/-- Whether JOIN is mentioned before the next heading. -/
def joins (es : List Edges) (as : List Spot) : Bool :=
  (cut es as).1.any mentions

/-- Spots laid out one by one, where `closed` says that a heading ended right before them, and
    `said` that their line mentions JOIN. -/
def flowFrom (m : LetterCase) : (closed said : Bool) → List Edges → List Spot → List Spot
  | closed, said, e :: es, a :: as =>
    let said := if e.opens then a.mentions || joins es as else said
    ⟨if e.opens then ['\n'] else if closed then [' '] else a.gap, (respellIf m said a).piece⟩
      :: flowFrom m e.closes said es as
  | _, _, _, _ => []

theorem flowFrom_cons (m : LetterCase) {closed said b : Bool} {e : Edges} {es : List Edges}
    {a : Spot} {as : List Spot} (h : (if e.opens then a.mentions || joins es as else said) = b) :
    flowFrom m closed said (e :: es) (a :: as)
      = ⟨if e.opens then ['\n'] else if closed then [' '] else a.gap, (respellIf m b a).piece⟩
        :: flowFrom m e.closes b es as := by
  subst h
  rfl

theorem line_eq (m : LetterCase) (as : List Spot) :
    line m as = as.map (respellIf m (as.any mentions)) := by
  unfold line
  split
  · rename_i h
    rw [h]
    rfl
  · rename_i h
    rw [Bool.eq_false_iff.mpr h]
    exact (List.map_id as).symm

theorem respellIf_gap (m : LetterCase) (said : Bool) (a : Spot) (g : Text) :
    respellIf m said ⟨g, a.piece⟩ = ⟨g, (respellIf m said a).piece⟩ := by
  obtain ⟨gap, piece⟩ := a
  cases said with
  | false => rfl
  | true =>
      cases piece with
      | mark c => rfl
      | word w =>
          simp only [respellIf, if_true, respellOn]
          split <;> rfl

theorem piece_respellIf (m : LetterCase) (said : Bool) (a : Spot) (g : Text) :
    (respellIf m said ⟨g, a.piece⟩).piece = (respellIf m said a).piece := by
  rw [respellIf_gap]

theorem any_led (g : Text) (as : List Spot) : (led g as).any mentions = as.any mentions := by
  cases as <;> rfl

theorem flowFrom_eq (m : LetterCase) (closed said : Bool) (es : List Edges) (as : List Spot) :
    flowFrom m closed said es as
      = (if closed then led [' '] (cut es as).1 else (cut es as).1).map (respellIf m said)
        ++ (cut es as).2.flatMap fun l => led ['\n'] (line m l) := by
  induction as generalizing closed said es with
  | nil => cases es <;> cases closed <;> simp [flowFrom, cut]
  | cons a as ih =>
      cases es with
      | nil => cases closed <;> simp [flowFrom, cut]
      | cons e es =>
          have hany : (if e.closes then led [' '] (cut es as).1 else (cut es as).1).any mentions
              = joins es as := by
            split
            · exact any_led _ _
            · rfl
          cases ho : e.opens with
          | true =>
              simp only [flowFrom, cut, ho, if_true, ih, line_eq, List.any_cons, hany,
                List.flatMap_cons, List.map_cons, led_cons]
              cases closed <;> rfl
          | false =>
              simp only [flowFrom, cut, ho, Bool.false_eq_true, if_false, ih]
              cases closed with
              | true => simp [respellIf_gap]
              | false =>
                  simp only [Bool.false_eq_true, if_false, List.map_cons, List.cons_append]
                  rw [← respellIf_gap]

theorem flow_eq (m : LetterCase) (es : List Edges) (as : List Spot) :
    flow m es as = led [] (flowFrom m false (joins es as) es as) := by
  rw [flow, stack, lines, flowFrom_eq, joins]
  split
  · rename_i h
    simp [List.isEmpty_iff.mp h, List.flatMap_map]
  · rename_i h
    obtain ⟨a, rest, hcut⟩ := List.exists_cons_of_ne_nil (by simpa using h)
    simp [hcut, List.flatMap_map, line_eq]

end Spot

end SqlLayout
