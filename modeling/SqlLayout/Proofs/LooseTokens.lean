import SqlLayout.Proofs.MarkTokens

/-! # Tokens of a text without blanks

Wherever a token begins in a text without blanks, all rules take the same characters of the text and
of its layout: at a letter the word, at a question mark the mark, and elsewhere what the rules for
numbers and marks take.
-/

namespace SqlLayout

open Pattern Twin TokenRule

namespace Token

/-! ## Question marks -/

theorem ruleLength?_question (before : Option Char) (s : Text) :
    ruleLength? before ('?' :: s) = some 1 := by
  have hsplit : TokenRule.all
      = rulesFrom 0 9 ++ ⟨.placeholder, exactly '?'⟩ :: TokenRule.all.drop 10 := rfl
  have hnone : (rulesFrom 0 9).findSome? (fun rule => rule.pattern.length? before ('?' :: s)) = none := by
    have hbegin : ∀ rule ∈ rulesFrom 0 9, rule.pattern.spellsNothing = false ∧
        rule.pattern.mayBegin '?' = false := by decide
    exact List.findSome?_eq_none_iff.mpr fun rule hrule =>
      run_eq_none (hbegin rule hrule).1 (hbegin rule hrule).2 before s _
  rw [ruleLength?, hsplit, List.findSome?_append, hnone, Option.none_or, List.findSome?_cons]
  rfl

/-! ## Words -/

/-- The characters of one text are those of the other one. -/
def swap (k : Twin) : Twin :=
  ⟨k.right, k.other, k.left, k.char, k.noted⟩

theorem rights_eq_lefts (ks : List Twin) : rights ks = lefts (ks.map swap) := by
  rw [rights, lefts, List.flatMap_map]
  rfl

/-- A character that shows, and begins no span, after blanks or none. -/
structure Shown (k : Twin) : Prop where
  left : k.left.isAllBlank = true
  ascii : k.char.toNat < 128
  shown : isBlank k.char = false
  plain : delimits k.char = false

theorem blank_or_eq_of_mem_head? {g : Text} (hg : g.isAllBlank = true) {c d : Char} {s : Text}
    (h : c ∈ (g ++ d :: s).head?) : isBlank c = true ∨ c = d := by
  cases g with
  | nil => exact .inr (Option.some.inj h).symm
  | cons b g =>
      obtain rfl := Option.some.inj h
      exact .inl (Text.isBlank_of_mem hg (by simp))

/-- A word without gaps in it, after which no other word comes. -/
theorem lone_lefts {js ls : List Twin} {rest : Text} (hrest : rest.isAllBlank = true)
    (hbare : ∀ j ∈ js, j.left = []) (hword : ∀ j ∈ js, isWord j.char = true)
    (hstart : ∃ j ∈ js.head?, isNameStart j.char = true)
    (hstop : ∀ l ∈ ls.head?, isWord l.char = false) (hshown : ∀ l ∈ js ++ ls, Shown l) :
    Lone (lefts js) (lefts ls ++ rest) := by
  have hmem : ∀ {c : Char}, c ∈ lefts js ++ (lefts ls ++ rest) → isBlank c = true ∨
      ∃ l ∈ js ++ ls, c = l.char := by
    intro c hc
    rw [← List.append_assoc, ← lefts_append, List.mem_append] at hc
    rcases hc with hc | hc
    · obtain ⟨l, hl, hc⟩ := List.mem_flatMap.mp hc
      rcases List.mem_append.mp hc with hc | hc
      · exact .inl (Text.isBlank_of_mem (hshown l hl).left hc)
      · exact .inr ⟨l, hl, List.mem_singleton.mp hc⟩
    · exact .inl (Text.isBlank_of_mem hrest hc)
  refine ⟨fun c hc => ?_, ?_, fun c hc => ?_, fun c hc => ?_, fun hquote => ?_, fun c hc => ?_⟩
  · obtain ⟨j, hj, hc⟩ := List.mem_flatMap.mp hc
    rw [hbare j hj, List.nil_append, List.mem_singleton] at hc
    exact hc ▸ hword j hj
  · obtain ⟨j, hj, hstart⟩ := hstart
    obtain ⟨js, rfl⟩ := List.head?_eq_some_iff.mp hj
    exact ⟨j.char, by simp [lefts_cons, hbare j (by simp)], hstart⟩
  · cases ls with
    | nil =>
        rw [lefts_nil, List.nil_append, List.dropWhile_eq_nil_iff.mpr fun d hd =>
          Text.isBlank_of_mem hrest hd] at hc
        simp at hc
    | cons l ls =>
        have hl := hshown l (by simp)
        rw [lefts_cons, List.append_assoc, List.cons_append, Text.dropWhile_isBlank_append hl.left,
          Text.dropWhile_isBlank_cons hl.shown] at hc
        obtain rfl := Option.some.inj hc
        exact hstop l rfl
  · have hblank : ∀ {d : Char}, isBlank d = true → (d == '$' || d == '#' || isWord d) = false := fun hd =>
      impartial_loose.blank _ (mem_blanks hd)
    cases ls with
    | nil => exact hblank (Text.isBlank_of_mem hrest (List.mem_of_mem_head? hc))
    | cons l ls =>
        have hl := hshown l (by simp)
        rw [lefts_cons, List.append_assoc, List.cons_append] at hc
        rcases blank_or_eq_of_mem_head? hl.left hc with hd | rfl
        · exact hblank hd
        · have hplain := hl.plain
          simp only [delimits, spans, Bool.or_eq_false_iff] at hplain
          simp [hstop l rfl, hplain]
  · rcases hmem (List.mem_append_right _ hquote) with hd | ⟨l, hl, heq⟩
    · exact absurd hd (by decide)
    · exact absurd (heq ▸ (hshown l hl).plain) (by decide)
  · rcases hmem hc with hd | ⟨l, hl, rfl⟩
    · exact .inl hd
    · exact .inr (hshown l hl).ascii

section

variable {rest : Text} {k : Twin} {ks : List Twin}

theorem Aligned.fit (h : Aligned Loose ks) (hk : k ∈ ks) : Fit k := by
  obtain ⟨js, ls, rfl⟩ := List.append_of_mem hk
  have hloose := h.chain k ls (List.suffix_append _ _)
  exact ⟨hloose.fit.ascii, hloose.fit.plain, hloose.fit.noted⟩

theorem impartial_delimits : Impartial delimits := by decide

theorem bare_of_mem_takeWhile (h : Aligned Loose (k :: ks)) (hk : k.Bare) :
    ∀ j ∈ (k :: ks).takeWhile (isWord ·.char), j.Bare := by
  induction ks generalizing k with
  | nil =>
      intro j hj
      obtain rfl := List.mem_singleton.mp (List.takeWhile_subset _ hj)
      exact hk
  | cons l ks ih =>
      intro j hj
      rw [List.takeWhile_cons] at hj
      split at hj
      · rename_i hword
        rcases List.mem_cons.mp hj with rfl | hj
        · exact hk
        · by_cases hword' : isWord l.char = true
          · obtain ⟨-, hnext⟩ := h.head.next l rfl
            exact ih h.tail ⟨hnext.left, (hnext.word hword hword').1⟩ j hj
          · rw [List.takeWhile_cons, if_neg hword'] at hj
            simp at hj
      · simp at hj

/-- A word that begins with a letter is a token of both texts. -/
theorem agree_word (hrest : rest.isAllBlank = true) (h : Aligned Loose (k :: ks)) (hk : k.Bare)
    (hstart : isNameStart k.char = true) (b c : Option Char) :
    Agree (k :: ks) (ruleLength? b (lefts (k :: ks) ++ rest)) (ruleLength? c (rights (k :: ks))) := by
  obtain ⟨js, hjs⟩ : ∃ js, (k :: ks).takeWhile (isWord ·.char) = js := ⟨_, rfl⟩
  obtain ⟨ls, hls⟩ : ∃ ls, (k :: ks).dropWhile (isWord ·.char) = ls := ⟨_, rfl⟩
  have hsplit : js ++ ls = k :: ks := by rw [← hjs, ← hls, List.takeWhile_append_dropWhile]
  have hbare : ∀ j ∈ js, j.Bare := hjs ▸ bare_of_mem_takeWhile h hk
  have hword : ∀ j ∈ js, isWord j.char = true := fun j hj => by
    rw [← hjs] at hj
    exact List.mem_takeWhile_imp (p := fun k : Twin => isWord k.char) hj
  have hfirst : k ∈ js.head? := by
    have hk : isWord k.char = true :=
      ascii_induction (P := fun c => isNameStart c = true → isWord c = true) (by decide)
        (h.even k (by simp)).ascii hstart
    rw [← hjs, List.takeWhile_cons, if_pos hk]
    rfl
  have hstop : ∀ l ∈ ls.head?, isWord l.char = false := by
    intro l hl
    have hnot := List.head?_dropWhile_not (isWord ·.char) (k :: ks)
    rw [hls, hl] at hnot
    exact hnot
  have heven : ∀ j ∈ js ++ ls, j.Even := hsplit ▸ h.even
  have hplain : ∀ j ∈ js ++ ls, delimits j.char = false := fun j hj => (Aligned.fit h (hsplit ▸ hj)).plain
  have hleft : Lone (lefts js) (lefts ls ++ rest) :=
    lone_lefts hrest (fun j hj => (hbare j hj).1) hword ⟨k, hfirst, hstart⟩ hstop fun l hl =>
      ⟨(heven l hl).left, (heven l hl).ascii, (heven l hl).shown, hplain l hl⟩
  have hright : Lone (rights js) (rights ls) := by
    have hlone : Lone (lefts (js.map swap)) (lefts (ls.map swap) ++ []) := lone_lefts rfl ?_ ?_ ?_ ?_ ?_
    · rwa [List.append_nil, ← rights_eq_lefts, ← rights_eq_lefts] at hlone
    · exact List.forall_mem_map.mpr fun j hj => (hbare j hj).2
    · refine List.forall_mem_map.mpr fun j hj => ?_
      exact (impartial_isWord.even (heven j (by simp [hj]))).trans (hword j hj)
    · refine ⟨swap k, by simp [List.head?_map, Option.mem_def.mp hfirst], ?_⟩
      exact (impartial_isNameStart.even (h.even k (by simp))).trans hstart
    · intro l hl
      rw [List.head?_map, Option.mem_def, Option.map_eq_some_iff] at hl
      obtain ⟨l, hl, rfl⟩ := hl
      exact (impartial_isWord.even (heven l (by simp [List.mem_of_mem_head? hl]))).trans (hstop l hl)
    · rw [← List.map_append]
      refine List.forall_mem_map.mpr fun l hl => ?_
      have hl' := heven l hl
      exact ⟨hl'.right, hl'.other, hl'.shown_other, (impartial_delimits.even hl').trans (hplain l hl)⟩
  rw [← hsplit, lefts_append, rights_append, List.append_assoc, ruleLength?_lone hleft,
    ruleLength?_lone hright]
  exact .inr ⟨js, List.prefix_append _ _, fun j hj => (hbare j hj).whole, rfl, rfl⟩

/-! ## All tokens -/

theorem firm_letterRules (rest : Text) : ∀ rule ∈ letterRules, Firm rest rule.pattern := by
  have hhidden : ∀ rule ∈ letterRules, Hidden starts rule.pattern := by set_option maxRecDepth 1024 in decide
  exact fun rule hrule => steady_hidden impartial_starts (hhidden rule hrule)

theorem firm_numberRules (hrest : rest.isAllBlank = true) :
    ∀ rule ∈ numberRules, Firm rest rule.pattern := by
  simp only [numberRules, rulesFrom, TokenRule.all, List.drop_succ_cons, List.drop_zero,
    List.take_succ_cons, List.take_zero, List.cons_append, List.nil_append, List.forall_mem_cons,
    List.not_mem_nil, false_implies, implies_true, and_true]
  exact ⟨firm_hexadecimal hrest, firm_withExponent hrest, firm_withPoint hrest, firm_whole hrest,
    firm_looseWord hrest⟩

/-- Before a colon both texts have a word, or none of them has. -/
theorem any_isWord_before {j : Option Twin} (h : Aligned Loose (j.toList ++ k :: ks))
    (hcolon : k.char = ':') : (lastOf (j.map Twin.other) k.right).any isWord
      = (lastOf (j.map char) k.left).any isWord := by
  have hk := h.even k (by simp)
  cases j with
  | none =>
      have hnone : ∀ {g : Text}, g.isAllBlank = true → (lastOf none g).any isWord = false := by
        intro g hg
        by_cases hne : g = []
        · rw [hne]
          rfl
        · exact not_isWord_lastOf hg hne none
      exact (hnone hk.right).trans (hnone hk.left).symm
  | some j =>
      have hj := h.even j (by simp)
      obtain ⟨hfit, hnext⟩ := (Aligned.head h).next k rfl
      rw [hnext.left]
      by_cases hright : k.right = []
      · rw [hright]
        exact impartial_isWord.even hj
      -- a gap before the colon has no word before it, for no reason for a gap is left there
      · have hgap := hnext.right.resolve_left hright
        have hword : isWord j.char = false := by
          rw [Bool.eq_false_iff]
          intro hword
          have hmark : isOperator k.char = false ∧ k.char ≠ ',' ∧ isNameLetter k.char = false := by
            rw [hcolon]
            decide
          cases hgap with
          | operator h => exact h ((isOperator_of_isWord hword).trans hmark.1.symm)
          | comma h => exact h.elim (fun h => absurd (h ▸ hword) (by decide)) hmark.2.1
          | closed h => exact absurd (h ▸ hword) (by decide)
          | ended _ h => exact h hcolon
          | begun h => simp [hfit.noted h] at hmark
        rw [not_isWord_lastOf hk.right hright]
        exact hword.symm

/-- The rules take the same characters of a text without blanks and of its layout. -/
theorem rulesConcur_loose (hrest : rest.isAllBlank = true) : RulesConcur Loose rest := by
  intro j k ks h
  have hk : Aligned Loose (k.bare :: ks) := (h.suffix (List.suffix_append _ (k :: ks))).bare
  have hfit := Aligned.fit hk (List.mem_cons_self)
  have heven := hk.even k.bare (by simp)
  -- a letter begins a word and a question mark is alone, whatever comes after; only for the other
  -- characters the rules are compared one by one
  by_cases hletter : isNameStart k.char = true
  · exact agree_word hrest hk ⟨rfl, rfl⟩ hletter _ _
  by_cases hquestion : k.char = '?'
  · have hother : k.other = '?' := by
      have himpartial : Impartial (· == '?') := by decide
      exact beq_iff_eq.mp ((himpartial.even heven).trans (beq_iff_eq.mpr hquestion))
    rw [lefts_bare, rights_bare, hquestion, hother, List.cons_append, ruleLength?_question,
      ruleLength?_question]
    exact .inr ⟨[k.bare], ⟨ks, rfl⟩, by simp [Twin.Whole, Twin.bare], rfl, rfl⟩
  have hstarts : starts k.char = true := by
    have hshown : isBlank k.char = false := heven.shown
    have hplain : delimits k.char = false := hfit.plain
    simp [starts, hletter, hquestion, hshown, hplain]
  have hstart : Start (lastOf (j.map char) k.left) (lastOf (j.map Twin.other) k.right) (k.bare :: ks) := by
    refine ⟨fun l hl hcolon => ?_, k.bare, ks, rfl, ⟨rfl, rfl⟩, hstarts⟩
    obtain rfl := Option.some.inj hl
    exact any_isWord_before h hcolon
  refine agree_ruleLength? fun rule hrule => ?_
  have hfirm : Firm rest rule.pattern := by
    rcases mem_rules hrule with hrule | hrule | hrule
    · exact firm_markRules hrest rule hrule
    · exact firm_numberRules hrest rule hrule
    · exact firm_letterRules rest rule hrule
  exact hfirm _ _ (fun _ _ ks _ _ => .inr ⟨[], List.nil_prefix, by simp, rfl, rfl⟩) _ _ _ hk hstart

end

/-- The lexer takes the same characters of a text without blanks and of its layout. -/
theorem lexer_concur_loose : lexer.Concur Loose := by
  refine concur_of_rules (fun _ hrest => rulesConcur_loose hrest) (fun j k ks h hslash hstar => ?_)
    fun j ks h => ?_
  · have hapart := (h.next k rfl).2.apart
    rw [hslash, hstar] at hapart
    exact absurd hapart (by decide)
  · have hplain := h.fit.plain
    simp only [delimits, Bool.or_eq_false_iff] at hplain
    exact hplain.1.1.1

end Token

end SqlLayout
