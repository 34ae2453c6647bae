import SqlLayout.Proofs.Spots
import SqlLayout.Proofs.TwinTokens

/-! # Tokens that begin with a letter

A word that begins with a letter or an underscore is a token of its own if no other word comes after
it, be it after blanks or not. For a rule that takes words ends where a word does.
-/

namespace SqlLayout

open Pattern TokenRule

namespace Pattern

/-! ## Patterns that end where a word does -/

/-- A match ends where a word ends or begins. -/
def Stops (p : Pattern) : Prop :=
  ∀ before rest next n, p.run before rest next = some n →
    ∃ u v m, rest = u ++ v ∧ Spells p u ∧ isWordEdge (lastOf before u) v = true ∧
      next (lastOf before u) v = some m ∧ n = u.length + m

theorem stops_wordEdge : Stops wordEdge := by
  intro before rest next n h
  rw [wordEdge, run_look] at h
  split at h
  · rename_i hedge
    exact ⟨[], rest, n, rfl, .look, by simpa [lastOf] using hedge, by simpa [lastOf] using h, by simp⟩
  · simp at h

theorem Stops.seq {q : Pattern} (hq : Stops q) (p : Pattern) : Stops (seq p q) := by
  intro before rest next n h
  obtain ⟨u, v, m, rfl, hu, hm, rfl⟩ := run_parts p h
  obtain ⟨u', v', m', rfl, hu', hedge, hm', rfl⟩ := hq _ _ _ _ hm
  rw [← lastOf_append] at hedge hm'
  exact ⟨u ++ u', v', m', by simp, .seq hu hu', hedge, hm', by simp; omega⟩

/-! ## Patterns of words and blanks -/

/-- Of ASCII characters a pattern takes word characters and blanks only. -/
def Tame (p : Pattern) : Prop :=
  ∀ c : Char, c.toNat < 128 → p.mayTake c = true → isWord c = true ∨ isBlank c = true

theorem tame_done : Tame done := by
  simp [Tame, mayTake]

theorem tame_edge : Tame wordEdge := by
  simp [Tame, wordEdge, mayTake]

theorem Tame.seq {p q : Pattern} (hp : Tame p) (hq : Tame q) : Tame (seq p q) := by
  intro c hascii hc
  rw [mayTake, Bool.or_eq_true] at hc
  exact hc.elim (hp c hascii) (hq c hascii)

theorem Tame.either {p q : Pattern} (hp : Tame p) (hq : Tame q) : Tame (either p q) := by
  intro c hascii hc
  rw [mayTake, Bool.or_eq_true] at hc
  exact hc.elim (hp c hascii) (hq c hascii)

theorem Tame.most {p : Pattern} (h : Tame p) : Tame (most p) :=
  fun c hascii hc => h c hascii hc

theorem tame_space : Tame space :=
  fun _ _ hc => .inr hc

theorem tame_spaces : Tame spaces :=
  tame_space.seq tame_space.most

theorem tame_digits : Tame digits := by
  have hdigit : Tame digit := fun c hascii hc =>
    ascii_induction (P := fun c => isDecimal c = true → isWord c = true ∨ isBlank c = true)
      (by decide) hascii hc
  exact hdigit.seq hdigit.most

theorem tame_inOrder {ps : List Pattern} (h : ∀ p ∈ ps, Tame p) : Tame (inOrder ps) := by
  induction ps with
  | nil => exact tame_done
  | cons p ps ih =>
      rw [List.forall_mem_cons] at h
      cases ps with
      | nil => exact h.1
      | cons q ps => exact h.1.seq (ih h.2)

theorem tame_literal {s : String} (h : ∀ c ∈ s.toList, isWord c = true) : Tame (literal s) := by
  refine tame_inOrder fun p hp => ?_
  obtain ⟨c, hc, rfl⟩ := List.mem_map.mp hp
  intro d _ hd
  rw [← isWord_foldLetter, beq_iff_eq.mp hd, isWord_foldLetter]
  exact .inl (h c hc)

theorem tame_oneOf {ws : List String} (h : ∀ s ∈ ws, ∀ c ∈ s.toList, isWord c = true) :
    Tame (oneOf ws) := by
  rw [oneOf]
  induction ws with
  | nil => simp [Tame, firstOf, mayTake]
  | cons s ws ih =>
      rw [List.forall_mem_cons] at h
      cases ws with
      | nil => exact tame_literal h.1
      | cons s' ws => exact (tame_literal h.1).either (ih h.2)

theorem tame_maybeWord {ws : List String} (h : ∀ s ∈ ws, ∀ c ∈ s.toList, isWord c = true) :
    Tame (maybeWord ws) :=
  ((tame_oneOf h).seq tame_spaces).either tame_done

theorem Tame.further {p : Pattern} (h : Tame p) : Tame (maybe (Pattern.seq spaces p)) :=
  (tame_spaces.seq h).either tame_done

theorem tame_phrase {first second : String} (hfirst : ∀ c ∈ first.toList, isWord c = true)
    (hsecond : ∀ c ∈ second.toList, isWord c = true) : Tame (phrase [first, second]) :=
  (tame_literal hfirst).seq (tame_spaces.seq (tame_literal hsecond))

theorem tame_nullsPlace : Tame nullsPlace :=
  (tame_literal (by decide)).seq (tame_spaces.seq (tame_oneOf (by decide)))

/-! ## As many characters as there are -/

/-- All characters of a class are taken, if whatever comes next is matched. -/
theorem length?_most (accepts : Char → Bool) {w r : Text} (hw : ∀ c ∈ w, accepts c = true)
    (hr : ∀ c ∈ r.head?, accepts c = false) (before : Option Char) :
    (most (one accepts)).length? before (w ++ r) = some w.length := by
  rw [length?]
  induction w generalizing before with
  | nil =>
      cases r with
      | nil => rfl
      | cons c r =>
          rw [List.nil_append, run_most_one, run_one_cons, if_neg (by simp [hr c rfl])]
          rfl
  | cons c w ih =>
      rw [List.forall_mem_cons] at hw
      rw [List.cons_append, run_most_one, run_one_cons, if_pos hw.1, ih hw.2]
      rfl

end Pattern

namespace Token

/-- A word that begins with a letter or an underscore, and after which no other word comes, nor a
    character that may go on with a word. -/
structure Lone (w r : Text) : Prop where
  word : ∀ c ∈ w, isWord c = true
  start : ∃ c ∈ w.head?, isNameStart c = true
  after : ∀ c ∈ (r.dropWhile isBlank).head?, isWord c = false
  next : ∀ c ∈ r.head?, (c == '$' || c == '#' || isWord c) = false
  quote : '\'' ∉ r
  ascii : ∀ c ∈ w ++ r, isBlank c = true ∨ c.toNat < 128

theorem Lone.ne_nil {w r : Text} (h : Lone w r) : w ≠ [] := by
  rintro rfl
  obtain ⟨c, hc, -⟩ := h.start
  simp at hc

theorem isWord_lastOf {w : Text} (hne : w ≠ []) (hw : ∀ c ∈ w, isWord c = true)
    (before : Option Char) : (lastOf before w).any isWord = true := by
  rw [lastOf, List.getLast?_eq_some_getLast hne, Option.some_or]
  exact hw _ (List.getLast_mem hne)

theorem not_isWord_lastOf {g : Text} (hg : g.isAllBlank = true) (hne : g ≠ []) (before : Option Char) :
    (lastOf before g).any isWord = false := by
  have hany := any_lastOf hg hne before
  cases hc : lastOf before g with
  | none => rfl
  | some c =>
      rw [hc] at hany
      exact isWord_of_isBlank hany

/-- What a match takes of a lone word and of what is after it, is the word, if the match ends where a
    word does. -/
theorem Lone.eq_of_edge {w r u v : Text} (h : Lone w r) (hsplit : w ++ r = u ++ v) (hne : u ≠ [])
    (htake : ∀ c ∈ u, isWord c = true ∨ isBlank c = true) {before : Option Char}
    (hedge : isWordEdge (lastOf before u) v = true) : u = w := by
  rw [isWordEdge, bne_iff_ne] at hedge
  rcases List.append_eq_append_iff.mp hsplit with ⟨a, rfl, rfl⟩ | ⟨a, rfl, rfl⟩
  · -- beyond the word there are only blanks to take, and no word comes after them
    by_contra ha
    have hne' : a ≠ [] := by simpa using ha
    have hblank : Text.isAllBlank a = true := by
      by_contra hshown
      obtain ⟨c, t, hdrop⟩ : ∃ c t, a.dropWhile isBlank = c :: t := by
        refine List.exists_cons_of_ne_nil fun hnil => hshown ?_
        exact List.all_eq_true.mpr (List.dropWhile_eq_nil_iff.mp hnil)
      have hc : isBlank c = false := by
        have hnot := List.head?_dropWhile_not isBlank a
        rw [hdrop] at hnot
        exact hnot
      have hmem : c ∈ a := List.dropWhile_subset isBlank (hdrop ▸ List.mem_cons_self)
      have hword := h.after c (by rw [List.dropWhile_append, hdrop]; rfl)
      rcases htake c (List.mem_append_right _ hmem) with hc' | hc' <;> simp_all
    have hafter := h.after
    rw [Text.dropWhile_isBlank_append hblank] at hafter
    rw [lastOf_append, not_isWord_lastOf hblank hne'] at hedge
    cases v with
    | nil => exact hedge rfl
    | cons c v =>
        refine hedge (Eq.symm ?_)
        cases hc : isBlank c with
        | true => exact isWord_of_isBlank hc
        | false =>
            rw [Text.dropWhile_isBlank_cons hc] at hafter
            exact hafter c rfl
  · -- within the word there is no edge
    cases a with
    | nil => simp
    | cons c a =>
        have hlast := isWord_lastOf hne (fun d hd => h.word d (List.mem_append_left _ hd)) before
        have hc : isWord c = true := h.word c (by simp)
        exact absurd (hlast.trans hc.symm) hedge

/-! ## Names -/

section

variable {w r : Text} {before : Option Char}

theorem isWord_of_isNameLetter {c : Char} (hc : c.toNat < 128) (h : isNameLetter c = true) :
    isWord c = true :=
  ascii_induction (P := fun c => isNameLetter c = true → isWord c = true) (by decide) hc h

theorem length?_name (h : Lone w r) {n : Nat} (hn : name.length? before (w ++ r) = some n) :
    n = w.length := by
  obtain ⟨c, w, rfl⟩ := List.exists_cons_of_ne_nil h.ne_nil
  have hmost := length?_most isWord (fun d hd => h.word d (List.mem_cons_of_mem c hd))
    (fun d hd => (Bool.or_eq_false_iff.mp (h.next d hd)).2) (some c)
  rw [length?] at hmost
  rw [length?, name, run_seq, List.cons_append, run_one_cons] at hn
  split at hn
  · rw [wordChar, hmost] at hn
    exact (Option.some.inj hn).symm
  · simp at hn

/-- A name on a condition is all of a word, if the condition does not hold within a word. -/
theorem length?_name_look (h : Lone w r) {holds : Option Char → Text → Bool}
    (hholds : ∀ b c s, isWord c = true → holds b (c :: s) = false) {n : Nat}
    (hn : (seq name (look holds)).length? before (w ++ r) = some n) : n = w.length := by
  obtain ⟨u, v, m, hsplit, hu, hm, rfl⟩ := @run_parts name before _ _ _ hn
  beta_reduce at hm
  rw [run_look] at hm
  split at hm
  · rename_i hlook
    obtain rfl := Option.some.inj hm
    have hne : u ≠ [] := by
      rintro rfl
      exact absurd (spellsNothing_of_spells hu rfl) (by decide)
    have htake : ∀ c ∈ u, isWord c = true := by
      intro c hc
      have hmem : c ∈ w ++ r := hsplit ▸ List.mem_append_left _ hc
      have hmay := mayTake_of_spells hu c hc
      simp only [name, wordChar, mayTake, Bool.or_eq_true] at hmay
      rcases hmay with hletter | hword
      · rcases h.ascii c hmem with hblank | hascii
        · have hnot : ∀ b ∈ blanks, isNameLetter b = false := by decide
          simp [hnot c (mem_blanks hblank)] at hletter
        · exact isWord_of_isNameLetter hascii hletter
      · exact hword
    have hedge : isWordEdge (lastOf before u) v = true := by
      rw [isWordEdge, isWord_lastOf hne htake]
      cases v with
      | nil => rfl
      | cons c v =>
          cases hc : isWord c with
          | true => simp [hholds _ c v hc] at hlook
          | false => simp [hc]
    rw [h.eq_of_edge hsplit hne (fun c hc => .inl (htake c hc)) hedge, Nat.add_zero]
  · simp at hm

/-! ## The rules -/

/-- A match of words that ends where a word does is all of a word. -/
theorem length?_of_stops (h : Lone w r) {p : Pattern} (hnothing : p.spellsNothing = false)
    (hstops : Stops p) (htame : Tame p) {n : Nat} (hn : p.length? before (w ++ r) = some n) :
    n = w.length := by
  obtain ⟨u, v, m, hsplit, hu, hedge, hm, rfl⟩ := hstops _ _ _ _ hn
  obtain rfl := Option.some.inj hm
  have hne : u ≠ [] := by
    rintro rfl
    exact absurd (spellsNothing_of_spells hu rfl) (by simp [hnothing])
  rw [h.eq_of_edge hsplit hne (fun c hc => ?_) hedge, Nat.add_zero]
  rcases h.ascii c (hsplit ▸ List.mem_append_left _ hc) with hblank | hascii
  · exact .inr hblank
  · exact htame c hascii (mayTake_of_spells hu c hc)

theorem spells_seq {p q : Pattern} {u : Text} (h : Spells (seq p q) u) :
    ∃ a b, u = a ++ b ∧ Spells p a ∧ Spells q b := by
  cases h with
  | seq hp hq => exact ⟨_, _, rfl, hp, hq⟩

/-- A time zone has a name between quotes. -/
theorem length?_timeZone (h : Lone w r) : timeZone.length? before (w ++ r) = none := by
  rw [Option.eq_none_iff_forall_ne_some]
  intro n hn
  obtain ⟨u, v, m, hsplit, hu, -⟩ := run_parts timeZone hn
  obtain ⟨a, u, rfl, -, hu⟩ := spells_seq hu
  obtain ⟨b, u, rfl, -, hu⟩ := spells_seq hu
  obtain ⟨c, u, rfl, -, hu⟩ := spells_seq hu
  obtain ⟨d, u, rfl, -, hu⟩ := spells_seq hu
  obtain ⟨e, u, rfl, hquote, -⟩ := spells_seq hu
  cases hquote with
  | @one _ d hd =>
      obtain rfl := beq_iff_eq.mp hd
      have hmem : '\'' ∈ w ++ r := hsplit ▸ by simp
      rcases List.mem_append.mp hmem with hw | hr
      · exact absurd (h.word _ hw) (by decide)
      · exact h.quote hr

/-- Rules whose patterns end where a word does. -/
def edgeRules : List TokenRule :=
  rulesFrom 13 1 ++ rulesFrom 25 16 ++ rulesFrom 42 2

theorem mem_all_of_mem_edgeRules {rule : TokenRule} (h : rule ∈ edgeRules) : rule ∈ TokenRule.all := by
  have hfrom : ∀ {skipped count : Nat}, rule ∈ rulesFrom skipped count → rule ∈ TokenRule.all :=
    fun h => List.mem_of_mem_drop (List.mem_of_mem_take h)
  simp only [edgeRules, List.mem_append] at h
  rcases h with (h | h) | h <;> exact hfrom h

theorem stops_edgeRules : ∀ rule ∈ edgeRules, Stops rule.pattern := by
  simp only [edgeRules, rulesFrom, TokenRule.all, List.drop_succ_cons, List.drop_zero,
    List.take_succ_cons, List.take_zero, List.cons_append, List.nil_append, List.forall_mem_cons,
    List.not_mem_nil, false_implies, implies_true, and_true]
  have hone := stops_wordEdge.seq
  have htwo := fun p q => (hone q).seq p
  have hthree := fun p q r => (htwo q r).seq p
  have hfour := fun p q r s => (hthree q r s).seq p
  exact ⟨hone _, htwo _ _, htwo _ _, hfour _ _ _ _, hone _, htwo _ _, hone _, hone _, hone _, htwo _ _,
    hone _, hone _, hone _, hone _, hone _, hthree _ _ _, hthree _ _ _, htwo _ _, hthree _ _ _⟩

theorem tame_edgeRules : ∀ rule ∈ edgeRules, Tame rule.pattern := by
  simp only [edgeRules, rulesFrom, TokenRule.all, List.drop_succ_cons, List.drop_zero,
    List.take_succ_cons, List.take_zero, List.cons_append, List.nil_append, List.forall_mem_cons,
    List.not_mem_nil, false_implies, implies_true, and_true]
  have hjoin : Tame (firstOf [seq (maybeWord ["LEFT", "RIGHT", "FULL"])
      (maybeWord ["INNER", "OUTER", "STRAIGHT"]), maybeWord ["CROSS", "NATURAL"], done]) :=
    ((tame_maybeWord (by decide)).seq (tame_maybeWord (by decide))).either
      ((tame_maybeWord (by decide)).either tame_done)
  have hphrase := fun {first second : String} (hfirst : ∀ c ∈ first.toList, isWord c = true)
    (hsecond : ∀ c ∈ second.toList, isWord c = true) => (tame_phrase hfirst hsecond).seq tame_edge
  have hnot : Tame (maybeWord ["NOT"]) := tame_maybeWord (by decide)
  exact ⟨(tame_oneOf (by decide)).seq tame_edge, hjoin.seq ((tame_literal (by decide)).seq tame_edge),
    (tame_literal (by decide)).seq ((tame_oneOf (by decide)).further.seq tame_edge),
    (tame_literal (by decide)).seq
      (tame_spaces.seq (hnot.seq ((tame_literal (by decide)).seq tame_edge))),
    hphrase (by decide) (by decide),
    (tame_oneOf (by decide)).seq (tame_nullsPlace.further.seq tame_edge),
    (tame_oneOf (by decide)).seq tame_edge, tame_nullsPlace.seq tame_edge,
    hphrase (by decide) (by decide),
    (tame_literal (by decide)).seq ((tame_phrase (by decide) (by decide)).further.seq tame_edge),
    hphrase (by decide) (by decide), hphrase (by decide) (by decide), hphrase (by decide) (by decide),
    hphrase (by decide) (by decide), hphrase (by decide) (by decide),
    (tame_literal (by decide)).seq (tame_space.seq (tame_digits.seq tame_edge)),
    (tame_phrase (by decide) (by decide)).seq (tame_spaces.seq ((tame_oneOf (by decide)).seq tame_edge)),
    hnot.seq ((tame_oneOf (by decide)).seq tame_edge),
    hnot.seq ((tame_literal (by decide)).seq ((tame_literal (by decide)).further.seq tame_edge))⟩

/-- A rule for names and keywords takes a lone word and no more, if it applies. -/
theorem length?_letterRules (h : Lone w r) {rule : TokenRule} (hrule : rule ∈ letterRules) {n : Nat}
    (hn : rule.pattern.length? before (w ++ r) = some n) : n = w.length := by
  have hsplit : letterRules = rulesFrom 13 1 ++ rulesFrom 15 3 ++ rulesFrom 25 16 ++ rulesFrom 41 1
      ++ rulesFrom 42 2 := rfl
  have hedge : rule ∈ edgeRules → n = w.length := by
    intro hrule
    exact length?_of_stops h (not_spellsNothing rule (mem_all_of_mem_edgeRules hrule))
      (stops_edgeRules rule hrule) (tame_edgeRules rule hrule) hn
  rw [hsplit] at hrule
  simp only [List.mem_append] at hrule
  rcases hrule with (((hrule | hrule) | hrule) | hrule) | hrule
  · exact hedge (by simp [edgeRules, hrule])
  · simp only [rulesFrom, TokenRule.all, List.drop_succ_cons, List.drop_zero, List.take_succ_cons,
      List.take_zero, List.mem_cons, List.not_mem_nil, or_false] at hrule
    -- a name before a point, one after a point, and one before a parenthesis
    rcases hrule with rfl | rfl | rfl
    · refine length?_name_look h (fun b c s hc => ?_) hn
      rw [Text.dropWhile_isBlank_cons (isBlank_of_isWord hc)]
      split
      · rename_i heq
        rw [(List.cons.inj heq).1] at hc
        exact absurd hc (by decide)
      · rfl
    · rw [length?, run_seq, run_look] at hn
      split at hn
      · exact length?_name h hn
      · simp at hn
    · refine length?_name_look h (fun b c s hc => ?_) hn
      rw [List.head?_cons, beq_eq_false_iff_ne]
      rintro heq
      rw [Option.some.inj heq] at hc
      exact absurd hc (by decide)
  · exact hedge (by simp [edgeRules, hrule])
  · obtain rfl := List.mem_singleton.mp hrule
    simp [length?_timeZone h] at hn
  · exact hedge (by simp [edgeRules, hrule])

theorem hidden_numberRules : ∀ rule ∈ rulesFrom 18 4, Hidden isNameStart rule.pattern := by
  decide

theorem hidden_isNameStart : ∀ rule ∈ markRules, Hidden isNameStart rule.pattern := by
  decide

/-- A word of any kind is all of a lone word. -/
theorem length?_looseWord (h : Lone w r) : looseWord.length? before (w ++ r) = some w.length := by
  obtain ⟨c, w, rfl⟩ := List.exists_cons_of_ne_nil h.ne_nil
  have hword := List.forall_mem_cons.mp h.word
  have hloose : ∀ d ∈ w, (d == '$' || d == '#' || isWord d) = true := fun d hd => by
    simp [hword.2 d hd]
  have hmost := length?_most (fun c => c == '$' || c == '#' || isWord c) hloose h.next (some c)
  rw [length?] at hmost ⊢
  rw [looseWord, run_seq, wordChar, List.cons_append, run_one_cons, if_pos hword.1, hmost]
  rfl

/-- A lone word is a token. -/
theorem ruleLength?_lone (h : Lone w r) : ruleLength? before (w ++ r) = some w.length := by
  have hhidden : ∀ p : Pattern, Hidden isNameStart p → p.length? before (w ++ r) = none := by
    rintro p ⟨hnothing, hbegin⟩
    obtain ⟨c, hc, hstart⟩ := h.start
    obtain ⟨w, rfl⟩ := List.head?_eq_some_iff.mp hc
    have hascii : c.toNat < 128 := by
      refine (h.ascii c (by simp)).resolve_left ?_
      simp [isBlank_of_isWord (h.word c (by simp))]
    exact run_eq_none hnothing (ascii_induction (P := fun c => isNameStart c = true → p.mayBegin c = false)
      hbegin hascii hstart) before (w ++ r) _
  have hall : ∀ rule ∈ TokenRule.all, ∀ n, rule.pattern.length? before (w ++ r) = some n →
      n = w.length := by
    intro rule hrule n hn
    rcases mem_rules hrule with hrule | hrule | hrule
    · simp [hhidden _ (hidden_isNameStart rule hrule)] at hn
    · rcases List.mem_append.mp hrule with hrule | hrule
      · simp [hhidden _ (hidden_numberRules rule hrule)] at hn
      · obtain rfl := List.mem_singleton.mp hrule
        exact Option.some.inj (hn.symm.trans (length?_looseWord h))
    · exact length?_letterRules h hrule hn
  rw [ruleLength?]
  cases hfind : TokenRule.all.findSome? fun rule => rule.pattern.length? before (w ++ r) with
  | none =>
      have hnone := List.findSome?_eq_none_iff.mp hfind ⟨.word, looseWord⟩ (by simp [TokenRule.all])
      simp [length?_looseWord h] at hnone
  | some n =>
      obtain ⟨rule, hrule, hn⟩ := List.exists_of_findSome?_eq_some hfind
      rw [hall rule hrule n hn]

end

end Token

end SqlLayout
