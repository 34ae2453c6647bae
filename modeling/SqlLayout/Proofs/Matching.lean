import SqlLayout.Proofs.Gaps
import SqlLayout.Token.Rules

/-! # What a match is made of

A match of a pattern takes a text that the pattern spells, apart from the conditions that it makes on
what is around. So what a pattern may begin with, and what characters it takes at all, can be read off
the pattern.
-/

namespace SqlLayout.Pattern

section

variable (before : Option Char) (rest : Text) (next : Next)

@[simp] theorem run_one_nil (accepts : Char → Bool) : (one accepts).run before [] next = none := rfl

@[simp] theorem run_one_cons (accepts : Char → Bool) (c : Char) :
    (one accepts).run before (c :: rest) next
      = if accepts c then (next (some c) rest).map (· + 1) else none := rfl

@[simp] theorem run_seq (p q : Pattern) : (seq p q).run before rest next
    = p.run before rest fun before rest => q.run before rest next := rfl

theorem run_either (p q : Pattern) : (either p q).run before rest next
    = (p.run before rest next).or (q.run before rest next) := by
  cases h : p.run before rest next <;> simp [run, h]

theorem run_most (p : Pattern) :
    (most p).run before rest next = repeatMost p.run rest before rest next := rfl

@[simp] theorem run_look (holds : Option Char → Text → Bool) : (look holds).run before rest next
    = if holds before rest then next before rest else none := rfl

theorem repeatMost_cons (step : Step) (c : Char) (bound : Text) :
    repeatMost step (c :: bound) before rest next
      = (step before rest fun before rest => repeatMost step bound before rest next).or
          (next before rest) := by
  simp only [repeatMost]
  split
  · rename_i h
    rw [h, Option.some_or]
  · rename_i h
    rw [h, Option.none_or]

theorem repeatLeast_cons (step : Step) (c : Char) (bound : Text) :
    repeatLeast step (c :: bound) before rest next
      = (next before rest).or
          (step before rest fun before rest => repeatLeast step bound before rest next) := by
  cases h : next before rest <;> simp [repeatLeast, h]

end

/-! ## What a match takes -/

/-- The texts that a pattern spells, without regard to what is before them and after them. -/
inductive Spells : Pattern → Text → Prop where
  | done : Spells done []
  | one {accepts : Char → Bool} {c : Char} (h : accepts c = true) : Spells (one accepts) [c]
  | seq {p q : Pattern} {u v : Text} (hp : Spells p u) (hq : Spells q v) : Spells (seq p q) (u ++ v)
  | first {p q : Pattern} {u : Text} (h : Spells p u) : Spells (either p q) u
  | second {p q : Pattern} {u : Text} (h : Spells q u) : Spells (either p q) u
  | mostNone {p : Pattern} : Spells (most p) []
  | mostMore {p : Pattern} {u v : Text} (hp : Spells p u) (hq : Spells (most p) v) :
      Spells (most p) (u ++ v)
  | leastNone {p : Pattern} : Spells (least p) []
  | leastMore {p : Pattern} {u v : Text} (hp : Spells p u) (hq : Spells (least p) v) :
      Spells (least p) (u ++ v)
  | look {holds : Option Char → Text → Bool} : Spells (look holds) []

/-- The character before what follows a text. -/
def lastOf (before : Option Char) (u : Text) : Option Char :=
  u.getLast?.or before

theorem lastOf_append (before : Option Char) (u v : Text) :
    lastOf before (u ++ v) = lastOf (lastOf before u) v := by
  simp [lastOf, List.getLast?_append, Option.or_assoc]

theorem lastOf_cons (before : Option Char) (c : Char) (u : Text) :
    lastOf before (c :: u) = lastOf (some c) u := by
  rw [← List.singleton_append, lastOf_append]
  rfl

/-- A text is split into what a pattern spells and what is matched next, and the number of characters
    is that of both. -/
def Parts (p : Pattern) (before : Option Char) (rest : Text) (next : Next) (n : Nat) : Prop :=
  ∃ u v m, rest = u ++ v ∧ Spells p u ∧ next (lastOf before u) v = some m ∧ n = u.length + m

theorem parts_nothing {p : Pattern} (hp : Spells p []) {before : Option Char} {rest : Text} {next : Next}
    {n : Nat} (h : next before rest = some n) : Parts p before rest next n :=
  ⟨[], rest, n, rfl, hp, by simpa [lastOf] using h, by simp⟩

/-- What is matched first and what is matched after it. -/
theorem Parts.append {p q r : Pattern} {before : Option Char} {rest : Text} {next : Next} {n : Nat}
    {next' : Next} (h : Parts p before rest next' n)
    (hq : ∀ before rest n, next' before rest = some n → Parts q before rest next n)
    (hr : ∀ u v, Spells p u → Spells q v → Spells r (u ++ v)) : Parts r before rest next n := by
  obtain ⟨u, v, m, rfl, hu, hm, rfl⟩ := h
  obtain ⟨u', v', m', rfl, hu', hm', rfl⟩ := hq _ _ _ hm
  refine ⟨u ++ u', v', m', by simp, hr u u' hu hu', ?_, by simp; omega⟩
  rwa [lastOf_append]

/-- A match takes what the pattern spells. -/
theorem run_parts (p : Pattern) {before : Option Char} {rest : Text} {next : Next} {n : Nat}
    (h : p.run before rest next = some n) : Parts p before rest next n := by
  induction p generalizing before rest next n with
  | done => exact parts_nothing .done h
  | one accepts =>
      cases rest with
      | nil => simp at h
      | cons c rest =>
          rw [run_one_cons] at h
          split at h
          · rename_i hc
            obtain ⟨m, hm, rfl⟩ := Option.map_eq_some_iff.mp h
            exact ⟨[c], rest, m, rfl, .one hc, by simpa [lastOf] using hm, by simp; omega⟩
          · simp at h
  | seq p q ihp ihq =>
      exact (ihp h).append (fun _ _ _ hq => ihq hq) fun _ _ hu hv => .seq hu hv
  | either p q ihp ihq =>
      rw [run_either, Option.or_eq_some_iff] at h
      rcases h with h | ⟨-, h⟩
      · obtain ⟨u, v, m, hrest, hu, hm⟩ := ihp h
        exact ⟨u, v, m, hrest, .first hu, hm⟩
      · obtain ⟨u, v, m, hrest, hu, hm⟩ := ihq h
        exact ⟨u, v, m, hrest, .second hu, hm⟩
  | most p ih =>
      -- items are taken until the bound is used up, so the induction is on the bound
      have hmost : ∀ bound before rest n, repeatMost p.run bound before rest next = some n →
          Parts (most p) before rest next n := by
        intro bound
        induction bound with
        | nil => exact fun _ _ _ h => parts_nothing .mostNone h
        | cons c bound ihbound =>
            intro before rest n h
            rw [repeatMost_cons, Option.or_eq_some_iff] at h
            rcases h with h | ⟨-, h⟩
            · exact (ih h).append (fun _ _ _ hnext => ihbound _ _ _ hnext) fun _ _ hu hv =>
                .mostMore hu hv
            · exact parts_nothing .mostNone h
      exact hmost _ _ _ _ h
  | least p ih =>
      have hleast : ∀ bound before rest n, repeatLeast p.run bound before rest next = some n →
          Parts (least p) before rest next n := by
        intro bound
        induction bound with
        | nil => exact fun _ _ _ h => parts_nothing .leastNone h
        | cons c bound ihbound =>
            intro before rest n h
            rw [repeatLeast_cons, Option.or_eq_some_iff] at h
            rcases h with h | ⟨-, h⟩
            · exact parts_nothing .leastNone h
            · exact (ih h).append (fun _ _ _ hnext => ihbound _ _ _ hnext) fun _ _ hu hv =>
                .leastMore hu hv
      exact hleast _ _ _ _ h
  | look holds =>
      rw [run_look] at h
      split at h
      · exact parts_nothing .look h
      · simp at h

/-! ## What a match may begin with -/

/-- Whether a pattern may match without taking a character. -/
def spellsNothing : Pattern → Bool
  | done => true
  | one _ => false
  | seq p q => p.spellsNothing && q.spellsNothing
  | either p q => p.spellsNothing || q.spellsNothing
  | most _ => true
  | least _ => true
  | look _ => true

/-- Whether a pattern may match beginning with a character. -/
def mayBegin (c : Char) : Pattern → Bool
  | done => false
  | one accepts => accepts c
  | seq p q => p.mayBegin c || (p.spellsNothing && q.mayBegin c)
  | either p q => p.mayBegin c || q.mayBegin c
  | most p => p.mayBegin c
  | least p => p.mayBegin c
  | look _ => false

/-- Whether a pattern may take a character somewhere. -/
def mayTake (c : Char) : Pattern → Bool
  | done => false
  | one accepts => accepts c
  | seq p q => p.mayTake c || q.mayTake c
  | either p q => p.mayTake c || q.mayTake c
  | most p => p.mayTake c
  | least p => p.mayTake c
  | look _ => false

theorem spellsNothing_of_spells {p : Pattern} {u : Text} (h : Spells p u) (hu : u = []) :
    p.spellsNothing = true := by
  induction h with
  | one => simp at hu
  | seq _ _ ihp ihq =>
      obtain ⟨hp, hq⟩ := List.append_eq_nil_iff.mp hu
      simp [spellsNothing, ihp hp, ihq hq]
  | first _ ih => simp [spellsNothing, ih hu]
  | second _ ih => simp [spellsNothing, ih hu]
  | done | mostNone | mostMore | leastNone | leastMore | look => rfl

theorem mayBegin_of_spells {p : Pattern} {u : Text} (h : Spells p u) {c : Char}
    (hc : u.head? = some c) : p.mayBegin c = true := by
  induction h with
  | done | mostNone | leastNone | look => simp at hc
  | one h =>
      obtain rfl := Option.some.inj hc
      exact h
  | @seq p q u v hp _ ihp ihq =>
      cases u with
      | nil => simp [mayBegin, spellsNothing_of_spells hp rfl, ihq hc]
      | cons d u => simp [mayBegin, ihp hc]
  | first _ ih => simp [mayBegin, ih hc]
  | second _ ih => simp [mayBegin, ih hc]
  | @mostMore p u v _ _ ihp ihq | @leastMore p u v _ _ ihp ihq =>
      cases u with
      | nil => exact ihq hc
      | cons d u => exact ihp hc

theorem mayTake_of_spells {p : Pattern} {u : Text} (h : Spells p u) :
    ∀ c ∈ u, p.mayTake c = true := by
  induction h with
  | done | mostNone | leastNone | look => simp
  | one h => simpa [mayTake] using h
  | seq _ _ ihp ihq =>
      intro c hc
      rcases List.mem_append.mp hc with hc | hc
      · simp [mayTake, ihp c hc]
      · simp [mayTake, ihq c hc]
  | first _ ih => exact fun c hc => by simp [mayTake, ih c hc]
  | second _ ih => exact fun c hc => by simp [mayTake, ih c hc]
  | mostMore _ _ ihp ihq | leastMore _ _ ihp ihq =>
      intro c hc
      rcases List.mem_append.mp hc with hc | hc
      · exact ihp c hc
      · exact ihq c hc

/-- Nothing matches at a character that the pattern may not begin with. -/
theorem run_eq_none {p : Pattern} {c : Char} (hp : p.spellsNothing = false)
    (hc : p.mayBegin c = false) (before : Option Char) (rest : Text) (next : Next) :
    p.run before (c :: rest) next = none := by
  rw [Option.eq_none_iff_forall_ne_some]
  intro n hn
  obtain ⟨u, v, m, hrest, hu, -, -⟩ := run_parts p hn
  cases u with
  | nil => exact absurd (spellsNothing_of_spells hu rfl) (by simp [hp])
  | cons d u =>
      obtain ⟨rfl, -⟩ := List.cons.inj hrest
      exact absurd (mayBegin_of_spells hu rfl) (by simp [hc])

/-! ## Repetitions of one character -/

theorem run_most_one (accepts : Char → Bool) (before : Option Char) (c : Char) (rest : Text)
    (next : Next) : (most (one accepts)).run before (c :: rest) next
      = ((one accepts).run before (c :: rest) fun b r => (most (one accepts)).run b r next).or
          (next before (c :: rest)) := by
  rw [run_most, repeatMost_cons]
  rfl

/-- What is matched next begins with a character that is not blank. -/
def Keen (next : Next) : Prop :=
  ∀ before rest n, next before rest = some n →
    0 < n ∧ ∃ c rest', rest = c :: rest' ∧ isBlank c = false

theorem Keen.nil {next : Next} (h : Keen next) (before : Option Char) : next before [] = none := by
  rw [Option.eq_none_iff_forall_ne_some]
  intro n hn
  obtain ⟨-, c, rest, heq, -⟩ := h _ _ _ hn
  simp at heq

theorem Keen.blank {next : Next} (h : Keen next) {c : Char} (hc : isBlank c = true)
    (before : Option Char) (rest : Text) : next before (c :: rest) = none := by
  rw [Option.eq_none_iff_forall_ne_some]
  intro n hn
  obtain ⟨-, d, rest', heq, hd⟩ := h _ _ _ hn
  obtain ⟨rfl, -⟩ := List.cons.inj heq
  simp [hc] at hd

theorem run_most_space {next : Next} (h : Keen next) {g : Text} (hg : g.isAllBlank = true)
    {rest : Text} (hrest : ∀ c ∈ rest.head?, isBlank c = false) (before : Option Char) :
    (most TokenRule.space).run before (g ++ rest) next
      = (next (lastOf before g) rest).map (· + g.length) := by
  induction g generalizing before with
  | nil =>
      cases rest with
      | nil => simp [run_most, repeatMost, h.nil]
      | cons c rest =>
          rw [TokenRule.space, List.nil_append, run_most_one, run_one_cons,
            if_neg (by simp [hrest c rfl])]
          simp [lastOf]
  | cons b g ih =>
      rw [Text.isAllBlank_cons, Bool.and_eq_true] at hg
      rw [TokenRule.space] at ih ⊢
      rw [List.cons_append, run_most_one, run_one_cons, if_pos hg.1, ih hg.2, h.blank hg.1]
      rw [← lastOf_cons before]
      cases next (lastOf before (b :: g)) rest with
      | none => rfl
      | some n => simp [Nat.add_assoc]

theorem run_spaces {next : Next} (h : Keen next) {g : Text} (hg : g.isAllBlank = true) (hne : g ≠ [])
    {rest : Text} (hrest : ∀ c ∈ rest.head?, isBlank c = false) (before : Option Char) :
    TokenRule.spaces.run before (g ++ rest) next
      = (next (lastOf before g) rest).map (· + g.length) := by
  obtain ⟨b, g, rfl⟩ := List.exists_cons_of_ne_nil hne
  rw [Text.isAllBlank_cons, Bool.and_eq_true] at hg
  rw [TokenRule.spaces, oneOrMore, run_seq, List.cons_append, TokenRule.space, run_one_cons, if_pos hg.1]
  have hmost := run_most_space h hg.2 hrest (some b)
  rw [TokenRule.space] at hmost
  rw [hmost, ← lastOf_cons before]
  cases next (lastOf before (b :: g)) rest with
  | none => rfl
  | some n => simp [Nat.add_assoc]

theorem run_spaces_shown {c : Char} (hc : isBlank c = false) (before : Option Char) (rest : Text)
    (next : Next) : TokenRule.spaces.run before (c :: rest) next = none := by
  rw [TokenRule.spaces, oneOrMore, run_seq, TokenRule.space, run_one_cons, if_neg (by simp [hc])]

end SqlLayout.Pattern
