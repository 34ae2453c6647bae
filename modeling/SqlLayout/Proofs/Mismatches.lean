import Mathlib.Data.List.ReduceOption
import SqlLayout.Proofs.Characters
import SqlLayout.Token.Comparison

/-! # The mismatches of two lists of tokens

A tokenizer yields no empty tokens, so the empty text that stands for a missing token is never taken
for one that is there. The mismatches are then all of the difference between two lists: there is one at
each place at which the lists differ, in order, and written over the first list they give the second.
-/

namespace SqlLayout

/-- No token is empty. -/
def Tokenizer.WithoutEmpty {ε : Type} (t : Tokenizer ε) : Prop :=
  ∀ s ls, t s = .ok ls → ∀ l ∈ ls, l.text ≠ []

theorem Tokenizer.CutsBy.withoutEmpty {ε : Type} {t : Tokenizer ε} {l : Lexer} (h : t.CutsBy l) :
    t.WithoutEmpty := by
  intro s ls hls token htoken
  rw [h s ls hls] at htoken
  exact l.text_ne_nil_of_mem_cutFrom htoken

theorem Lexeme.compared_ne_nil {l : Lexeme} (h : l.text ≠ []) : l.compared ≠ [] := by
  obtain ⟨c, s, hcs⟩ := List.exists_cons_of_ne_nil h
  rw [compared]
  split
  · exact h
  · rw [hcs, upper, List.flatMap_cons]
    exact List.append_ne_nil_of_left_ne_nil (upperChar_ne_nil c) _

theorem Tokenizer.WithoutEmpty.nil_not_mem {ε : Type} {t : Tokenizer ε} (h : t.WithoutEmpty) {s : Text}
    {ts : List Text} (hts : t.significant? s = .ok ts) : [] ∉ ts := by
  obtain ⟨ls, hls, rfl⟩ := t.significant?_eq_ok.mp hts
  intro hmem
  obtain ⟨l, hl, hnil⟩ := List.mem_map.mp hmem
  exact Lexeme.compared_ne_nil (h s ls hls l (List.mem_of_mem_filter hl)) hnil

namespace Mismatch

/-- The mismatch of the same place when the two lists change sides. -/
def swap (m : Mismatch) : Mismatch :=
  ⟨m.index, m.after, m.before⟩

/-- What the second list has at the place: a token, or nothing. -/
def slot (m : Mismatch) : Option Text :=
  if m.after = [] then none else some m.after

/-- Puts a slot in the place of a mismatch, which may be the one behind the last. -/
def write (slots : List (Option Text)) (m : Mismatch) : List (Option Text) :=
  slots.take m.index ++ m.slot :: slots.drop (m.index + 1)

/-- Tokens overwritten with the second tokens of mismatches; a place where that is missing is dropped. -/
def overwrite (found : List Mismatch) (tokens : List Text) : List Text :=
  (found.foldl write (tokens.map some)).reduceOption

/-- Mismatches tell all of the difference between two lists of tokens. -/
structure Complete (found : List Mismatch) (as bs : List Text) : Prop where
  /-- The places are in order, each of them once. -/
  increasing : (found.map (·.index)).Pairwise (· < ·)
  /-- They are those at which the lists differ or one of them has ended. -/
  places : ∀ i, i ∈ found.map (·.index) ↔ i < max as.length bs.length ∧ as[i]? ≠ bs[i]?
  /-- A mismatch holds the tokens of its place, and the empty text for a missing one. -/
  tokens : ∀ m ∈ found, m.before = as.getD m.index [] ∧ m.after = bs.getD m.index []
  /-- Written over the first list they give the second. -/
  overwritten : overwrite found as = bs
  /-- There are none if the lists are the same, and only then. -/
  none_iff : found = [] ↔ as = bs

/-! ## One place at a time -/

theorem between_step (index : Nat) (as bs : List Text) :
    between index as bs
      = at? index (as.getD 0 []) (bs.getD 0 []) ++ between (index + 1) as.tail bs.tail := by
  cases as with
  | nil => cases bs <;> rfl
  | cons a as => cases bs <;> rfl

/-- Two lists are gone through side by side until both have ended. -/
theorem tails_induction {P : List Text → List Text → Prop} (nil : P [] [])
    (step : ∀ as bs, P as.tail bs.tail → P as bs) (as bs : List Text) : P as bs := by
  induction as generalizing bs with
  | nil =>
      induction bs with
      | nil => exact nil
      | cons b bs ih => exact step [] (b :: bs) ih
  | cons a as ih => exact step (a :: as) bs (ih bs.tail)

theorem mem_at?_iff {index : Nat} {a b : Text} {m : Mismatch} :
    m ∈ at? index a b ↔ m = ⟨index, a, b⟩ ∧ a ≠ b := by
  rw [at?]
  split <;> simp_all

theorem mem_between_iff {index : Nat} {as bs : List Text} {m : Mismatch} :
    m ∈ between index as bs ↔
      ∃ i, m = ⟨index + i, as.getD i [], bs.getD i []⟩ ∧ as.getD i [] ≠ bs.getD i [] := by
  induction as, bs using tails_induction generalizing index with
  | nil => simp [between, ofMissing]
  | step as bs ih =>
      have htail : ∀ (l : List Text) (i : Nat), l.tail.getD i [] = l.getD (i + 1) [] := by
        intro l i
        cases l <;> rfl
      rw [between_step, List.mem_append, mem_at?_iff, ih]
      simp only [htail, Nat.add_assoc, Nat.add_comm 1]
      exact Nat.or_exists_add_one (p := fun i =>
        m = ⟨index + i, as.getD i [], bs.getD i []⟩ ∧ as.getD i [] ≠ bs.getD i [])

theorem pairwise_between (index : Nat) (as bs : List Text) :
    (between index as bs).Pairwise fun m m' => m.index < m'.index := by
  induction as, bs using tails_induction generalizing index with
  | nil => exact .nil
  | step as bs ih =>
      rw [between_step, List.pairwise_append]
      refine ⟨?_, ih (index + 1), fun m hm m' hm' => ?_⟩
      · rw [at?]
        split <;> simp
      · obtain ⟨rfl, -⟩ := mem_at?_iff.mp hm
        obtain ⟨i, rfl, -⟩ := mem_between_iff.mp hm'
        show index < index + 1 + i
        omega

theorem between_swap (index : Nat) (as bs : List Text) :
    between index bs as = (between index as bs).map swap := by
  induction as, bs using tails_induction generalizing index with
  | nil => rfl
  | step as bs ih =>
      have hat : ∀ a b, at? index b a = (at? index a b).map swap := by
        intro a b
        by_cases h : a = b
        · simp [at?, h]
        · simp [at?, h, Ne.symm h, swap]
      rw [between_step, between_step index as bs, List.map_append, ih, hat]

theorem between_self (index : Nat) (ts : List Text) : between index ts ts = [] := by
  induction ts generalizing index with
  | nil => rfl
  | cons t ts ih => rw [between, at?, if_pos rfl, ih, List.append_nil]

/-! ## Lists without empty tokens -/

theorem write_append {m : Mismatch} {done : List (Option Text)} (h : done.length = m.index)
    (slots : List (Option Text)) : write (done ++ slots) m = done ++ m.slot :: slots.tail := by
  rw [write, List.take_left' h, ← List.drop_drop, List.drop_left' h, List.drop_one]

theorem foldl_write_at? (done slots : List (Option Text)) (a b : Text) :
    (at? done.length a b).foldl write (done ++ slots)
      = done ++ if a = b then slots else slot ⟨done.length, a, b⟩ :: slots.tail := by
  rw [at?]
  split
  · rfl
  · exact write_append rfl slots

section

variable {as bs : List Text} (ha : [] ∉ as) (hb : [] ∉ bs)

include ha hb

/-- What is written behind the places that are done is the second list, and nothing where the first one
    is longer. -/
theorem foldl_write (done : List (Option Text)) :
    (between done.length as bs).foldl write (done ++ as.map some)
      = done ++ (bs.map some ++ List.replicate (as.length - bs.length) none) := by
  induction as, bs using tails_induction generalizing done with
  | nil => simp [between, ofMissing]
  | step as bs ih =>
      -- a place more is done; four cases tell which of the lists have a token there
      have hrest := fun x => ih (fun h => ha (List.mem_of_mem_tail h))
        (fun h => hb (List.mem_of_mem_tail h)) (done ++ [x])
      simp only [List.length_append, List.length_singleton, List.append_assoc,
        List.singleton_append] at hrest
      rw [between_step, List.foldl_append, foldl_write_at?]
      cases as with
      | nil =>
          cases bs with
          | nil => simp [between, ofMissing]
          | cons b bs =>
              have hne : [] ≠ b := fun h => hb (by simp [h])
              simpa [slot, hne, hne.symm] using hrest (some b)
      | cons a as =>
          have hne : [] ≠ a := fun h => ha (by simp [h])
          cases bs with
          | nil => simpa [slot, hne.symm, List.replicate_succ] using hrest none
          | cons b bs =>
              have hne' : [] ≠ b := fun h => hb (by simp [h])
              by_cases hab : a = b
              · simpa [hab] using hrest (some b)
              · simpa [slot, hab, hne'.symm] using hrest (some b)

theorem overwrite_between : overwrite (between 0 as bs) as = bs := by
  have h := foldl_write ha hb []
  rw [List.length_nil, List.nil_append, List.nil_append] at h
  rw [overwrite, h]
  simp [List.reduceOption]

/-- The empty text stands for a missing token only. -/
theorem getD_eq_iff (i : Nat) : as.getD i [] = bs.getD i [] ↔ as[i]? = bs[i]? := by
  have hx : as[i]? ≠ some [] := fun h => ha (List.mem_of_getElem? h)
  have hy : bs[i]? ≠ some [] := fun h => hb (List.mem_of_getElem? h)
  rw [List.getD_eq_getElem?_getD, List.getD_eq_getElem?_getD]
  generalize as[i]? = x at hx
  generalize bs[i]? = y at hy
  cases x <;> cases y <;> simp_all [eq_comm (a := ([] : Text))]

theorem mem_places_iff (i : Nat) :
    i ∈ (between 0 as bs).map (·.index) ↔ i < max as.length bs.length ∧ as[i]? ≠ bs[i]? := by
  have hlt : as[i]? ≠ bs[i]? → i < max as.length bs.length := by
    intro h
    by_contra hi
    exact h (by rw [List.getElem?_eq_none (by omega), List.getElem?_eq_none (by omega)])
  rw [and_iff_right_of_imp hlt, Ne, ← getD_eq_iff ha hb, List.mem_map]
  constructor
  · rintro ⟨m, hm, rfl⟩
    obtain ⟨j, rfl, hne⟩ := mem_between_iff.mp hm
    simpa using hne
  · intro hne
    exact ⟨_, mem_between_iff.mpr ⟨i, rfl, hne⟩, Nat.zero_add i⟩

theorem between_eq_nil_iff : between 0 as bs = [] ↔ as = bs := by
  constructor
  · intro h
    have hover := overwrite_between ha hb
    rw [h] at hover
    simpa [overwrite, List.reduceOption] using hover
  · rintro rfl
    exact between_self 0 as

theorem complete_between : Complete (between 0 as bs) as bs where
  increasing := List.pairwise_map.mpr (pairwise_between 0 as bs)
  places := mem_places_iff ha hb
  tokens := by
    intro m hm
    obtain ⟨i, rfl, -⟩ := mem_between_iff.mp hm
    simp
  overwritten := overwrite_between ha hb
  none_iff := between_eq_nil_iff ha hb

end

end Mismatch

/-- A comparison of two texts that have tokens, none of which is empty, tells all of the difference
    between the tokens, and the same with sides changed when the texts change places. -/
theorem compare_complete {ε : Type} {t : Tokenizer ε} (ht : t.WithoutEmpty) {first second : Text}
    {as bs : List Text} (has : t.significant? first = .ok as) (hbs : t.significant? second = .ok bs) :
    ∃ found, t.compare first second = .ok found ∧ t.compare second first = .ok (found.map .swap) ∧
      Mismatch.Complete found as bs := by
  refine ⟨Mismatch.between 0 as bs, ?_, ?_, ?_⟩
  · exact t.compare_eq_ok.mpr ⟨as, bs, has, hbs, rfl⟩
  · exact t.compare_eq_ok.mpr ⟨bs, as, hbs, has, Mismatch.between_swap 0 as bs⟩
  · exact Mismatch.complete_between (ht.nil_not_mem has) (ht.nil_not_mem hbs)

/-- One token is spelled in another way, and two are missing. -/
theorem compare_complete_shortened :
    let s : Text := "select 'a  b',c".toList
    let t : Text := "SELECT 'a b'".toList
    let as : List Text := ["SELECT".toList, "'a  b'".toList, [','], ['C']]
    let bs : List Text := ["SELECT".toList, "'a b'".toList]
    Token.tokenize.WithoutEmpty ∧
      Token.tokenize.significant? s = .ok as ∧ Token.tokenize.significant? t = .ok bs ∧
      Mismatch.between 0 as bs
        = [⟨1, "'a  b'".toList, "'a b'".toList⟩, ⟨2, [','], []⟩, ⟨3, ['C'], []⟩] ∧
      ∃ found, Token.tokenize.compare s t = .ok found ∧
        Token.tokenize.compare t s = .ok (found.map .swap) ∧ Mismatch.Complete found as bs := by
  intro s t as bs
  have hne := Token.tokenize_cutsBy.withoutEmpty
  have hs : Token.tokenize.significant? s = .ok as := by decide +kernel
  have ht : Token.tokenize.significant? t = .ok bs := by decide +kernel
  exact ⟨hne, hs, ht, by decide +kernel, compare_complete hne hs ht⟩

end SqlLayout
