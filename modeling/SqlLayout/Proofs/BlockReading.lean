import SqlLayout.Config.Blocks
import SqlLayout.Proofs.Encoding

/-! # A document read in blocks

For the bytes of a text it makes no difference that a document is read in blocks: the text is read line
by line as if it had been read in one go. What a block leaves of a character, of a line end or of a line
comes first in the next one.
-/

namespace SqlLayout

/-! ## Bytes -/

namespace Utf8

/-- What is read behind other bytes: their text comes first. -/
def behind (s : Text) (r : Except Error Reading) : Except Error Reading :=
  r.map fun r => (s ++ r.1, r.2)

theorem ahead_ok {c : Char} {x : Except Error Reading} {r : Reading} (h : ahead c x = .ok r) :
    ∃ t, x = .ok (t, r.2) ∧ r.1 = c :: t := by
  cases x with
  | error e => simp [ahead, Except.map] at h
  | ok y =>
      obtain rfl := Except.ok.inj h
      exact ⟨y.1, rfl, rfl⟩

theorem behind_ahead (c : Char) (s : Text) (x : Except Error Reading) :
    behind (c :: s) x = ahead c (behind s x) := by
  cases x <;> rfl

theorem read_of_lead {b : UInt8} {o : Opened} (h : Lead.ofByte b = .opened o) : o.read = 1 := by
  unfold Lead.ofByte at h
  simp only at h
  repeat' split at h
  all_goals first
    | cases h
      rfl
    | simp at h

/-- A byte that can be read is the last one of a character, or belongs to one that is opened then. -/
theorem readFrom_cons {position : Nat} {opened : Option Opened} {b : UInt8} {rest : Bytes} {r : Reading}
    (h : readFrom position opened (b :: rest) = .ok r) :
    (∃ c, ∀ bytes, readFrom position opened (b :: bytes) = ahead c (readFrom (position + 1) none bytes)) ∨
      ∃ o, o.read = opened.elim 0 (·.read) + 1 ∧
        ∀ bytes, readFrom position opened (b :: bytes) = readFrom (position + 1) (some o) bytes := by
  cases opened with
  | none =>
      rw [readFrom] at h
      cases hlead : Lead.ofByte b with
      | whole c => exact .inl ⟨c, fun bytes => by rw [readFrom, hlead]; rfl⟩
      | opened o => exact .inr ⟨o, read_of_lead hlead, fun bytes => by rw [readFrom, hlead]⟩
      | nothing => simp [hlead] at h
  | some o =>
      rw [readFrom] at h
      split at h
      · rename_i hbyte
        cases hafter : o.after with
        | zero => exact .inl ⟨_, fun bytes => by rw [readFrom, if_pos hbyte, hafter]; rfl⟩
        | succ after => exact .inr ⟨_, rfl, fun bytes => by rw [readFrom, if_pos hbyte, hafter]⟩
      · simp at h

/-- Bytes can be read up to some place first, and then from there on. -/
theorem readFrom_append {position : Nat} {opened : Option Opened} {a b : Bytes} {r : Reading}
    (h : readFrom position opened (a ++ b) = .ok r) :
    ∃ s middle, readFrom position opened a = .ok (s, middle) ∧
      behind s (readFrom (position + a.length) middle b) = .ok r := by
  induction a generalizing position opened r with
  | nil =>
      refine ⟨[], opened, by cases opened <;> rfl, ?_⟩
      rw [List.nil_append] at h
      rw [List.length_nil, Nat.add_zero, h]
      rfl
  | cons byte a ih =>
      have hlength : position + (byte :: a).length = position + 1 + a.length := by
        rw [List.length_cons]
        omega
      rw [List.cons_append] at h
      rw [hlength]
      rcases readFrom_cons h with ⟨c, hstep⟩ | ⟨o, -, hstep⟩
      · rw [hstep] at h ⊢
        obtain ⟨t, ht, hr⟩ := ahead_ok h
        obtain ⟨s, middle, hs, hrest⟩ := ih ht
        refine ⟨c :: s, middle, by rw [hs]; rfl, ?_⟩
        rw [behind_ahead, hrest, ← ht]
        exact h
      · rw [hstep] at h ⊢
        exact ih h

/-- Bytes of which no character is read: there are none, or they all belong to one that is opened. -/
theorem opened_of_readFrom {position : Nat} {opened middle : Option Opened} {a : Bytes}
    (h : readFrom position opened a = .ok ([], middle)) :
    a = [] ∧ middle = opened ∨ ∃ o, middle = some o ∧ o.read = opened.elim 0 (·.read) + a.length := by
  induction a generalizing position opened with
  | nil =>
      refine .inl ⟨rfl, ?_⟩
      cases opened <;> exact (Prod.mk.inj (Except.ok.inj h)).2.symm
  | cons byte a ih =>
      right
      rcases readFrom_cons h with ⟨c, hstep⟩ | ⟨o, ho, hstep⟩
      · obtain ⟨t, -, hr⟩ := ahead_ok ((hstep a).symm.trans h)
        simp at hr
      · rcases ih ((hstep a).symm.trans h) with ⟨rfl, rfl⟩ | ⟨o', rfl, ho'⟩
        · exact ⟨o, rfl, ho⟩
        · refine ⟨o', rfl, ?_⟩
          rw [ho', Option.elim_some, ho, List.length_cons]
          omega

/-- The bytes of a text are read as the text, whatever follows. -/
theorem readFrom_encode_append (position : Nat) (s : Text) (rest : Bytes) :
    readFrom position none (encode s ++ rest)
      = behind s (readFrom (position + (encode s).length) none rest) := by
  induction s generalizing position with
  | nil =>
      rw [show encode [] = [] from rfl, List.nil_append, List.length_nil, Nat.add_zero]
      cases readFrom position none rest <;> rfl
  | cons c s ih =>
      have hencode : encode (c :: s) = encodeChar c ++ encode s := List.flatMap_cons ..
      rw [hencode, List.append_assoc, readFrom_encodeChar, ih, behind_ahead, List.length_append, Nat.add_assoc]

/-- Bytes that begin a character, but not all of them: no character is read. -/
theorem readFrom_begun (position : Nat) {c : Char} {cut rest : Bytes} (h : encodeChar c = cut ++ rest)
    (hrest : rest ≠ []) : ∃ middle, readFrom position none cut = .ok ([], middle) := by
  have hchar : readFrom position none (cut ++ rest) = .ok ([c], none) := by
    rw [← h, ← List.append_nil (encodeChar c), readFrom_encodeChar]
    rfl
  obtain ⟨s, middle, hcut, hbehind⟩ := readFrom_append hchar
  refine ⟨middle, ?_⟩
  cases s with
  | nil => exact hcut
  | cons d s =>
      -- the character would be complete before the other bytes, which make one of their own
      cases hread : readFrom (position + cut.length) middle rest with
      | error e => simp [hread, behind, Except.map] at hbehind
      | ok r =>
          obtain ⟨t, state⟩ := r
          simp only [hread, behind, Except.map, Except.ok.injEq, Prod.mk.injEq, List.cons_append,
            List.cons.injEq, List.append_eq_nil_iff] at hbehind
          obtain ⟨⟨-, -, rfl⟩, rfl⟩ := hbehind
          rcases opened_of_readFrom hread with ⟨hnil, -⟩ | ⟨o, ho, -⟩
          · exact absurd hnil hrest
          · simp at ho

/-- The bytes of a text are cut between two characters, or within one. -/
theorem split_encode {s : Text} {a b : Bytes} (h : encode s = a ++ b) :
    ∃ s₁ s₂ cut, s = s₁ ++ s₂ ∧ a = encode s₁ ++ cut ∧ encode s₂ = cut ++ b ∧
      ∀ position, ∃ middle, readFrom position none cut = .ok ([], middle) := by
  induction s generalizing a with
  | nil =>
      obtain ⟨rfl, rfl⟩ := List.append_eq_nil_iff.mp h.symm
      exact ⟨[], [], [], rfl, rfl, rfl, fun position => ⟨none, rfl⟩⟩
  | cons c s ih =>
      have hencode : encode (c :: s) = encodeChar c ++ encode s := List.flatMap_cons ..
      rw [hencode, List.append_eq_append_iff] at h
      rcases h with ⟨a', rfl, hrest⟩ | ⟨b', hchar, rfl⟩
      · obtain ⟨s₁, s₂, cut, rfl, rfl, hs₂, hcut⟩ := ih hrest
        exact ⟨c :: s₁, s₂, cut, rfl, by simp [encode], hs₂, hcut⟩
      · by_cases hb : b' = []
        · subst hb
          exact ⟨[c], s, [], rfl, by simp [encode, hchar], rfl, fun position => ⟨none, rfl⟩⟩
        · exact ⟨[], c :: s, a, rfl, rfl, by rw [hencode, hchar, List.append_assoc],
            fun position => readFrom_begun position hchar hb⟩

end Utf8

/-! ## Lines -/

namespace Text

theorem unifyLineEndsFrom_append (afterReturn : Bool) (s t : Text) :
    unifyLineEndsFrom afterReturn (s ++ t) = unifyLineEndsFrom afterReturn s
      ++ unifyLineEndsFrom ((s.getLast?.map (· == '\r')).getD afterReturn) t := by
  induction s generalizing afterReturn with
  | nil => rfl
  | cons c s ih =>
      have hlast : ∀ b, (((c :: s).getLast?.map (· == '\r')).getD b)
          = (s.getLast?.map (· == '\r')).getD (c == '\r') := by
        intro b
        rw [List.getLast?_cons]
        cases s.getLast? <;> rfl
      rw [List.cons_append, unifyLineEndsFrom, unifyLineEndsFrom, hlast, ih, ih]
      split
      · rename_i h
        rw [h.1, show ('\n' == '\r') = false by decide]
      · split
        · rename_i h
          rw [h, beq_self_eq_true, List.cons_append]
        · rename_i h
          rw [beq_eq_false_iff_ne.mpr h, List.cons_append]

/-- The line ends of two texts, where no line end has its halves in both. -/
theorem unifyLineEnds_append {s t : Text} (h : s.getLast? ≠ some '\r' ∨ t.head? = some '\r') :
    unifyLineEnds (s ++ t) = unifyLineEnds s ++ unifyLineEnds t := by
  unfold unifyLineEnds
  rw [unifyLineEndsFrom_append]
  congr 1
  rcases h with h | h
  · cases hlast : s.getLast? with
    | none => rfl
    | some c =>
        have hc : (c == '\r') = false := beq_eq_false_iff_ne.mpr fun hc => h (hc ▸ hlast)
        rw [Option.map_some, Option.getD_some, hc]
  · obtain ⟨t, rfl⟩ := List.head?_eq_some_iff.mp h
    -- a carriage return begins a line end, whatever comes before it
    simp only [unifyLineEndsFrom, show ('\r' = '\n') = False by decide, false_and, if_false]

theorem not_mem_unifyLineEnds (s : Text) : '\r' ∉ unifyLineEnds s := by
  suffices h : ∀ afterReturn, '\r' ∉ unifyLineEndsFrom afterReturn s from h false
  intro afterReturn
  induction s generalizing afterReturn with
  | nil => simp [unifyLineEndsFrom]
  | cons c s ih =>
      rw [unifyLineEndsFrom]
      split
      · exact ih false
      · split
        · exact List.not_mem_cons_of_ne_of_not_mem (by decide) (ih true)
        · rename_i hc
          exact List.not_mem_cons_of_ne_of_not_mem (Ne.symm hc) (ih false)

theorem lines_cons (c : Char) (s : Text) : lines (c :: s) = consLine c (lines s) := rfl

theorem flatten_lines (s : Text) : (lines s).flatten = s := by
  induction s with
  | nil => rfl
  | cons c s ih =>
      rw [lines_cons]
      cases hlines : lines s with
      | nil =>
          rw [hlines] at ih
          simp [consLine, ← ih]
      | cons l rest =>
          rw [hlines] at ih
          rw [consLine, ← ih]
          split <;> simp

/-- Whether a line has its line feed. -/
def isComplete (line : Text) : Bool :=
  line.getLast? == some '\n'

theorem ne_nil_of_mem_lines {s l : Text} (h : l ∈ lines s) : l ≠ [] := by
  induction s generalizing l with
  | nil => simp [lines] at h
  | cons c s ih =>
      rw [lines_cons] at h
      cases hlines : lines s with
      | nil => simp_all [consLine]
      | cons m rest =>
          rw [hlines] at h ih
          rw [consLine] at h
          split at h <;> rcases List.mem_cons.mp h with rfl | h
          · simp
          · exact ih h
          · simp
          · exact ih (List.mem_cons_of_mem _ h)

theorem isComplete_cons (c : Char) {l : Text} (h : l ≠ []) : isComplete (c :: l) = isComplete l := by
  rw [isComplete, isComplete, List.getLast?_cons, List.getLast?_eq_some_getLast h, Option.getD_some]

/-- No line follows one without its line feed. -/
theorem eq_nil_of_incomplete {s l : Text} {rest : List Text} (h : lines s = l :: rest)
    (hl : isComplete l = false) : rest = [] := by
  induction s generalizing l rest with
  | nil => simp [lines] at h
  | cons c s ih =>
      rw [lines_cons] at h
      cases hlines : lines s with
      | nil =>
          rw [hlines] at h
          exact (List.cons.inj h).2.symm
      | cons m others =>
          rw [hlines, consLine] at h
          split at h
          · rename_i hc
            obtain ⟨rfl, -⟩ := List.cons.inj h
            rw [hc] at hl
            simp [isComplete] at hl
          · obtain ⟨rfl, rfl⟩ := List.cons.inj h
            refine ih hlines ?_
            rwa [isComplete_cons c (ne_nil_of_mem_lines (hlines ▸ List.mem_cons_self ..))] at hl

theorem consLine_feed (ls : List Text) : consLine '\n' ls = ['\n'] :: ls := by
  cases ls <;> rfl

/-- The lines of two texts: the complete lines of the first, and then those of what it has left with
    the second. -/
theorem lines_append (s t : Text) :
    lines (s ++ t) = (lines s).filter isComplete
      ++ lines (((lines s).filter (!isComplete ·)).flatten ++ t) := by
  induction s with
  | nil => rfl
  | cons c s ih =>
      rw [List.cons_append, lines_cons, ih, lines_cons]
      by_cases hc : c = '\n'
      · have hfeed : isComplete ['\n'] = true := by decide
        rw [hc, consLine_feed, consLine_feed, List.filter_cons_of_pos hfeed,
          List.filter_cons_of_neg (by simp [hfeed]), List.cons_append]
      cases hlines : lines s with
      | nil =>
          have hopen : isComplete [c] = false := by simp [isComplete, hc]
          rw [consLine, List.filter_cons_of_neg (by simp [hopen]), List.filter_cons_of_pos (by simp [hopen])]
          rfl
      | cons l rest =>
          have hcons : isComplete (c :: l) = isComplete l :=
            isComplete_cons c (ne_nil_of_mem_lines (hlines ▸ List.mem_cons_self ..))
          rw [consLine, if_neg hc]
          cases hl : isComplete l with
          | true =>
              rw [List.filter_cons_of_pos hl, List.filter_cons_of_neg (by simp [hl]),
                List.filter_cons_of_pos (hcons.trans hl), List.filter_cons_of_neg (by simp [hcons, hl]),
                List.cons_append, consLine, if_neg hc, List.cons_append]
          | false =>
              obtain rfl := eq_nil_of_incomplete hlines hl
              rw [List.filter_cons_of_neg (by simp [hl]), List.filter_cons_of_pos (by simp [hl]),
                List.filter_cons_of_neg (by simp [hcons, hl]), List.filter_cons_of_pos (by simp [hcons, hl])]
              simp only [List.filter_nil, List.nil_append, List.flatten_cons, List.flatten_nil, List.append_nil,
                List.cons_append, lines_cons]

end Text

/-! ## Blocks -/

namespace Config

/-- Cutting off the bytes of a character that goes on. -/
theorem readBytes_encode_append {s : Text} {cut : Bytes} {middle : Option Utf8.Opened}
    (hcut : Utf8.readFrom (0 + (Utf8.encode s).length) none cut = .ok ([], middle)) :
    readBytes (Utf8.encode s ++ cut) = .ok (s, cut) := by
  unfold readBytes
  rw [Utf8.readFrom_encode_append, hcut]
  rcases Utf8.opened_of_readFrom hcut with ⟨rfl, rfl⟩ | ⟨o, rfl, ho⟩
  · simp [Utf8.behind, Except.map]
  · have hread : (Utf8.encode s ++ cut).length - o.read = (Utf8.encode s).length := by
      rw [ho, List.length_append, Option.elim_none]
      omega
    simp only [Utf8.behind, Except.map, List.append_nil, hread, List.drop_left]

/-- The lines of two texts: the complete lines of the first, and then those of what it leaves with the
    second. -/
theorem lines_completeLines (s t : Text) :
    Text.lines (Text.unifyLineEnds (s ++ t))
      = (completeLines s).1 ++ Text.lines (Text.unifyLineEnds ((completeLines s).2 ++ t)) := by
  obtain ⟨held, hheld⟩ : ∃ held, (if s.getLast? = some '\r' then ['\r'] else []) = held := ⟨_, rfl⟩
  obtain ⟨taken, htaken⟩ : ∃ taken, s.take (s.length - held.length) = taken := ⟨_, rfl⟩
  obtain ⟨left, hleft⟩ : ∃ left,
      ((Text.lines (Text.unifyLineEnds taken)).filter (!Text.isComplete ·)).flatten = left := ⟨_, rfl⟩
  have hcomplete : completeLines s
      = ((Text.lines (Text.unifyLineEnds taken)).filter Text.isComplete, left ++ held) := by
    rw [← hleft, ← htaken, ← hheld]
    rfl
  have hs : s = taken ++ held ∧ (taken.getLast? ≠ some '\r' ∨ (held ++ t).head? = some '\r') := by
    by_cases hlast : s.getLast? = some '\r'
    · obtain ⟨before, rfl⟩ := List.getLast?_eq_some_iff.mp hlast
      rw [if_pos hlast] at hheld
      subst hheld
      simp only [List.length_append, List.length_singleton, Nat.add_sub_cancel, List.take_left] at htaken
      exact ⟨by rw [htaken], .inr rfl⟩
    · rw [if_neg hlast] at hheld
      subst hheld
      rw [List.length_nil, Nat.sub_zero, List.take_length] at htaken
      exact ⟨by rw [htaken, List.append_nil], .inl (htaken ▸ hlast)⟩
  -- what is left of the text is without carriage returns
  have hreturn : '\r' ∉ left := by
    intro hmem
    rw [← hleft] at hmem
    obtain ⟨l, hl, hmem⟩ := List.mem_flatten.mp hmem
    refine Text.not_mem_unifyLineEnds taken ?_
    rw [← Text.flatten_lines (Text.unifyLineEnds taken)]
    exact List.mem_flatten.mpr ⟨l, (List.mem_filter.mp hl).1, hmem⟩
  have hlast : left.getLast? ≠ some '\r' := fun h => hreturn (List.mem_of_getLast? h)
  calc Text.lines (Text.unifyLineEnds (s ++ t))
      = Text.lines (Text.unifyLineEnds taken ++ Text.unifyLineEnds (held ++ t)) := by
        rw [hs.1, List.append_assoc, Text.unifyLineEnds_append hs.2]
    _ = (completeLines s).1 ++ Text.lines (left ++ Text.unifyLineEnds (held ++ t)) := by
        rw [Text.lines_append, hleft, hcomplete]
    _ = (completeLines s).1 ++ Text.lines (Text.unifyLineEnds ((completeLines s).2 ++ t)) := by
        rw [hcomplete, List.append_assoc, Text.unifyLineEnds_append (.inl hlast),
          Text.unifyLineEnds_of_not_mem hreturn]

theorem Progress.readLines_append (p : Progress) (number : Nat) (ls more : List Text) :
    p.readLines number (ls ++ more) =
      match p.readLines number ls with
      | .error fault => .error fault
      | .ok q => q.readLines (number + ls.length) more := by
  induction ls generalizing p number with
  | nil => rfl
  | cons raw ls ih =>
      rw [List.cons_append, readLines, readLines]
      cases p.readLine number raw with
      | error fault => rfl
      | ok next =>
          simp only [ih, List.length_cons, Nat.add_assoc, Nat.add_comm 1]

/-- A text is read in blocks as it is read in one go. -/
theorem Progress.readBlocks_encode {p : Progress} {number : Nat} {bytes : Bytes} {s text : Text}
    {blocks : List Bytes} (hs : Utf8.encode s = bytes ++ blocks.flatten)
    (hbytes : ∀ position, ∃ middle, Utf8.readFrom position none bytes = .ok ([], middle)) :
    p.readBlocks number bytes text blocks
      = (p.readRest number (Text.lines (Text.unifyLineEnds (text ++ s)))).mapError .document := by
  induction blocks generalizing p number bytes s text with
  | nil =>
      obtain ⟨middle, hmiddle⟩ := hbytes 0
      rw [List.flatten_nil, List.append_nil] at hs
      rw [← hs, Utf8.readFrom_encode, Except.ok.injEq, Prod.mk.injEq] at hmiddle
      rw [readBlocks, ← hs, Utf8.decode_encode, hmiddle.1, List.append_nil]
  | cons block rest ih =>
      rw [List.flatten_cons, ← List.append_assoc] at hs
      obtain ⟨s₁, s₂, cut, rfl, hbytes, hs₂, hcut⟩ := Utf8.split_encode hs
      obtain ⟨middle, hmiddle⟩ := hcut (0 + (Utf8.encode s₁).length)
      rw [readBlocks, hbytes, readBytes_encode_append hmiddle, ← List.append_assoc, lines_completeLines,
        readRest, readLines_append]
      simp only
      cases p.readLines number (completeLines (text ++ s₁)).1 with
      | error fault => rfl
      | ok q => exact ih hs₂ hcut

/-- The bytes of a text spell the document of its lines. -/
theorem Document.ofBytes_encode (s : Text) :
    Document.ofBytes (Utf8.encode s)
      = (({} : Progress).readRest 1 (Text.lines (Text.unifyLineEnds s))).mapError .document :=
  Progress.readBlocks_encode (flatten_blocks _).symm fun _ => ⟨none, rfl⟩

end Config

end SqlLayout
