import Mathlib.Data.List.Forall2
import SqlLayout.Proofs.BlockReading
import SqlLayout.Proofs.Gaps
import SqlLayout.Proofs.WrittenValues

/-! # Rows of a config file

A config file is read row by row. Every row that is no noise says one thing: a section begins, or an
option has a value. Noise changes nothing but the lines of the option before it, which are dropped from
its value.
-/

namespace SqlLayout

/-! ## Blanks at the end -/

namespace Text

variable {g : Text} (hg : g.isAllBlank = true) (s : Text)

include hg

theorem trimRight_append_blank : trimRight (s ++ g) = trimRight s := by
  rw [trimRight, List.reverse_append, List.dropWhile_append_of_pos]
  · rfl
  · intro c hc
    exact isBlank_of_mem hg (List.mem_reverse.mp hc)

theorem trim_append_blank : trim (s ++ g) = trim s := by
  induction s with
  | nil =>
      have h := trim_append hg []
      rwa [List.append_nil] at h
  | cons c s ih =>
      cases hc : isBlank c with
      | true =>
          have hone : isAllBlank [c] = true := by simp [hc]
          have h := trim_append hone (s ++ g)
          rwa [ih, ← trim_append hone s] at h
      | false =>
          rw [trim, trim, List.cons_append, trimLeft, trimLeft, dropWhile_isBlank_cons hc,
            dropWhile_isBlank_cons hc, ← List.cons_append, trimRight_append_blank hg]

omit hg

theorem trimRight_eq_self {s : Text} (h : ∀ c ∈ s, isBlank c = false) : trimRight s = s := by
  rw [trimRight, dropWhile_eq_self fun c hc => h c (List.mem_reverse.mp hc), List.reverse_reverse]

theorem trim_eq_self {s : Text} (h : ∀ c ∈ s, isBlank c = false) : trim s = s := by
  rw [trim, trimLeft, dropWhile_eq_self h, trimRight_eq_self h]

theorem OneWord.isBlank_of_mem {s : Text} (h : s.OneWord) {c : Char} (hc : c ∈ s) : isBlank c = false :=
  isBlank_of_isWord (h.isWord c hc)

theorem exists_trimRight : ∃ g : Text, g.isAllBlank = true ∧ s = trimRight s ++ g := by
  refine ⟨(s.reverse.takeWhile isBlank).reverse, ?_, ?_⟩
  · rw [isAllBlank, List.all_eq_true]
    intro c hc
    exact List.mem_takeWhile_imp (List.mem_reverse.mp hc)
  · rw [trimRight, ← List.reverse_append, List.takeWhile_append_dropWhile, List.reverse_reverse]

theorem trimRight_trimRight : trimRight (trimRight s) = trimRight s := by
  obtain ⟨g, hg, hs⟩ := exists_trimRight s
  calc trimRight (trimRight s) = trimRight (trimRight s ++ g) := (trimRight_append_blank hg _).symm
    _ = trimRight s := by rw [← hs]

theorem mem_of_mem_trimRight {c : Char} (h : c ∈ trimRight s) : c ∈ s := by
  obtain ⟨g, -, hs⟩ := exists_trimRight s
  rw [hs]
  exact List.mem_append_left g h

theorem trim_trimRight : trim (trimRight s) = trim s := by
  obtain ⟨g, hg, hs⟩ := exists_trimRight s
  calc trim (trimRight s) = trim (trimRight s ++ g) := (trim_append_blank hg _).symm
    _ = trim s := by rw [← hs]

end Text

namespace Config

/-! ## Rows -/

/-- What a row of a config file says. -/
inductive Item where
  | header (name : Text)
  | setting (name value : Text)

/-- A name that an option may have in a config file. -/
structure IsKey (name : Text) : Prop where
  /-- It does not look like a comment, and is not indented. -/
  first : ∃ c rest, name = c :: rest ∧ isBlank c = false ∧ c ≠ '#' ∧ c ≠ ';'
  /-- It has no blanks at its end. -/
  last : name.trimRight = name
  /-- No value begins in it. -/
  plain : ∀ c ∈ name, isDelimiter c = false

theorem isKey_of_oneWord {name : Text} (h : name.OneWord) : IsKey name := by
  constructor
  · obtain ⟨c, rest, rfl⟩ := List.exists_cons_of_ne_nil h.ne_nil
    refine ⟨c, rest, rfl, h.isBlank_of_mem (by simp), ?_, ?_⟩
    · rintro rfl
      exact h.not_mem (by decide) List.mem_cons_self
    · rintro rfl
      exact h.not_mem (by decide) List.mem_cons_self
  · exact Text.trimRight_eq_self fun c => h.isBlank_of_mem
  · intro c hc
    rw [Bool.eq_false_iff, isDelimiter, ne_eq, Bool.or_eq_true, beq_iff_eq, beq_iff_eq]
    rintro (rfl | rfl)
    · exact h.not_mem (by decide) hc
    · exact h.not_mem (by decide) hc

/-- The ways to write an item. -/
inductive Writes : Item → Text → Prop where
  | header {name : Text} (hname : name ≠ []) : Writes (.header name) ('[' :: (name ++ [']']))
  /-- A name and a value with a delimiter between them, and blanks around the delimiter and behind the
      value. The row is not taken for a header. -/
  | setting {name value before after behind : Text} {delimiter : Char} (hname : IsKey name)
      (hdelimiter : isDelimiter delimiter = true) (hbefore : before.isAllBlank = true)
      (hafter : after.isAllBlank = true) (hbehind : behind.isAllBlank = true)
      (hheader : name.head? ≠ some '[' ∨
        ']' ∉ name ++ (before ++ delimiter :: (after ++ (value ++ behind)))) :
      Writes (.setting name value) (name ++ (before ++ delimiter :: (after ++ (value ++ behind))))

/-- Rows that say nothing. -/
inductive Noise : Text → Prop where
  | blank {row : Text} (h : row.isAllBlank = true) : Noise row
  | comment {g rest : Text} {c : Char} (hg : g.isAllBlank = true) (hc : c = '#' ∨ c = ';') :
      Noise (g ++ c :: rest)

/-- Rows that say items one by one, with noise between them. -/
inductive Renders : List Item → List Text → Prop where
  | nil : Renders [] []
  | noise {items : List Item} {row : Text} {rows : List Text} (hrow : Noise row)
      (h : Renders items rows) : Renders items (row :: rows)
  | item {item : Item} {items : List Item} {row : Text} {rows : List Text} (hrow : Writes item row)
      (h : Renders items rows) : Renders (item :: items) (row :: rows)

theorem Writes.ne_nil {item : Item} {row : Text} (h : Writes item row) : row ≠ [] := by
  cases h with
  | header hname => simp
  | setting hname =>
      obtain ⟨c, rest, rfl, -⟩ := hname.first
      simp

namespace Renders

theorem of_append_nil {items : List Item} {rows : List Text} (h : Renders items (rows ++ [[]])) :
    Renders items rows := by
  generalize hall : rows ++ [[]] = all at h
  induction h generalizing rows with
  | nil => simp at hall
  | @noise items row all hrow h ih =>
      cases rows with
      | nil =>
          obtain ⟨-, rfl⟩ := List.cons.inj hall
          exact h
      | cons r rows =>
          obtain ⟨rfl, hrest⟩ := List.cons.inj hall
          exact .noise hrow (ih hrest)
  | @item item items row all hrow h ih =>
      cases rows with
      | nil =>
          obtain ⟨rfl, -⟩ := List.cons.inj hall
          exact absurd rfl hrow.ne_nil
      | cons r rows =>
          obtain ⟨rfl, hrest⟩ := List.cons.inj hall
          exact .item hrow (ih hrest)

end Renders

/-! ## One row -/

/-- What is read of an item. -/
def Item.content : Item → Content
  | header name => .header name
  | setting name value => .setting name value.trim

theorem Line.ofText_cons {c : Char} (hc : isBlank c = false) (hcomment : c ≠ '#' ∧ c ≠ ';') (s : Text) :
    Line.ofText (c :: s) = .content 0 (Text.trimRight (c :: s)) := by
  have htrim : Text.trim (c :: s) = c :: s.trimRight := by
    rw [Text.trim, Text.trimLeft, Text.dropWhile_isBlank_cons hc, Text.trimRight_cons hc]
  have hindent : (c :: s).takeWhile isBlank = [] := List.takeWhile_cons_of_neg (by simp [hc])
  rw [Line.ofText, htrim, Text.trimRight_cons hc]
  simp only [hcomment.1, hcomment.2, or_self, if_false, hindent, List.length_nil]

/-- A header begins with a bracket and has the other one somewhere. -/
theorem headerName?_eq_none {s : Text} (h : s.head? ≠ some '[' ∨ ']' ∉ s) : headerName? s = none := by
  cases s with
  | nil => rfl
  | cons c s =>
      by_cases hc : c = '['
      · have hs : ']' ∉ c :: s := h.resolve_left (by simpa using hc)
        have hdrop : s.reverse.dropWhile (fun d => decide (d ≠ ']')) = [] := by
          apply List.dropWhile_eq_nil_iff.mpr
          intro d hd
          rw [decide_eq_true_eq]
          rintro rfl
          exact hs (List.mem_cons_of_mem c (List.mem_reverse.mp hd))
        rw [hc, headerName?]
        simp only [hdrop]
      · rw [headerName?]
        rintro rest hrest
        exact hc (List.cons.inj hrest).1

theorem headerName?_brackets {name : Text} (hname : name ≠ []) :
    headerName? ('[' :: (name ++ [']'])) = some name := by
  obtain ⟨c, rest, hrest⟩ := List.exists_cons_of_ne_nil (List.reverse_ne_nil_iff.mpr hname)
  have hback : (c :: rest).reverse = name := by rw [← hrest, List.reverse_reverse]
  have hdrop : (name ++ [']']).reverse.dropWhile (fun d => decide (d ≠ ']')) = ']' :: c :: rest := by
    rw [List.reverse_append, hrest]
    exact List.dropWhile_cons_of_neg (by simp)
  rw [headerName?]
  simp only [hdrop, hback]

theorem not_isBlank_of_isDelimiter {c : Char} (h : isDelimiter c = true) : isBlank c = false := by
  rw [isDelimiter, Bool.or_eq_true, beq_iff_eq, beq_iff_eq] at h
  rcases h with rfl | rfl <;> decide

theorem not_isDelimiter_of_isBlank {c : Char} (h : isBlank c = true) : isDelimiter c = false := by
  rw [Bool.eq_false_iff]
  intro hd
  rw [not_isBlank_of_isDelimiter hd] at h
  cases h

/-- A name and a value are read as they stand on their sides of the delimiter. -/
theorem ofText_setting {name before rest : Text} {delimiter : Char} (hname : IsKey name)
    (hdelimiter : isDelimiter delimiter = true) (hbefore : before.isAllBlank = true)
    (hheader : name.head? ≠ some '[' ∨ ']' ∉ (name ++ before) ++ delimiter :: rest) :
    Content.ofText ((name ++ before) ++ delimiter :: rest) = .setting name rest.trim := by
  have hplain : ∀ c ∈ name ++ before, (!isDelimiter c) = true := by
    intro c hc
    rw [Bool.not_eq_true']
    rcases List.mem_append.mp hc with hc | hc
    · exact hname.plain c hc
    · exact not_isDelimiter_of_isBlank (Text.isBlank_of_mem hbefore hc)
  have hnone : headerName? ((name ++ before) ++ delimiter :: rest) = none := by
    obtain ⟨c, name, rfl, -⟩ := hname.first
    exact headerName?_eq_none hheader
  have hsetting : setting? ((name ++ before) ++ delimiter :: rest) = some (name, rest.trim) := by
    rw [setting?, List.dropWhile_append_of_pos hplain, List.takeWhile_append_of_pos hplain,
      List.dropWhile_cons_of_neg (by simp [hdelimiter]),
      List.takeWhile_cons_of_neg (by simp [hdelimiter]), List.append_nil,
      Text.trimRight_append_blank hbefore, hname.last]
  rw [Content.ofText, hnone]
  simp only [hsetting]

/-- A row is read as its item, with or without what ends it. -/
theorem Writes.read {item : Item} {row : Text} (h : Writes item row) {g : Text}
    (hg : g.isAllBlank = true) :
    ∃ text, Line.ofText (row ++ g) = .content 0 text ∧ Content.ofText text = item.content := by
  cases h with
  | @header name hname =>
      refine ⟨'[' :: (name ++ [']']), ?_, by rw [Content.ofText, headerName?_brackets hname]; rfl⟩
      have hsplit : '[' :: (name ++ [']']) ++ g = ('[' :: name) ++ ']' :: g := by simp
      rw [List.cons_append, Line.ofText_cons (by decide) (by decide), ← List.cons_append, hsplit,
        Text.trimRight_append_cons (by decide), Text.trimRight_blank hg]
      rfl
  | @setting name value before after behind delimiter hname hdelimiter hbefore hafter hbehind hheader =>
      have hend : Text.isAllBlank (behind ++ g) = true := by simp [hbehind, hg]
      have hsplit : name ++ (before ++ delimiter :: (after ++ (value ++ behind))) ++ g
          = (name ++ before) ++ delimiter :: (after ++ (value ++ (behind ++ g))) := by simp
      refine ⟨(name ++ before) ++ delimiter :: Text.trimRight (after ++ (value ++ (behind ++ g))), ?_, ?_⟩
      · obtain ⟨c, rest, rfl, hblank, hcomment⟩ := hname.first
        rw [hsplit, ← Text.trimRight_append_cons (not_isBlank_of_isDelimiter hdelimiter)]
        exact Line.ofText_cons hblank hcomment _
      · have hbracket : ']' ∉ g := fun hmem => absurd (Text.isBlank_of_mem hg hmem) (by decide)
        rw [ofText_setting hname hdelimiter hbefore, Text.trim_trimRight, Text.trim_append hafter,
          Text.trim_append_blank hend]
        · rfl
        · refine hheader.imp_right fun hmem hin => hmem ?_
          have hwhole : ']' ∈ name ++ (before ++ delimiter :: (after ++ (value ++ behind))) ++ g := by
            rw [hsplit]
            refine List.mem_append.mpr ((List.mem_append.mp hin).imp_right fun hin => ?_)
            exact List.mem_cons.mpr ((List.mem_cons.mp hin).imp_right (Text.mem_of_mem_trimRight _))
          exact (List.mem_append.mp hwhole).resolve_right hbracket

/-! ## Reading rows -/

/-- An option with the section in which it stands. -/
abbrev Placed := Text × (Text × Text)

/-- What items say: sections and options, the newest first. -/
structure Account where
  sections : List Text := []
  /-- The section of the next option. -/
  home : Option Text := none
  placed : List Placed := []

namespace Account

/-- What is said with one more item. -/
def add (a : Account) : Item → Account
  | .header name => { a with sections := name :: a.sections, home := some name }
  | .setting name value => { a with placed := a.home.toList.map (·, (name, value)) ++ a.placed }

/-- An item may be said: a section begins once, and an option stands once in a section. -/
def Fits (a : Account) : Item → Prop
  | .header name => name ≠ defaultSection ∧ name ∉ a.sections
  | .setting name _ => ∃ home, a.home = some home ∧ ∀ x ∈ a.placed, x.1 = home → x.2.1 ≠ name

/-- Items may be said one after the other. -/
def FitsAll : Account → List Item → Prop
  | _, [] => True
  | a, item :: items => a.Fits item ∧ FitsAll (a.add item) items

theorem fitsAll_append {a : Account} {first second : List Item} :
    a.FitsAll (first ++ second) ↔ a.FitsAll first ∧ (first.foldl add a).FitsAll second := by
  induction first generalizing a with
  | nil => simp [FitsAll]
  | cons item first ih => simp only [List.cons_append, FitsAll, ih, List.foldl_cons, and_assoc]

end Account

/-- The entry of an option, perhaps with blank lines after it. -/
structure Entry.Holds (e : Entry) (x : Placed) : Prop where
  home : e.home = x.1
  name : e.name = x.2.1
  lines : ∃ k, e.lines = x.2.2.trim :: List.replicate k []

theorem exists_holds {es : List Entry} {placed : List Placed} (h : List.Forall₂ Entry.Holds es placed)
    {e : Entry} (he : e ∈ es) : ∃ x ∈ placed, e.Holds x := by
  induction h with
  | nil => cases he
  | @cons d x es placed hd h ih =>
      rcases List.mem_cons.mp he with rfl | he
      · exact ⟨x, by simp, hd⟩
      · obtain ⟨y, hy, hey⟩ := ih he
        exact ⟨y, List.mem_cons_of_mem x hy, hey⟩

/-- What was read is what the items say. -/
structure Progress.HasRead (p : Progress) (a : Account) : Prop where
  sections : p.sections = a.sections
  current : p.current = a.home
  entries : List.Forall₂ Entry.Holds p.entries a.placed
  indent : p.indent = 0
  unread : p.unread = []

namespace Progress.HasRead

variable {p : Progress} {a : Account} (h : p.HasRead a)

include h

theorem extend : (p.extend []).HasRead a := by
  have hentries := h.entries
  unfold Progress.extend
  split
  · split
    · exact h
    · next e rest heq =>
        rw [heq] at hentries
        cases hp : a.placed with
        | nil => simp [hp] at hentries
        | cons x placed =>
            rw [hp, List.forall₂_cons] at hentries
            obtain ⟨he, hrest⟩ := hentries
            obtain ⟨k, hk⟩ := he.lines
            have hlines : e.lines ++ [[]] = x.2.2.trim :: List.replicate (k + 1) [] := by
              simp [hk, List.replicate_succ']
            refine { h with entries := ?_ }
            rw [hp]
            exact .cons ⟨he.home, he.name, k + 1, hlines⟩ hrest
  · exact h

variable {row g : Text} (hg : g.isAllBlank = true)

include hg

theorem readNoise (hrow : Noise row) (number : Nat) :
    ∃ q, p.readLine number (row ++ g) = .ok q ∧ q.HasRead a := by
  cases hrow with
  | blank hblank =>
      refine ⟨p.extend [], ?_, h.extend⟩
      have htrim : Text.trim (row ++ g) = [] := by
        rw [Text.trim_append_blank hg, ← List.nil_append row, Text.trim_append_blank hblank]
        rfl
      rw [readLine, Line.ofText, htrim]
  | @comment indent rest c hindent hc =>
      refine ⟨p, ?_, h⟩
      have hblank : isBlank c = false := by rcases hc with rfl | rfl <;> decide
      have htrim : Text.trim (indent ++ c :: rest ++ g) = c :: Text.trimRight (rest ++ g) := by
        rw [List.append_assoc, Text.trim_append hindent, List.cons_append, Text.trim, Text.trimLeft,
          Text.dropWhile_isBlank_cons hblank, Text.trimRight_cons hblank]
      rw [readLine, Line.ofText, htrim]
      simp only [if_pos hc]

/-- A row with an item does not go on with the option before it. -/
theorem readLine_item {item : Item} (hrow : Writes item row) (number : Nat) : ∃ text,
    p.readLine number (row ++ g) = p.readContent number (row ++ g) text ∧
      Content.ofText text = item.content := by
  obtain ⟨text, hline, hcontent⟩ := hrow.read hg
  refine ⟨text, ?_, hcontent⟩
  rw [readLine, hline]
  simp only [h.indent, Nat.lt_irrefl, decide_false, Bool.and_false, Bool.false_eq_true, if_false]
  congr 1
  cases p
  simpa using h.indent.symm

theorem readItem {item : Item} (hrow : Writes item row) (hfits : a.Fits item) (number : Nat) :
    ∃ q, p.readLine number (row ++ g) = .ok q ∧ q.HasRead (a.add item) := by
  obtain ⟨text, hread, hcontent⟩ := h.readLine_item hg hrow number
  cases item with
  | header name =>
      obtain ⟨hdefault, hnew⟩ := hfits
      refine ⟨{ p with sections := name :: p.sections, current := some name, isOpen := false }, ?_, ?_⟩
      · rw [hread, readContent, hcontent]
        simp [Item.content, openSection, hdefault, h.sections, hnew]
      · exact
          { sections := congrArg (name :: ·) h.sections
            current := rfl
            entries := h.entries
            indent := h.indent
            unread := h.unread }
  | setting name value =>
      obtain ⟨home, hhome, hnew⟩ := hfits
      have hcurrent := h.current.trans hhome
      -- an entry of the same name would be an option that was said
      have hany : p.entries.any (fun e => e.home == home && e.name == name) = false := by
        rw [List.any_eq_false]
        intro e he
        obtain ⟨x, hx, hholds⟩ := exists_holds h.entries he
        rw [Bool.and_eq_true, beq_iff_eq, beq_iff_eq, hholds.home, hholds.name, not_and]
        exact hnew x hx
      have hempty : name.isEmpty = false := by
        cases hrow with
        | setting hname =>
            obtain ⟨c, rest, hrest, -⟩ := hname.first
            rw [hrest]
            rfl
      refine ⟨{ p with entries := ⟨home, name, [value.trim]⟩ :: p.entries, isOpen := true }, ?_, ?_⟩
      · rw [hread, readContent, hcontent, hcurrent]
        simp [Item.content, addOption, hany, hempty, hcurrent]
      · have hadd : a.add (.setting name value) = { a with placed := (home, name, value) :: a.placed } := by
          simp [Account.add, hhome]
        rw [hadd]
        exact
          { sections := h.sections
            current := h.current
            entries := .cons ⟨rfl, rfl, 0, rfl⟩ h.entries
            indent := h.indent
            unread := h.unread }

end Progress.HasRead

/-- A row with what ends it. -/
def IsLineOf (line row : Text) : Prop :=
  ∃ g : Text, g.isAllBlank = true ∧ line = row ++ g

/-- Rows are read as their items say, whatever noise is between them. -/
theorem Progress.HasRead.readLines {p : Progress} {a : Account} (h : p.HasRead a) {items : List Item}
    {rows ls : List Text} (hrows : Renders items rows) (hls : List.Forall₂ IsLineOf ls rows)
    (hfits : a.FitsAll items) (number : Nat) :
    ∃ q, p.readLines number ls = .ok q ∧ q.HasRead (items.foldl Account.add a) := by
  induction hrows generalizing p a ls number with
  | nil =>
      cases hls
      exact ⟨p, rfl, h⟩
  | noise hrow hrows ih =>
      obtain ⟨l, ls, ⟨g, hg, rfl⟩, hrest, rfl⟩ := List.forall₂_cons_right_iff.mp hls
      obtain ⟨q, hq, hread⟩ := h.readNoise hg hrow number
      rw [Progress.readLines, hq]
      exact ih hread hrest hfits (number + 1)
  | item hrow hrows ih =>
      obtain ⟨l, ls, ⟨g, hg, rfl⟩, hrest, rfl⟩ := List.forall₂_cons_right_iff.mp hls
      obtain ⟨q, hq, hread⟩ := h.readItem hg hrow hfits.1 number
      rw [Progress.readLines, hq]
      exact ih hread hrest hfits.2 (number + 1)

end Config

end SqlLayout
