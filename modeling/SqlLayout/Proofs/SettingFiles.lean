import Mathlib.Data.List.Nodup
import SqlLayout.Proofs.LoadedOptions
import SqlLayout.Proofs.NumeralTexts
import SqlLayout.Proofs.SettingRows

/-! # Config files with other sections, comments and blank lines

The rows of a config file say sections one after the other, with options in them. Of the rows in the
section that counts each gives its option its value, whatever stands around them.
-/

namespace SqlLayout

namespace Config

/-! ## Sections -/

/-- A section with its options, in order. -/
abbrev Block := Text × List (Text × Text)

/-- The items of a section: its header and its options. -/
def Block.items (b : Block) : List Item :=
  .header b.1 :: b.2.map fun e => .setting e.1 e.2

/-- The options of sections. -/
def placedIn (bs : List Block) : List Placed :=
  bs.flatMap fun b => b.2.map (b.1, ·)

/-- Sections with different names, none of them the one of the defaults, and with different options
    each. -/
structure Distinct (bs : List Block) : Prop where
  names : (bs.map (·.1)).Nodup
  ordinary : ∀ b ∈ bs, b.1 ≠ defaultSection
  keys : ∀ b ∈ bs, (b.2.map (·.1)).Nodup

theorem Distinct.insert {before after : List Block} {b : Block} (h : Distinct (before ++ after))
    (hname : b.1 ∉ (before ++ after).map (·.1)) (hdefault : b.1 ≠ defaultSection)
    (hkeys : (b.2.map (·.1)).Nodup) : Distinct (before ++ b :: after) := by
  have hmem : ∀ {P : Block → Prop}, P b → (∀ c ∈ before ++ after, P c) →
      ∀ c ∈ before ++ b :: after, P c := by
    intro P hb hall c hc
    rcases List.mem_append.mp hc with hc | hc
    · exact hall c (List.mem_append_left _ hc)
    · rcases List.mem_cons.mp hc with rfl | hc
      · exact hb
      · exact hall c (List.mem_append_right _ hc)
  constructor
  · rw [List.map_append, List.map_cons, List.nodup_middle, ← List.map_append, List.nodup_cons]
    exact ⟨hname, h.names⟩
  · exact hmem hdefault h.ordinary
  · exact hmem hkeys h.keys

theorem Distinct.not_mem {before after : List Block} {b : Block} (h : Distinct (before ++ b :: after)) :
    b.1 ∉ before.map (·.1) ∧ b.1 ∉ after.map (·.1) := by
  have hnames := h.names
  rw [List.map_append, List.map_cons, List.nodup_middle, List.nodup_cons, List.mem_append, not_or] at hnames
  exact hnames.1

namespace Account

variable {a : Account}

theorem foldl_settings {name : Text} (ha : a.home = some name) (settings : List (Text × Text)) :
    (settings.map fun e => Item.setting e.1 e.2).foldl add a
      = { a with placed := (settings.map (name, ·)).reverse ++ a.placed } := by
  induction settings generalizing a with
  | nil => rfl
  | cons e settings ih =>
      have hadd : a.add (.setting e.1 e.2) = { a with placed := (name, e) :: a.placed } := by
        simp [add, ha]
      have hhome : (a.add (.setting e.1 e.2)).home = some name := by rw [hadd]; exact ha
      rw [List.map_cons, List.foldl_cons, ih hhome, hadd]
      simp

theorem fitsAll_settings {name : Text} (ha : a.home = some name) {settings : List (Text × Text)}
    (hkeys : (settings.map (·.1)).Nodup)
    (hnew : ∀ x ∈ a.placed, x.1 = name → x.2.1 ∉ settings.map (·.1)) :
    a.FitsAll (settings.map fun e => Item.setting e.1 e.2) := by
  induction settings generalizing a with
  | nil => trivial
  | cons e settings ih =>
      rw [List.map_cons, List.nodup_cons] at hkeys
      have hadd : a.add (.setting e.1 e.2) = { a with placed := (name, e) :: a.placed } := by
        simp [add, ha]
      refine ⟨⟨name, ha, fun x hx hhome hkey => hnew x hx hhome ?_⟩, ?_⟩
      · rw [hkey]
        exact List.mem_cons_self
      · rw [hadd]
        refine ih ha hkeys.2 fun x hx hhome hmem => ?_
        rcases List.mem_cons.mp hx with rfl | hx
        · exact hkeys.1 hmem
        · exact hnew x hx hhome (List.mem_cons_of_mem _ hmem)

theorem foldl_block (b : Block) : b.items.foldl add a
    = ⟨b.1 :: a.sections, some b.1, (b.2.map (b.1, ·)).reverse ++ a.placed⟩ := by
  rw [Block.items, List.foldl_cons, foldl_settings (a := a.add (.header b.1)) rfl]
  rfl

/-- Options stand in sections that have begun. -/
def Settled (a : Account) : Prop :=
  ∀ x ∈ a.placed, x.1 ∈ a.sections

theorem Settled.block (h : a.Settled) (b : Block) : (b.items.foldl add a).Settled := by
  rw [foldl_block]
  intro x hx
  rcases List.mem_append.mp hx with hx | hx
  · obtain ⟨e, -, rfl⟩ := List.mem_map.mp (List.mem_reverse.mp hx)
    exact List.mem_cons_self
  · exact List.mem_cons_of_mem _ (h x hx)

theorem Settled.fitsAll_block (h : a.Settled) {b : Block} (hdefault : b.1 ≠ defaultSection)
    (hnew : b.1 ∉ a.sections) (hkeys : (b.2.map (·.1)).Nodup) : a.FitsAll b.items := by
  refine ⟨⟨hdefault, hnew⟩, fitsAll_settings (a := a.add (.header b.1)) rfl hkeys ?_⟩
  intro x hx hhome
  exact absurd (hhome ▸ h x hx) hnew

/-- Sections are said one after the other. -/
theorem Settled.blocks (h : a.Settled) {bs : List Block} (hbs : Distinct bs)
    (hnew : ∀ b ∈ bs, b.1 ∉ a.sections) : a.FitsAll (bs.flatMap Block.items) ∧
      ((bs.flatMap Block.items).foldl add a).sections = (bs.map (·.1)).reverse ++ a.sections ∧
      ((bs.flatMap Block.items).foldl add a).placed = (placedIn bs).reverse ++ a.placed := by
  induction bs generalizing a with
  | nil => exact ⟨trivial, rfl, rfl⟩
  | cons b bs ih =>
      have hnodup := hbs.names
      rw [List.map_cons, List.nodup_cons] at hnodup
      have hrest : Distinct bs :=
        { names := hnodup.2
          ordinary := fun c hc => hbs.ordinary c (List.mem_cons_of_mem b hc)
          keys := fun c hc => hbs.keys c (List.mem_cons_of_mem b hc) }
      have hnew' : ∀ c ∈ bs, c.1 ∉ (b.items.foldl add a).sections := by
        rw [foldl_block]
        intro c hc hmem
        rcases List.mem_cons.mp hmem with heq | hmem
        · exact hnodup.1 (heq ▸ List.mem_map_of_mem hc)
        · exact hnew c (List.mem_cons_of_mem b hc) hmem
      obtain ⟨hfits, hsections, hplaced⟩ := ih (h.block b) hrest hnew'
      rw [List.flatMap_cons, List.foldl_append, hsections, hplaced, fitsAll_append, foldl_block]
      refine ⟨⟨?_, foldl_block (a := a) b ▸ hfits⟩, by simp, by simp [placedIn]⟩
      exact h.fitsAll_block (hbs.ordinary b (by simp)) (hnew b (by simp)) (hbs.keys b (by simp))

end Account

/-! ## The file -/

/-- A text that writes sections: its rows say what they hold, and only that. Line ends may be of any
    kind, and the last row may have none. -/
def IsFileOf (bs : List Block) (text : Text) : Prop :=
  ∃ rows, Renders (bs.flatMap Block.items) rows ∧ (∀ row ∈ rows, '\n' ∉ row) ∧
    Text.unifyLineEnds text = Text.joinWith ['\n'] rows

theorem lines_line {l : Text} (h : '\n' ∉ l) (s : Text) :
    Text.lines (l ++ '\n' :: s) = (l ++ ['\n']) :: Text.lines s := by
  induction l with
  | nil => exact Text.consLine_feed _
  | cons c l ih =>
      rw [List.mem_cons, not_or] at h
      rw [List.cons_append, Text.lines_cons, ih h.2, Text.consLine, if_neg (Ne.symm h.1)]
      rfl

theorem lines_row {row : Text} (h : '\n' ∉ row) (hne : row ≠ []) : Text.lines row = [row] := by
  induction row with
  | nil => exact absurd rfl hne
  | cons c row ih =>
      rw [List.mem_cons, not_or] at h
      cases row with
      | nil => rfl
      | cons d row =>
          rw [Text.lines_cons, ih h.2 (by simp), Text.consLine, if_neg (Ne.symm h.1)]

/-- The lines of a text of rows are its rows, but for an empty one at the end. -/
theorem lines_joinWith {rows : List Text} (h : ∀ row ∈ rows, '\n' ∉ row) :
    List.Forall₂ IsLineOf (Text.lines (Text.joinWith ['\n'] rows)) rows ∨
      ∃ kept, rows = kept ++ [[]] ∧
        List.Forall₂ IsLineOf (Text.lines (Text.joinWith ['\n'] rows)) kept := by
  induction rows with
  | nil => exact .inl .nil
  | cons row rows ih =>
      obtain ⟨hrow, hrows⟩ := List.forall_mem_cons.mp h
      cases rows with
      | nil =>
          -- only an empty last row makes no line
          by_cases hne : row = []
          · exact .inr ⟨[], by rw [hne]; rfl, by rw [hne]; exact .nil⟩
          · rw [Text.joinWith, lines_row hrow hne]
            exact .inl (.cons ⟨[], rfl, (List.append_nil row).symm⟩ .nil)
      | cons next rows =>
          have hline : IsLineOf (row ++ ['\n']) row := ⟨['\n'], by decide, rfl⟩
          have hlines : Text.lines (Text.joinWith ['\n'] (row :: next :: rows))
              = (row ++ ['\n']) :: Text.lines (Text.joinWith ['\n'] (next :: rows)) := by
            rw [Text.joinWith, List.append_assoc]
            exact lines_line hrow _
          rw [hlines]
          rcases ih hrows with hall | ⟨kept, hkept, hall⟩
          · exact .inl (.cons hline hall)
          · exact .inr ⟨row :: kept, by rw [hkept]; rfl, .cons hline hall⟩

/-- The document of a file has its sections and its options. -/
theorem ofBytes_file {bs : List Block} (hbs : Distinct bs) {text : Text} (htext : IsFileOf bs text) :
    ∃ d, Document.ofBytes (Utf8.encode text) = .ok d ∧ d.sections = bs.map (·.1) ∧
      List.Forall₂ Entry.Holds d.entries (placedIn bs) := by
  obtain ⟨rows, hrenders, hbreak, hrows⟩ := htext
  obtain ⟨kept, hkept, hlines⟩ : ∃ kept, Renders (bs.flatMap Block.items) kept ∧
      List.Forall₂ IsLineOf (Text.lines (Text.unifyLineEnds text)) kept := by
    rw [hrows]
    rcases lines_joinWith hbreak with h | ⟨kept, rfl, h⟩
    · exact ⟨rows, hrenders, h⟩
    · exact ⟨kept, hrenders.of_append_nil, h⟩
  have hstart : ({} : Progress).HasRead {} := ⟨rfl, rfl, .nil, rfl, rfl⟩
  have hsettled : ({} : Account).Settled := by simp [Account.Settled]
  obtain ⟨hfits, hsections, hplaced⟩ := hsettled.blocks hbs (by simp)
  obtain ⟨p, hp, hread⟩ := hstart.readLines hkept hlines hfits 1
  rw [List.append_nil] at hsections hplaced
  have hentries := hread.entries
  rw [hplaced] at hentries
  refine ⟨⟨p.sections.reverse, p.entries.reverse⟩, ?_, ?_, ?_⟩
  · rw [Document.ofBytes_encode, Progress.readRest, hp]
    simp only [Progress.finish, hread.unread]
    rfl
  · rw [hread.sections, hsections, List.reverse_reverse]
  · rw [← List.forall₂_reverse_iff, List.reverse_reverse]
    exact hentries

/-! ## The options of the section that counts -/

theorem filter_placedIn_of_not_mem {bs : List Block} {home : Text} (h : home ∉ bs.map (·.1)) :
    (placedIn bs).filter (·.1 == home) = [] := by
  rw [List.filter_eq_nil_iff]
  intro x hx
  obtain ⟨b, hb, hx⟩ := List.mem_flatMap.mp hx
  obtain ⟨e, -, rfl⟩ := List.mem_map.mp hx
  rw [beq_iff_eq]
  rintro rfl
  exact h (List.mem_map_of_mem hb)

theorem filter_placedIn {before after : List Block} {home : Text} {settings : List (Text × Text)}
    (hbefore : home ∉ before.map (·.1)) (hafter : home ∉ after.map (·.1)) :
    (placedIn (before ++ (home, settings) :: after)).filter (·.1 == home) = settings.map (home, ·) := by
  have hsplit : placedIn (before ++ (home, settings) :: after)
      = placedIn before ++ (settings.map (home, ·) ++ placedIn after) := by
    simp [placedIn]
  have hown : (settings.map (home, ·)).filter (·.1 == home) = settings.map (home, ·) := by
    rw [List.filter_eq_self]
    intro x hx
    obtain ⟨e, -, rfl⟩ := List.mem_map.mp hx
    exact beq_self_eq_true home
  rw [hsplit, List.filter_append, List.filter_append, filter_placedIn_of_not_mem hbefore,
    filter_placedIn_of_not_mem hafter, hown, List.nil_append, List.append_nil]

theorem entriesOf_holds {d : Document} {placed : List Placed}
    (h : List.Forall₂ Entry.Holds d.entries placed) (home : Text) :
    List.Forall₂ Entry.Holds (d.entriesOf home) (placed.filter (·.1 == home)) := by
  refine List.rel_filter (fun e x hex => ?_) h
  simp only [hex.home]

/-- Where there are no defaults, only the options of the section count. -/
theorem merged_of_no_defaults {d : Document} (h : d.entriesOf defaultSection = []) (home : Text) :
    d.merged home = d.entriesOf home := by
  simp [Document.merged, h]

theorem joinWith_replicate (s : Text) (k : Nat) :
    Text.joinWith ['\n'] (s :: List.replicate k []) = s ++ List.replicate k '\n' := by
  induction k generalizing s with
  | zero => simp [Text.joinWith]
  | succ k ih =>
      rw [List.replicate_succ, Text.joinWith, ih, List.replicate_succ, List.append_assoc]
      rfl

theorem Entry.Holds.value {e : Entry} {x : Placed} (h : e.Holds x) : e.value = x.2.2.trim := by
  obtain ⟨k, hk⟩ := h.lines
  have hblank : Text.isAllBlank (List.replicate k '\n') = true := by
    rw [Text.isAllBlank, List.all_eq_true]
    intro c hc
    rw [List.eq_of_mem_replicate hc]
    decide
  rw [Entry.value, hk, joinWith_replicate, Text.trimRight_append_blank hblank, Text.trim,
    Text.trimRight_trimRight]

theorem segments_of_not_mem {s : Text} (h : '%' ∉ s) : segments s = s.map .literal := by
  unfold segments
  induction s with
  | nil => rfl
  | cons c s ih =>
      rw [List.mem_cons, not_or] at h
      rw [segmentsFrom, if_neg (Ne.symm h.1), ih h.2]
      rfl

/-- A value without a percent sign stands for itself. -/
theorem expand_of_not_mem {s : Text} (h : '%' ∉ s) (values : List (Text × Text)) (levels : Nat) :
    expand values (levels + 1) s = .ok s := by
  rw [expand, segments_of_not_mem h]
  clear h
  induction s with
  | nil => rfl
  | cons c s ih => rw [List.map_cons, expandSegments, ih]; rfl

theorem assign_of_not_mem {entries : Entries} {name : Text} (h : name ∉ entries.names) (value : Setting) :
    entries.assign name value = entries ++ [(name, value)] := by
  induction entries with
  | nil => rfl
  | cons e entries ih =>
      obtain ⟨n, v⟩ := e
      rw [Entries.names, List.map_cons, List.mem_cons, not_or] at h
      rw [Entries.assign, if_neg (Ne.symm h.1), ih h.2]
      rfl

/-- Values under different host names are collected as they are. -/
theorem collect_holds {path : Text} {values : List (Text × Text)} {found : Entries} {es : List Entry}
    {home : Text} {settings : List (Text × Text)}
    (h : List.Forall₂ Entry.Holds es (settings.map (home, ·)))
    (hvalues : ∀ e ∈ settings, '%' ∉ e.2 ∧ e.2.trim = e.2)
    (hnodup : (found.names ++ settings.map fun e => hostNameOf e.1).Nodup) :
    collect path values found es
      = .ok (found ++ settings.map fun e => (hostNameOf e.1, .text e.2)) := by
  induction settings generalizing found es with
  | nil =>
      cases h
      rw [collect, List.map_nil, List.append_nil]
  | cons e settings ih =>
      obtain ⟨entry, es, hentry, hrest, rfl⟩ := List.forall₂_cons_right_iff.mp h
      obtain ⟨⟨hpercent, htrim⟩, hothers⟩ := List.forall_mem_cons.mp hvalues
      have hvalue : entry.value = e.2 := hentry.value.trans htrim
      have hexpand : expand values maxDepth entry.value = .ok e.2 := by
        rw [hvalue]
        exact expand_of_not_mem hpercent values 9
      have hnew : hostNameOf e.1 ∉ found.names := by
        rw [List.map_cons, List.nodup_append] at hnodup
        exact fun hmem => hnodup.2.2 _ hmem _ (by simp) rfl
      rw [collect, hexpand]
      simp only [htrim, hentry.name]
      rw [assign_of_not_mem hnew, ih hrest hothers (by simpa [Entries.names] using hnodup)]
      simp

end Config

/-! ## Values -/

/-- The ways to write a value of an option: a choice as it is spelled, and a number in digits. -/
inductive OptionName.WrittenAs (option : OptionName) : Setting → Text → Prop where
  | choice {s : Text} (h : option.allows (.text s) = true) : WrittenAs option (.text s) s
  | count {n : Nat} {s : Text} (h : option.allows (.number n) = true) (hs : SpellsNat s n) :
      WrittenAs option (.number n) s

namespace OptionName.WrittenAs

variable {option : OptionName} {value : Setting} {s : Text} (h : option.WrittenAs value s)

include h

theorem check : Validation.check option (.text s) = .ok value := by
  cases h with
  | choice h => exact Validation.check_of_allows h
  | count h hs =>
      cases hc : option.spec.kind.choices? with
      | some choices =>
          obtain ⟨t, ht, -⟩ := (allows_of_choices hc).mp h
          cases ht
      | none =>
          have hread : readInt? s = some (_ : Nat) :=
            readInt?_eq_some_iff.mpr ⟨[], s, [], by simp, by simp, by simp, .plain hs⟩
          simp only [Validation.check, hc, Validation.readCount, hread]
          exact if_neg (by omega)

theorem plain : '%' ∉ s ∧ s.trim = s := by
  cases h with
  | choice h =>
      cases hc : option.spec.kind.choices? with
      | none =>
          obtain ⟨n, hn, -⟩ := (allows_of_count hc).mp h
          cases hn
      | some choices =>
          obtain ⟨t, ht, hmem⟩ := (allows_of_choices hc).mp h
          obtain rfl := Setting.text.inj ht
          have hword := oneWord_choice hc hmem
          exact ⟨hword.not_mem (by decide), Text.trim_eq_self fun c => hword.isBlank_of_mem⟩
  | count h hs =>
      obtain ⟨ds, hrun, -⟩ := hs
      refine ⟨fun hmem => ?_, Text.trim_eq_self fun c => hrun.isBlank_of_mem⟩
      rcases hrun.digit_of_mem hmem with h | ⟨d, hd⟩
      · exact absurd h (by decide)
      · exact ne_of_digitValue? hd (show digitValue? '%' = none by decide) rfl

end OptionName.WrittenAs

/-- A valid value may be written as it is displayed. -/
theorem OptionName.Valid.writtenAs {option : OptionName} {value : Setting} (h : option.Valid value) :
    option.WrittenAs value value.display := by
  have hallowed := h.allowed
  rcases h.cases with ⟨choices, s, -, -, rfl⟩ | ⟨-, n, hn, rfl, -⟩
  · exact .choice hallowed
  · have hdigits : Setting.display (.number n) = Nat.toDigits 10 n.natAbs := if_neg (by omega)
    obtain ⟨k, rfl⟩ := Int.eq_ofNat_of_zero_le hn
    rw [hdigits]
    exact .count hallowed (readNat?_eq_some_iff.mp (readNat?_toDigits (h.bounded k rfl)))

/-- Values pass the validation as they are written. -/
theorem validate_written {write : OptionName × Setting → Text} {v : Assignment}
    (h : ∀ e ∈ v, e.1.WrittenAs e.2 (write e)) :
    validate (v.map fun e => (e.1.hostName, .text (write e))) = .ok v.entries := by
  induction v with
  | nil => rfl
  | cons e v ih =>
      obtain ⟨he, hv⟩ := List.forall_mem_cons.mp h
      rw [List.map_cons, validate, Validation.checkEntry_text, OptionName.ofHostName?_hostName]
      simp only [he.check, ih hv]
      rfl

namespace Config

/-- What is loaded from a file is what its section holds, validated: other sections add nothing. -/
theorem load_section {before after : List Block} {settings : List (Text × Text)} {text : Text}
    (hbs : Distinct (before ++ (sectionName, settings) :: after))
    (htext : IsFileOf (before ++ (sectionName, settings) :: after) text)
    (hvalues : ∀ e ∈ settings, '%' ∉ e.2 ∧ e.2.trim = e.2)
    (hhosts : (settings.map fun e => hostNameOf e.1).Nodup) (path : Text) :
    load path (.file (Utf8.encode text))
      = (validate (settings.map fun e => (hostNameOf e.1, .text e.2))).mapError .value := by
  obtain ⟨d, hd, hsections, hentries⟩ := ofBytes_file hbs htext
  have hcontains : d.sections.contains sectionName = true := by
    rw [hsections]
    simp
  have hnone : d.entriesOf defaultSection = [] := by
    have hdefault : defaultSection ∉ (before ++ (sectionName, settings) :: after).map (·.1) := by
      intro hmem
      obtain ⟨b, hb, hname⟩ := List.mem_map.mp hmem
      exact hbs.ordinary b hb hname
    have hholds := entriesOf_holds hentries defaultSection
    rw [filter_placedIn_of_not_mem hdefault] at hholds
    exact List.forall₂_nil_right_iff.mp hholds
  have hown : List.Forall₂ Entry.Holds (d.entriesOf sectionName) (settings.map (sectionName, ·)) := by
    have hholds := entriesOf_holds hentries sectionName
    rwa [filter_placedIn hbs.not_mem.1 hbs.not_mem.2] at hholds
  have hcollect : collect path ((d.entriesOf sectionName).map fun e => (e.name, e.value)) []
      (d.entriesOf sectionName) = .ok ([] ++ settings.map fun e => (hostNameOf e.1, .text e.2)) :=
    collect_holds hown hvalues hhosts
  rw [load, hd]
  simp only [Document.options, hcontains, if_true, merged_of_no_defaults hnone, hcollect, List.nil_append]

/-- Under which of its names each option of an assignment stands in a config file. -/
def IsNaming (names : OptionName → Text) : Prop :=
  ∀ option, names option = option.hostName ∨ names option = option.fieldName

section

variable {names : OptionName → Text} (hnames : IsNaming names) {write : OptionName × Setting → Text}
  {v : Assignment} (hv : (v.map (·.1)).Nodup)

include hnames

theorem IsNaming.hosts (option : OptionName) : hostNameOf (names option) = option.hostName :=
  hostNameOf_eq_iff.mpr (hnames option)

include hv

/-- Different options have different host names, whichever of their names they go by. -/
theorem IsNaming.nodup_hosts : ((v.map fun e => (names e.1, write e)).map fun e => hostNameOf e.1).Nodup := by
  have hmap : ((v.map fun e => (names e.1, write e)).map fun e => hostNameOf e.1)
      = (v.map (·.1)).map OptionName.hostName := by
    simp [hnames.hosts]
  rw [hmap]
  exact hv.map fun _ _ h => OptionName.hostName_inj h

theorem IsNaming.nodup : ((v.map fun e => (names e.1, write e)).map (·.1)).Nodup := by
  apply List.Nodup.of_map hostNameOf
  rw [List.map_map]
  exact hnames.nodup_hosts hv

/-- The section of an assignment in writing gives the assignment. -/
theorem load_assignment (hwritten : ∀ e ∈ v, e.1.WrittenAs e.2 (write e)) {before after : List Block}
    {text : Text} (hbs : Distinct (before ++ (sectionName, v.map fun e => (names e.1, write e)) :: after))
    (htext : IsFileOf (before ++ (sectionName, v.map fun e => (names e.1, write e)) :: after) text)
    (path : Text) : load path (.file (Utf8.encode text)) = .ok v.entries := by
  have hvalues : ∀ x ∈ v.map fun e => (names e.1, write e), '%' ∉ x.2 ∧ x.2.trim = x.2 := by
    intro x hx
    obtain ⟨e, he, rfl⟩ := List.mem_map.mp hx
    exact (hwritten e he).plain
  have hfound : ((v.map fun e => (names e.1, write e)).map fun e => (hostNameOf e.1, Setting.text e.2))
      = v.map fun e => (e.1.hostName, .text (write e)) := by
    simp [hnames.hosts]
  rw [load_section hbs htext hvalues (hnames.nodup_hosts hv) path, hfound, validate_written hwritten]
  rfl

end

/-- A config file gives the options of its section what it says, whatever sections are around it: under
    their host names, in the order of the file. -/
theorem load_file {names texts : OptionName → Text} {v : Assignment} {before after : List Block}
    {text : Text} (hnames : IsNaming names) (hv : (v.map (·.1)).Nodup)
    (hwritten : ∀ e ∈ v, e.1.WrittenAs e.2 (texts e.1)) (hothers : Distinct (before ++ after))
    (hown : sectionName ∉ (before ++ after).map (·.1))
    (htext : IsFileOf (before ++ (sectionName, v.map fun e => (names e.1, texts e.1)) :: after) text)
    (path : Text) : load path (.file (Utf8.encode text)) = .ok v.entries := by
  have hbs := hothers.insert (b := (sectionName, v.map fun e => (names e.1, texts e.1))) hown
    (show sectionName ≠ defaultSection by decide) (hnames.nodup hv)
  exact load_assignment hnames hv hwritten hbs htext path

/-- Two options between other sections, with comments and blank lines. -/
theorem load_file_amid_sections :
    let text : Text := ("; style\n[tool]\nname = 100%\n\n[sql_restyle]\n# case\n" ++
      "keyword_case : lower \r\n  \nmaxColumnLength=0120\n[end]").toList
    IsFileOf [("tool".toList, [("name".toList, "100%".toList)]),
      (sectionName, [("keyword_case".toList, "lower".toList), ("maxColumnLength".toList, "0120".toList)]),
      ("end".toList, [])] text ∧
    load "style.ini".toList (.file (Utf8.encode text))
      = .ok [("keywordCase".toList, .text "lower".toList), ("maxColumnLength".toList, .number 120)] := by
  intro text
  let names : OptionName → Text := fun option =>
    if option = .keywordCase then option.fieldName else option.hostName
  let texts : OptionName → Text := fun option =>
    if option = .keywordCase then "lower".toList else "0120".toList
  let v : Assignment := [(.keywordCase, .text "lower".toList), (.maxColumnLength, .number (120 : Nat))]
  let before : List Block := [("tool".toList, [("name".toList, "100%".toList)])]
  let after : List Block := [("end".toList, [])]
  have hnames : IsNaming names := by
    intro option
    cases option <;> simp [names]
  have hwritten : ∀ e ∈ v, e.1.WrittenAs e.2 (texts e.1) :=
    List.forall_mem_cons.mpr ⟨.choice (by decide), List.forall_mem_cons.mpr
      ⟨.count (by decide) (readNat?_eq_some_iff.mp (by decide)), by simp⟩⟩
  have hothers : Distinct (before ++ after) := ⟨by decide, by decide, by decide⟩
  have hkey : ∀ name ∈ ["name".toList, "keyword_case".toList, "maxColumnLength".toList], IsKey name := by
    intro name hname
    refine isKey_of_oneWord ⟨?_, ?_⟩
    · revert name
      decide
    · revert name
      decide
  have hspace : Text.isAllBlank [' '] = true := by decide
  have htool : Writes (.setting "name".toList "100%".toList) "name = 100%".toList :=
    .setting (hkey _ (by decide)) (show isDelimiter '=' = true by decide) hspace hspace
      Text.isAllBlank_nil (.inl (by decide))
  have hcase : Writes (.setting "keyword_case".toList "lower".toList) "keyword_case : lower ".toList :=
    .setting (hkey _ (by decide)) (show isDelimiter ':' = true by decide) hspace hspace hspace
      (.inl (by decide))
  have hcount : Writes (.setting "maxColumnLength".toList "0120".toList) "maxColumnLength=0120".toList :=
    .setting (hkey _ (by decide)) (show isDelimiter '=' = true by decide) Text.isAllBlank_nil
      Text.isAllBlank_nil Text.isAllBlank_nil (.inl (by decide))
  have hheader : ∀ name : Text, name ≠ [] → Writes (.header name) ('[' :: (name ++ [']'])) :=
    fun _ hname => .header hname
  have htext : IsFileOf (before ++ (sectionName, v.map fun e => (names e.1, texts e.1)) :: after) text := by
    refine ⟨["; style".toList, "[tool]".toList, "name = 100%".toList, [], "[sql_restyle]".toList,
      "# case".toList, "keyword_case : lower ".toList, "  ".toList, "maxColumnLength=0120".toList,
      "[end]".toList], ?_, by decide, by decide +kernel⟩
    exact .noise (.comment Text.isAllBlank_nil (.inr rfl)) <| .item (hheader "tool".toList (by decide)) <|
      .item htool <| .noise (.blank rfl) <| .item (hheader sectionName (by decide)) <|
      .noise (.comment Text.isAllBlank_nil (.inl rfl)) <| .item hcase <| .noise (.blank (by decide)) <|
      .item hcount <| .item (hheader "end".toList (by decide)) .nil
  exact ⟨htext, load_file hnames (by decide) hwritten hothers (by decide) htext _⟩

end Config

end SqlLayout
