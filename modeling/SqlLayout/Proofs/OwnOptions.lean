import SqlLayout.Proofs.DocumentReading
import SqlLayout.Proofs.LoadedOptions

/-! # Options of the section itself

The section that counts goes before the defaults, name by name. An option has two names, though, and a
default keeps its place among the defaults even if the section's own entry stands in for it. So the
section's own entry counts for an option, unless the defaults hold both names of it and the section only
the one that the defaults have first: then the other default counts.
-/

namespace SqlLayout.Config

/-- Whether an entry is for an option: it has one of its two names. -/
def Entry.Sets (e : Entry) (option : OptionName) : Prop :=
  e.name = option.hostName ∨ e.name = option.fieldName

theorem Entry.sets_iff {e : Entry} {option : OptionName} :
    e.Sets option ↔ hostNameOf e.name = option.hostName :=
  hostNameOf_eq_iff.symm

theorem Entry.Sets.congr {e e' : Entry} {option : OptionName} (h : e.Sets option) (hname : e'.name = e.name) :
    e'.Sets option := by
  rwa [Entry.Sets, hname]

/-- Of three entries for an option two have the same name. -/
theorem Entry.Sets.name_eq_or {e e' x : Entry} {option : OptionName} (h : e.Sets option)
    (h' : e'.Sets option) (hne : e.name ≠ e'.name) (hx : x.Sets option) :
    x.name = e.name ∨ x.name = e'.name := by
  rcases h with h | h <;> rcases h' with h' | h' <;> rcases hx with hx | hx <;> simp_all

/-- What stands after a first element in a list without duplicates. -/
theorem mem_after_of_sublist {α : Type} {before after : List α} {a b : α}
    (h : [a, b].Sublist (before ++ a :: after)) (hnodup : (before ++ a :: after).Nodup) : b ∈ after := by
  obtain ⟨l, r, heq, hl, hr⟩ := List.sublist_append_iff.mp h
  cases l with
  | nil =>
      obtain rfl : [a, b] = r := heq
      simpa using hr
  | cons c l =>
      obtain ⟨rfl, -⟩ := List.cons.inj heq
      have ha : a ∈ before := hl.subset (by simp)
      exact absurd (by simp) (List.disjoint_of_nodup_append hnodup ha)

namespace Document

variable {d : Document} {option : OptionName} {e : Entry}

/-- The raw values by which the options of the section that counts are expanded. -/
def values (d : Document) : List (Text × Text) :=
  (d.merged sectionName).map fun e => (e.name, e.value)

/-- Whether an option has the value of an entry: expanded, freed of blanks and checked. -/
def Yields (d : Document) (e : Entry) (option : OptionName) (loaded : Entries) : Prop :=
  ∃ s value, expand d.values maxDepth e.value = .ok s ∧
    Validation.check option (.text s.trim) = .ok value ∧ loaded.lookup option.hostName = some value

/-- A default that goes before the section's own entries for an option: another default for the option
    stands before it, and the section has no entry of its name. -/
structure Overrules (d : Document) (option : OptionName) (e : Entry) : Prop where
  second : ∃ first, [first, e].Sublist (d.entriesOf defaultSection) ∧ first.Sets option
  sets : e.Sets option
  alone : ∀ own ∈ d.entriesOf sectionName, own.name ≠ e.name

/-- What stands in the place of a default. -/
def standIn (d : Document) (e : Entry) : Entry :=
  ((d.entriesOf sectionName).find? (·.name == e.name)).getD e

theorem name_standIn (d : Document) (e : Entry) : (d.standIn e).name = e.name := by
  unfold standIn
  cases hown : (d.entriesOf sectionName).find? (·.name == e.name) with
  | none => rfl
  | some own => simpa using List.find?_some hown

/-- In the place of a default stands the section's own entry of its name, or else the default. -/
theorem standIn_cases (d : Document) (e : Entry) :
    d.standIn e ∈ d.entriesOf sectionName ∨
      d.standIn e = e ∧ ∀ own ∈ d.entriesOf sectionName, own.name ≠ e.name := by
  unfold standIn
  cases hown : (d.entriesOf sectionName).find? (·.name == e.name) with
  | none => exact .inr ⟨rfl, by simpa using hown⟩
  | some own => exact .inl (List.mem_of_find?_eq_some hown)

theorem standIn_of_alone (h : ∀ own ∈ d.entriesOf sectionName, own.name ≠ e.name) : d.standIn e = e := by
  unfold standIn
  rw [List.find?_eq_none.mpr (by simpa using h), Option.getD_none]

/-- The section's own entries of names that no default has. -/
def additions (d : Document) : List Entry :=
  (d.entriesOf sectionName).filter fun e => !(d.entriesOf defaultSection).any (·.name == e.name)

theorem merged_eq (d : Document) :
    d.merged sectionName = (d.entriesOf defaultSection).map d.standIn ++ d.additions := rfl

theorem mem_additions : e ∈ d.additions ↔
    e ∈ d.entriesOf sectionName ∧ ∀ x ∈ d.entriesOf defaultSection, x.name ≠ e.name := by
  simp [additions]

/-- Every name in the section is among the names that count. -/
theorem exists_name_merged (h : e ∈ d.entriesOf sectionName) : ∃ x ∈ d.merged sectionName, x.name = e.name := by
  rw [merged_eq]
  by_cases hdefault : ∃ x ∈ d.entriesOf defaultSection, x.name = e.name
  · obtain ⟨x, hx, hname⟩ := hdefault
    exact ⟨d.standIn x, List.mem_append_left _ (List.mem_map_of_mem hx), (d.name_standIn x).trans hname⟩
  · simp only [not_exists, not_and] at hdefault
    exact ⟨e, List.mem_append_right _ (mem_additions.mpr ⟨h, hdefault⟩), rfl⟩

/-- The last entry for an option that the section sets is one of the section's own, or overrules them. -/
theorem own_or_overrules {before after : List Entry}
    (hsplit : d.merged sectionName = before ++ e :: after) (he : e.Sets option)
    (hafter : ∀ x ∈ after, ¬x.Sets option) {own : Entry} (hown : own ∈ d.entriesOf sectionName)
    (hsets : own.Sets option) : e ∈ d.entriesOf sectionName ∨ d.Overrules option e := by
  rw [merged_eq, List.append_eq_append_iff] at hsplit
  obtain ⟨rest, -, hadditions⟩ | ⟨rest, hdefaults, hrest⟩ := hsplit
  · exact .inl (mem_additions.mp (hadditions ▸ by simp)).1
  rcases List.cons_eq_append_iff.mp hrest with ⟨rfl, hadditions⟩ | ⟨rest, rfl, rfl⟩
  · exact .inl (mem_additions.mp (hadditions ▸ by simp)).1
  -- the entry stands in the place of a default, which it is itself if the section has none of its name
  obtain ⟨befores, others, hplaces, rfl, hothers⟩ := List.map_eq_append_iff.mp hdefaults
  obtain ⟨place, afters, rfl, rfl, rfl⟩ := List.map_eq_cons_iff.mp hothers
  rcases d.standIn_cases place with hmem | ⟨heq, halone⟩
  · exact .inl hmem
  rw [heq] at he ⊢
  refine .inr ⟨?_, he, halone⟩
  -- a default of the name of the section's own entry stands before it
  obtain ⟨first, hfirst, hname⟩ : ∃ first ∈ d.entriesOf defaultSection, first.name = own.name := by
    by_contra hnone
    simp only [not_exists, not_and] at hnone
    exact hafter own (List.mem_append_right _ (mem_additions.mpr ⟨hown, hnone⟩)) hsets
  have hfirstSets := hsets.congr hname
  rw [hplaces] at hfirst ⊢
  rcases List.mem_append.mp hfirst with hfirst | hfirst
  · exact ⟨first, (List.singleton_sublist.mpr hfirst).append (List.singleton_sublist.mpr (by simp)), hfirstSets⟩
  rcases List.mem_cons.mp hfirst with rfl | hfirst
  · exact absurd hname.symm (halone own hown)
  · exact absurd (hfirstSets.congr (d.name_standIn first))
      (hafter _ (List.mem_append_left _ (List.mem_map_of_mem hfirst)))

/-- A default that overrules the section's own entries is the last entry for the option. -/
theorem Overrules.eq_last (h : d.Overrules option e) (hd : d.Tidy) {before after : List Entry} {x : Entry}
    (hsplit : d.merged sectionName = before ++ x :: after) (hx : x.Sets option)
    (hafter : ∀ y ∈ after, ¬y.Sets option) : x = e := by
  obtain ⟨⟨first, hsublist, hfirst⟩, he, halone⟩ := h
  have hnodup := hd.nodup_names defaultSection
  have hne : first.name ≠ e.name := by
    simpa using (hsublist.map (·.name)).nodup hnodup
  -- both names of the option are names of defaults, so the section adds no entry for it
  have hadditions : ∀ y ∈ d.additions, ¬y.Sets option := by
    intro y hy hsets
    rcases hfirst.name_eq_or he hne hsets with hname | hname
    · exact (mem_additions.mp hy).2 first (hsublist.subset (by simp)) hname.symm
    · exact (mem_additions.mp hy).2 e (hsublist.subset (by simp)) hname.symm
  rw [merged_eq, List.append_eq_append_iff] at hsplit
  obtain ⟨rest, -, hrest⟩ | ⟨rest, hdefaults, hrest⟩ := hsplit
  · exact absurd hx (hadditions x (hrest ▸ by simp))
  rcases List.cons_eq_append_iff.mp hrest with ⟨rfl, hadded⟩ | ⟨rest, rfl, rfl⟩
  · exact absurd hx (hadditions x (hadded ▸ by simp))
  obtain ⟨befores, others, hplaces, rfl, hothers⟩ := List.map_eq_append_iff.mp hdefaults
  obtain ⟨place, afters, rfl, rfl, rfl⟩ := List.map_eq_cons_iff.mp hothers
  rw [hplaces] at hsublist hnodup
  rcases hfirst.name_eq_or he hne (hx.congr (d.name_standIn place).symm) with hname | hname
  · obtain rfl : place = first :=
      List.inj_on_of_nodup_map hnodup (by simp) (hsublist.subset (by simp)) hname
    have hmem := mem_after_of_sublist hsublist hnodup.of_map
    exact absurd (he.congr (d.name_standIn e)) (hafter _ (List.mem_append_left _ (List.mem_map_of_mem hmem)))
  · obtain rfl : place = e :=
      List.inj_on_of_nodup_map hnodup (by simp) (hsublist.subset (by simp)) hname
    exact standIn_of_alone halone

/-- An option of a document that loads has the value of the last entry for it. -/
theorem exists_last {path : Text} {loaded : Entries} (hd : d.Tidy) (h : d.options path = .ok loaded)
    {own : Entry} (hown : own ∈ d.entriesOf sectionName) (hsets : own.Sets option) :
    ∃ before last after, d.merged sectionName = before ++ last :: after ∧ last.Sets option ∧
      (∀ x ∈ after, ¬x.Sets option) ∧ d.Yields last option loaded := by
  have hsection : d.sections.contains sectionName = true :=
    List.contains_iff_mem.mpr (hd.mem_sections (by decide) hown)
  rw [options, if_pos hsection] at h
  cases hfound : collect path ((d.merged sectionName).map fun e => (e.name, e.value)) []
      (d.merged sectionName) with
  | error fault => simp [hfound] at h
  | ok found =>
      simp only [hfound] at h
      cases hchecked : validate found with
      | error fault =>
          rw [hchecked] at h
          cases h
      | ok checked =>
          rw [hchecked] at h
          obtain rfl := Except.ok.inj h
          rcases lookup_collect hfound option.hostName with ⟨-, hnone⟩ | ⟨before, last, after, s, hsplit,
            hlast, hafter, hs, hlookup⟩
          · obtain ⟨x, hx, hname⟩ := exists_name_merged hown
            exact absurd (Entry.sets_iff.mp (hsets.congr hname)) (hnone x hx)
          · obtain ⟨value, hvalue, hloaded⟩ :=
              lookup_validate (textual_collect hfound (by simp [Entries.Textual])) hchecked hlookup
            exact ⟨before, last, after, hsplit, Entry.sets_iff.mpr hlast,
              fun x hx hsets => hafter x hx (Entry.sets_iff.mp hsets), s, value, hs, hvalue, hloaded⟩

end Document

/-- If the section that counts sets an option itself, the option has the value of one of the section's
    own entries, unless a default overrules them. Then it has the value of that default. -/
theorem load_own {path : Text} {bytes : Bytes} {loaded : Entries} (h : load path (.file bytes) = .ok loaded) :
    ∃ d, Document.ofBytes bytes = .ok d ∧ ∀ option, (∃ e ∈ d.entriesOf sectionName, e.Sets option) →
      ((∀ e, ¬d.Overrules option e) →
        ∃ e ∈ d.entriesOf sectionName, e.Sets option ∧ d.Yields e option loaded) ∧
      ∀ e, d.Overrules option e → d.Yields e option loaded := by
  rw [load] at h
  cases hd : Document.ofBytes bytes with
  | error fault => cases fault <;> simp [hd] at h
  | ok d =>
      simp only [hd] at h
      have htidy := Document.tidy_ofBytes hd
      refine ⟨d, rfl, fun option hset => ?_⟩
      obtain ⟨own, hown, hsets⟩ := hset
      obtain ⟨before, last, after, hsplit, hlast, hafter, hyields⟩ := Document.exists_last htidy h hown hsets
      refine ⟨fun hnone => ?_, fun e he => ?_⟩
      · have hmem := (Document.own_or_overrules hsplit hlast hafter hown hsets).resolve_right (hnone last)
        exact ⟨last, hmem, hlast, hyields⟩
      · exact he.eq_last htidy hsplit hlast hafter ▸ hyields

/-- The default has the other name, and there is only one. -/
theorem load_own_spellings :
    let bytes := Utf8.encode
      "[DEFAULT]\nkeywordCase = upper\n[sql_restyle]\nkeyword_case = preserve\n".toList
    ∃ d e loaded, Document.ofBytes bytes = .ok d ∧ load "style.ini".toList (.file bytes) = .ok loaded ∧
      e ∈ d.entriesOf sectionName ∧ d.Yields e .keywordCase loaded := by
  intro bytes
  have hloaded : load "style.ini".toList (.file bytes)
      = .ok [("keywordCase".toList, .text "preserve".toList)] := rfl
  obtain ⟨d, hd, hown⟩ := load_own hloaded
  have hdoc : Document.ofBytes bytes = .ok
      { sections := [sectionName]
        entries := [⟨defaultSection, "keywordCase".toList, ["upper".toList]⟩,
          ⟨sectionName, "keyword_case".toList, ["preserve".toList]⟩] } := rfl
  obtain rfl := Except.ok.inj (hd.symm.trans hdoc)
  have hsets : Entry.Sets ⟨sectionName, "keyword_case".toList, ["preserve".toList]⟩ .keywordCase := .inr rfl
  obtain ⟨e, he, -, hyields⟩ := (hown .keywordCase ⟨_, by decide, hsets⟩).1 fun e he => by
    obtain ⟨first, hsublist, -⟩ := he.second
    exact absurd hsublist.length_le (show ¬2 ≤ 1 by decide)
  exact ⟨_, e, _, hdoc, hloaded, he, hyields⟩

/-- The defaults have both names, and the section only the first of them. -/
theorem load_own_overruled :
    let bytes := Utf8.encode ("[DEFAULT]\nkeyword_case = upper\nkeywordCase = lower\n" ++
      "[sql_restyle]\nkeyword_case = preserve\n").toList
    ∃ d e loaded, Document.ofBytes bytes = .ok d ∧ load "style.ini".toList (.file bytes) = .ok loaded ∧
      d.entriesOf sectionName = [e] ∧ e.Sets .keywordCase ∧ e.value = "preserve".toList ∧
      loaded.lookup OptionName.keywordCase.hostName = some (.text "lower".toList) :=
  ⟨_, _, _, rfl, rfl, rfl, .inr rfl, rfl, rfl⟩

end SqlLayout.Config
