import Mathlib.Data.List.Nodup
import SqlLayout.Config.Blocks

/-! # What reading a document keeps

A document is read line by line, in as many blocks as there are. What holds at the start and is kept by
every line holds at the end. So every option stands in a section that has begun, and none stands twice in
its section.
-/

namespace SqlLayout.Config

/-- The section and the name of an option. -/
def Entry.key (e : Entry) : Text × Text :=
  (e.home, e.name)

namespace Progress

section

variable {p : Progress} {d : Document} {number : Nat}

theorem finish_ok (h : p.finish = .ok d) : d = ⟨p.sections.reverse, p.entries.reverse⟩ := by
  unfold finish at h
  split at h
  · exact (Except.ok.inj h).symm
  · simp at h

/-! ## Runs -/

variable {Inv : Progress → Prop}
  (keep : ∀ {p next : Progress} {number : Nat} {raw : Text}, Inv p → p.readLine number raw = .ok next → Inv next)

include keep

theorem readLines_keeps {q : Progress} {lines : List Text} (hp : Inv p)
    (h : p.readLines number lines = .ok q) : Inv q := by
  induction lines generalizing p number with
  | nil => exact Except.ok.inj h ▸ hp
  | cons raw rest ih =>
      rw [readLines] at h
      cases hraw : p.readLine number raw with
      | error fault => simp [hraw] at h
      | ok next =>
          simp only [hraw] at h
          exact ih (keep hp hraw) h

theorem readRest_keeps {lines : List Text} (hp : Inv p) (h : p.readRest number lines = .ok d) :
    ∃ q, Inv q ∧ q.finish = .ok d := by
  unfold readRest at h
  split at h
  · simp at h
  · rename_i q hq
    exact ⟨q, readLines_keeps keep hp hq, h⟩

theorem readBlocks_keeps {bytes : Bytes} {text : Text} {blocks : List Bytes} (hp : Inv p)
    (h : p.readBlocks number bytes text blocks = .ok d) : ∃ q, Inv q ∧ q.finish = .ok d := by
  induction blocks generalizing p number bytes text with
  | nil =>
      rw [readBlocks] at h
      split at h
      · simp at h
      · cases hrest : p.readRest number (Text.lines (Text.unifyLineEnds text)) with
        | error fault =>
            rw [hrest] at h
            cases h
        | ok _ =>
            rw [hrest] at h
            obtain rfl := Except.ok.inj h
            exact readRest_keeps keep hp hrest
  | cons block rest ih =>
      rw [readBlocks] at h
      split at h
      · simp at h
      · simp only at h
        split at h
        · simp at h
        · rename_i q hq
          exact ih (readLines_keeps keep hp hq) h

theorem ofBytes_keeps {bytes : Bytes} (hstart : Inv {}) (h : Document.ofBytes bytes = .ok d) :
    ∃ q, Inv q ∧ q.finish = .ok d :=
  readBlocks_keeps keep hstart h

end

/-! ## Sections and options -/

/-- Options stand in sections that have begun, or are defaults, and none stands twice. -/
structure Tidy (p : Progress) : Prop where
  current : ∀ name, p.current = some name → name = defaultSection ∨ name ∈ p.sections
  home : ∀ e ∈ p.entries, e.home = defaultSection ∨ e.home ∈ p.sections
  nodup : (p.entries.map Entry.key).Nodup

variable {p next : Progress} {number : Nat} {raw : Text}

theorem Tidy.extend (h : p.Tidy) (line : Text) : (p.extend line).Tidy := by
  unfold Progress.extend
  split
  · split
    · exact h
    · rename_i e rest hentries
      have hhome := h.home
      have hnodup := h.nodup
      rw [hentries] at hhome hnodup
      exact
        { current := h.current
          home := List.forall_mem_cons.mpr (List.forall_mem_cons.mp hhome)
          nodup := hnodup }
  · exact h

theorem Tidy.openSection {name : Text} (h : p.Tidy) (hopen : p.openSection number name = .ok next) :
    next.Tidy := by
  unfold Progress.openSection at hopen
  split at hopen
  · rename_i hname
    cases hopen
    exact
      { current := fun other hother => .inl (Option.some.inj hother ▸ hname)
        home := h.home
        nodup := h.nodup }
  · split at hopen
    · simp at hopen
    · cases hopen
      exact
        { current := fun other hother => .inr (by simp [Option.some.inj hother])
          home := fun e he => (h.home e he).imp_right (List.mem_cons_of_mem _)
          nodup := h.nodup }

theorem Tidy.addOption {home name value : Text} (h : p.Tidy) (hhome : p.current = some home)
    (hadd : p.addOption number raw home name value = .ok next) : next.Tidy := by
  unfold Progress.addOption at hadd
  split at hadd
  · simp at hadd
  · rename_i hnew
    cases hadd
    refine
      { current := h.current
        home := List.forall_mem_cons.mpr ⟨h.current home hhome, h.home⟩
        nodup := List.nodup_cons.mpr ⟨fun hmem => hnew ?_, h.nodup⟩ }
    obtain ⟨e, he, heq⟩ := List.mem_map.mp hmem
    obtain ⟨rfl, rfl⟩ := Prod.mk.inj heq
    exact List.any_eq_true.mpr ⟨e, he, by simp⟩

theorem Tidy.readContent {text : Text} (h : p.Tidy) (hread : p.readContent number raw text = .ok next) :
    next.Tidy := by
  unfold Progress.readContent at hread
  split at hread
  · exact h.openSection hread
  · simp at hread
  · rename_i hhome
    exact h.addOption hhome hread
  · cases hread
    exact ⟨h.current, h.home, h.nodup⟩

theorem Tidy.readLine (h : p.Tidy) (hread : p.readLine number raw = .ok next) : next.Tidy := by
  unfold Progress.readLine at hread
  split at hread
  · exact Except.ok.inj hread ▸ h
  · exact Except.ok.inj hread ▸ h.extend []
  · split at hread
    · exact Except.ok.inj hread ▸ h.extend _
    · rename_i indent _ _ _
      have hindented : Tidy { p with indent } := ⟨h.current, h.home, h.nodup⟩
      exact hindented.readContent hread

end Progress

namespace Document

/-- Options stand in sections that are there, or are defaults, and none stands twice. -/
structure Tidy (d : Document) : Prop where
  home : ∀ e ∈ d.entries, e.home = defaultSection ∨ e.home ∈ d.sections
  nodup : (d.entries.map Entry.key).Nodup

theorem tidy_ofBytes {bytes : Bytes} {d : Document} (h : ofBytes bytes = .ok d) : d.Tidy := by
  obtain ⟨q, hq, hfinish⟩ :=
    Progress.ofBytes_keeps Progress.Tidy.readLine ⟨by simp, by simp, by simp⟩ h
  obtain rfl := Progress.finish_ok hfinish
  exact
    { home := fun e he => by simpa using hq.home e (List.mem_reverse.mp he)
      nodup := by simpa only [List.map_reverse, List.nodup_reverse] using hq.nodup }

theorem mem_entriesOf {d : Document} {home : Text} {e : Entry} :
    e ∈ d.entriesOf home ↔ e ∈ d.entries ∧ e.home = home := by
  simp [entriesOf]

theorem Tidy.nodup_names {d : Document} (h : d.Tidy) (home : Text) :
    ((d.entriesOf home).map (·.name)).Nodup := by
  have hkeys : ((d.entriesOf home).map Entry.key).Nodup := h.nodup.sublist (List.filter_sublist.map _)
  have hpair : (d.entriesOf home).map Entry.key = ((d.entriesOf home).map (·.name)).map (home, ·) := by
    rw [List.map_map]
    refine List.map_congr_left fun e he => ?_
    rw [Entry.key, (mem_entriesOf.mp he).2]
    rfl
  exact List.Nodup.of_map _ (hpair ▸ hkeys)

theorem Tidy.mem_sections {d : Document} (h : d.Tidy) {e : Entry} {home : Text} (hne : home ≠ defaultSection)
    (he : e ∈ d.entriesOf home) : home ∈ d.sections := by
  obtain ⟨hmem, rfl⟩ := mem_entriesOf.mp he
  exact (h.home e hmem).resolve_left hne

end Document

end SqlLayout.Config
