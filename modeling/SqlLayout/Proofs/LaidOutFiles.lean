import SqlLayout.Proofs.Encoding
import SqlLayout.Proofs.LineLayout
import SqlLayout.Proofs.Refilling
import SqlLayout.Proofs.Reformatting

/-! # Files that are laid out, and files that are due

A file that can be read as SQL is laid out if laying out its text gives that text again, and otherwise
something else is due to it. What was written into a file is read back as it was written, and laying
it out again gives the same text.
-/

namespace SqlLayout

/-! ## The text of a file -/

theorem mem_joinWith {separator : Text} {ls : List Text} {c : Char}
    (hc : c ∈ Text.joinWith separator ls) : c ∈ separator ∨ ∃ l ∈ ls, c ∈ l := by
  induction ls with
  | nil => simp [Text.joinWith] at hc
  | cons l ls ih =>
      cases ls with
      | nil => exact .inr ⟨l, by simp, hc⟩
      | cons k ls =>
          rw [Text.joinWith, List.mem_append, List.mem_append] at hc
          rcases hc with (hc | hc) | hc
          · exact .inr ⟨l, by simp, hc⟩
          · exact .inl hc
          · rcases ih hc with hsep | ⟨t, ht, hct⟩
            · exact .inl hsep
            · exact .inr ⟨t, by simp [ht], hct⟩

/-- The only blanks of a formatted text are spaces and line feeds. -/
theorem isBlank_of_mem_format {o : Options} {s : Text} {c : Char} (hc : c ∈ format o s)
    (hb : isBlank c = true) : c = ' ' ∨ c = '\n' := by
  obtain ⟨hs, ht⟩ := Spot.sound_read s
  rw [← Spot.write_read s, Spot.format_eq_joinWith o hs ht] at hc
  rcases mem_joinWith hc with hc | ⟨t, hmem, hc⟩
  · exact .inr (List.mem_singleton.mp hc)
  · obtain ⟨l, hl, rfl⟩ := List.mem_map.mp hmem
    exact .inl ((Spot.line_written o.style hs hl).1.spaces c hc hb)

namespace CommandLine

theorem format_withFinalNewline (o : Options) (s : Text) :
    format o (withFinalNewline (format o s)) = format o s := by
  have htwice : format o (format o s) = format o s := layOut_layOut _ _ _ s
  rw [withFinalNewline]
  split
  · rename_i h
    rw [← List.isEmpty_iff.mp h, htwice]
  · rw [format_append_blank o _ (by decide), htwice]

theorem not_mem_withFinalNewline (o : Options) (s : Text) : '\r' ∉ withFinalNewline (format o s) := by
  rw [withFinalNewline]
  split
  · simp
  · rw [List.mem_append, not_or]
    exact ⟨fun h => by simpa using isBlank_of_mem_format h (by decide), by decide⟩

/-! ## Reading a file -/

section

variable {access : Access} {o : Options} {t t' : Tree} {p q : Path} {sql output : Text}

theorem find_eq_text_iff : SqlFile.find access t p = .text sql ↔
    hasSqlSuffix p = true ∧ p ∉ access.unreadable ∧ ∃ bytes raw, t.get? p = some (.file bytes) ∧
      Utf8.decode bytes = .ok raw ∧ Text.unifyLineEnds raw = sql := by
  unfold SqlFile.find
  cases hnode : t.get? p with
  | none => simp
  | some node =>
      by_cases hsuffix : hasSqlSuffix p = true
      · by_cases hread : p ∈ access.unreadable
        · simp [hsuffix, SqlFile.ofNode, hread]
        · cases node with
          | folder => simp [hsuffix, SqlFile.ofNode, hread]
          | file bytes => cases hdecode : Utf8.decode bytes <;> simp [hsuffix, SqlFile.ofNode, hread, hdecode]
      · simp [hsuffix]

theorem exists_file_of_text (h : SqlFile.find access t p = .text sql) :
    ∃ bytes, t.get? p = some (.file bytes) := by
  obtain ⟨-, -, bytes, -, hnode, -⟩ := find_eq_text_iff.mp h
  exact ⟨bytes, hnode⟩

theorem find_congr (access : Access) (h : t'.get? p = t.get? p) :
    SqlFile.find access t' p = SqlFile.find access t p := by
  simp only [SqlFile.find, h]

theorem read_eq_ok_iff {found : SqlFile} : SqlFile.read access t p = .ok found ↔
    t.hides? access p = none ∧ SqlFile.find access t p = found := by
  unfold SqlFile.read
  cases t.hides? access p <;> simp

/-! ## Laid out files -/

/-- If the file can be read, it has the text that laying it out gives. -/
def LaidOut (access : Access) (options : Options) (tree : Tree) (p : Path) : Prop :=
  ∀ sql, SqlFile.find access tree p = .text sql → withFinalNewline (format options sql) = sql

/-- What was written is laid out when it is read back. -/
theorem laidOut_written (access : Access) (o : Options)
    (h : t.get? p = some (.file (Utf8.encode (withFinalNewline (format o sql))))) :
    LaidOut access o t p := by
  intro sql' hread
  obtain ⟨-, -, bytes, raw, hnode, hdecode, rfl⟩ := find_eq_text_iff.mp hread
  rw [h, Option.some.injEq, Node.file.injEq] at hnode
  subst hnode
  obtain rfl := Except.ok.inj ((Utf8.decode_encode _).symm.trans hdecode)
  rw [Text.unifyLineEnds_of_not_mem (not_mem_withFinalNewline o sql), format_withFinalNewline]

/-! ## Due files -/

/-- The file can be read as SQL, and laying out its text gives something else. -/
structure Due (access : Access) (o : Options) (t : Tree) (p : Path) (output : Text) : Prop where
  suffix : hasSqlSuffix p = true
  readable : p ∉ access.unreadable
  changed : ∃ bytes sql, t.get? p = some (.file bytes) ∧ Utf8.decode bytes = .ok sql ∧
    output = withFinalNewline (format o (Text.unifyLineEnds sql)) ∧ output ≠ Text.unifyLineEnds sql

theorem due_iff : Due access o t p output ↔ ∃ sql, SqlFile.find access t p = .text sql ∧
    output = withFinalNewline (format o sql) ∧ output ≠ sql := by
  simp only [find_eq_text_iff]
  constructor
  · rintro ⟨hsuffix, hreadable, bytes, raw, hnode, hdecode, heq, hne⟩
    exact ⟨_, ⟨hsuffix, hreadable, bytes, raw, hnode, hdecode, rfl⟩, heq, hne⟩
  · rintro ⟨_, ⟨hsuffix, hreadable, bytes, raw, hnode, hdecode, rfl⟩, heq, hne⟩
    exact ⟨hsuffix, hreadable, bytes, raw, hnode, hdecode, heq, hne⟩

theorem due_iff_of_text (h : SqlFile.find access t p = .text sql) (output : Text) :
    Due access o t p output ↔ output = withFinalNewline (format o sql) ∧ output ≠ sql := by
  rw [due_iff, h]
  simp only [SqlFile.text.injEq, exists_eq_left']

theorem not_due_of_no_text (h : ∀ sql, SqlFile.find access t p ≠ .text sql) :
    ¬∃ output, Due access o t p output := by
  rintro ⟨output, hdue⟩
  obtain ⟨sql, hread, -⟩ := due_iff.mp hdue
  exact h sql hread

theorem laidOut_iff : LaidOut access o t p ↔ ¬∃ output, Due access o t p output := by
  constructor
  · rintro h ⟨output, hdue⟩
    obtain ⟨sql, hread, heq, hne⟩ := due_iff.mp hdue
    exact hne (heq.trans (h sql hread))
  · intro h sql hread
    by_contra hne
    exact h ⟨_, due_iff.mpr ⟨sql, hread, rfl, hne⟩⟩

theorem Due.congr (h : t'.get? p = t.get? p) (hdue : Due access o t p output) :
    Due access o t' p output :=
  due_iff.mpr (find_congr access h ▸ due_iff.mp hdue)

theorem due_congr (h : t'.get? p = t.get? p) (output : Text) :
    Due access o t' p output ↔ Due access o t p output :=
  ⟨.congr h.symm, .congr h⟩

/-- What was written is not due any more. -/
theorem Due.not_due_written (h : Due access o t p output)
    (hw : t'.get? p = some (.file (Utf8.encode output))) : ¬∃ output', Due access o t' p output' := by
  obtain ⟨sql, -, heq, -⟩ := due_iff.mp h
  exact laidOut_iff.mp (laidOut_written access o (heq ▸ hw))

end

end CommandLine

end SqlLayout
