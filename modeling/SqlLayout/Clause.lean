import SqlLayout.Keyword
import SqlLayout.Text.Basic

/-! # Clauses

The third stage cuts a text before every heading. A clause is a heading with the text up to the
next one, or the text before the first heading.
-/

namespace SqlLayout

/-- A heading and the text up to the next one. -/
structure Section where
  heading : Text
  body : Text
  deriving DecidableEq

/-- A text cut before every heading. -/
structure Outline where
  lead : Text
  sections : List Section
  deriving DecidableEq

namespace Outline

/-- Puts a part in front of an outline. -/
def consPart : Part → Outline → Outline
  | .phrase spelled, o => ⟨[], ⟨spelled, o.lead⟩ :: o.sections⟩
  | .plain piece, o => ⟨piece.text ++ o.lead, o.sections⟩

def ofText (s : Text) : Outline :=
  (parts Keyword.headings s).foldr consPart ⟨[], []⟩

end Outline

/-- The clause of a section: the heading, and after one space the body without blanks around it. -/
def Section.clause (s : Section) : Text :=
  if s.body.isAllBlank then s.heading else s.heading ++ ' ' :: s.body.trim

/-- The clauses of an outline; a blank lead is none. -/
def Outline.clauses (o : Outline) : List Text :=
  let rest := o.sections.map Section.clause
  if o.lead.isAllBlank then rest else o.lead.trim :: rest

def clauses (s : Text) : List Text :=
  (Outline.ofText s).clauses

end SqlLayout
