import SqlLayout.Setting

/-! # Reports of a linter

Laid out text may be given to a linter. Here is what the linter is asked, and what is kept of its
answer, whatever the values in it are.
-/

namespace SqlLayout

namespace Lint

/-- The rules that are checked if none are named: letter case and spacing. -/
def defaultRules : List Text :=
  ["CP01".toList, "LT01".toList]

/-- The dialect if none is named. -/
def defaultDialect : Text :=
  "ansi".toList

/-- A question to the linter. -/
structure Request where
  sql : Text
  dialect : Setting
  rules : List Text

/-- The question about a text. It ends with a line feed, and without rules the default ones are
    meant. -/
def Request.about (sql : Text) (dialect : Setting) (rules : List Text) : Request where
  sql := if sql.getLast? = some '\n' then sql else sql ++ ['\n']
  dialect := dialect
  rules := if rules.isEmpty then defaultRules else rules

/-- What is kept of a violation. -/
structure Finding (α : Type) where
  line : α
  code : α
  description : α

/-- What is kept of a violation, with a value for what is missing. The line where the violation
    starts is taken if it is given. -/
def Finding.ofViolation {α : Type} (missing : α) (violation : List (Text × α)) : Finding α where
  line := ((violation.lookup "start_line_no".toList).or
    (violation.lookup "line_no".toList)).getD missing
  code := (violation.lookup "code".toList).getD missing
  description := (violation.lookup "description".toList).getD missing

end Lint

end SqlLayout
