import SqlLayout.CommandLine.Arguments

/-! # Usage

What is shown about the use of the program, eighty columns wide.
-/

namespace SqlLayout.CommandLine

def programName : Text :=
  "sql-restyle".toList

def lineOf (s : String) : Text :=
  s.toList ++ ['\n']

/-- The arguments in short. -/
def usage : Text :=
  [
    "usage: sql-restyle [-h] [--config CONFIG]",
    "                   [--keyword-case \x7bupper,lower,preserve\x7d]",
    "                   [--indent-style \x7bstandard,tabular\x7d]",
    "                   [--lines-between-queries LINES_BETWEEN_QUERIES]",
    "                   [--max-column-length MAX_COLUMN_LENGTH]",
    "                   [--comma-position \x7bbefore,after,preserve\x7d] [--dry-run]",
    "                   [--check] [--verify] [--lint] [--dialect DIALECT]",
    "                   [--audit-folder AUDIT_FOLDER] [--debug] [--verbose]",
    "                   path"
  ].flatMap lineOf

/-- All arguments with their meaning. -/
def help : Text :=
  usage ++ [
    "",
    "SQL Restyle Tool",
    "",
    "positional arguments:",
    "  path                  Path to SQL file or folder, or - to read stdin",
    "",
    "options:",
    "  -h, --help            show this help message and exit",
    "  --config CONFIG       Path to an INI file with a [sql_restyle] section",
    "                        (default: .sqlrestyle if present)",
    "  --dry-run             Print formatted SQL instead of writing files",
    "  --check               Exit with 1 if any file would be reformatted",
    "                        (formatted files end with one newline)",
    "  --verify              Warn when formatting changes the token stream",
    "  --lint                Run sqlfluff on the formatted SQL",
    "  --dialect DIALECT     sqlfluff dialect used by --lint",
    "  --audit-folder AUDIT_FOLDER",
    "                        Where --debug writes stage files",
    "  --debug               Write each stage to the audit folder and leave files",
    "                        untouched",
    "  --verbose             Enable verbose debug logging",
    "",
    "style options:",
    "  --keyword-case \x7bupper,lower,preserve\x7d",
    "                        Convert keywords to uppercase, lowercase, or preserve",
    "                        case (default: upper)",
    "  --indent-style \x7bstandard,tabular\x7d",
    "                        SQL indentation style (default: standard)",
    "  --lines-between-queries LINES_BETWEEN_QUERIES",
    "                        Number of blank lines between queries (default: 1)",
    "  --max-column-length MAX_COLUMN_LENGTH",
    "                        Maximum length for columns before wrapping (default:",
    "                        50)",
    "  --comma-position \x7bbefore,after,preserve\x7d",
    "                        Position of commas in column lists (default: after)"
  ].flatMap lineOf

/-- What is shown when arguments cannot be used. -/
def UsageFault.report (fault : UsageFault) : Text :=
  usage ++ programName ++ ": error: ".toList ++ fault.message ++ ['\n']

end SqlLayout.CommandLine
