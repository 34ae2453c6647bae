import SqlLayout.Text.Basic
import SqlLayout.Number.Integer
import SqlLayout.Token.Kind
import SqlLayout.Token.Pattern

/-! # Token rules

The rules by which SQL text is cut into tokens, in the order in which they are tried. Keywords of
several words are one token, whatever blanks stand between the words.
-/

namespace SqlLayout

/-- A rule: what the text of a token may be, and the kind of the token. -/
structure TokenRule where
  kind : TokenKind
  pattern : Pattern

/-- A letter that may begin a name: the ASCII and Latin letters up to u with diaeresis and the
    letters that stand for one of them, the multiplication sign among them by its place. -/
def isNameLetter (c : Char) : Bool :=
  inRanges [(0x41, 0x5A), (0x61, 0x7A), (0xC0, 0xDC), (0xE0, 0xF6), (0xF8, 0xFC), (0x130, 0x131),
    (0x17F, 0x17F), (0x212A, 0x212B)] c

/-- A letter that may begin a name, or the underscore. -/
def isNameStart (c : Char) : Bool :=
  c == '_' || isNameLetter c

/-- A digit of a hexadecimal number: a decimal digit of any script, or one of six letters. -/
def isHexDigit (c : Char) : Bool :=
  isDecimal c || ('a' ≤ c && c ≤ 'f') || ('A' ≤ c && c ≤ 'F')

namespace TokenRule

open Pattern

def wordChar : Pattern := one isWord

def digit : Pattern := one isDecimal

def space : Pattern := one isBlank

/-- Blanks, at least one. -/
def spaces : Pattern := oneOrMore space

/-- A character other than a given one. -/
def other (c : Char) : Pattern := one (· != c)

/-- One of some characters. -/
def among (cs : String) : Pattern := one fun c => cs.toList.contains c

/-- Words with blanks between them. -/
def phrase (words : List String) : Pattern :=
  inOrder ((words.map literal).intersperse spaces)

/-- A phrase that ends where a word ends. -/
def wholePhrase (words : List String) : Pattern :=
  seq (phrase words) wordEdge

/-- A word and the blanks after it, or nothing. -/
def maybeWord (words : List String) : Pattern :=
  maybe (seq (oneOf words) spaces)

/-- Text between two marks, in which the mark is written twice, or after a backslash if it may
    be. -/
def between (mark : Char) (escapes : List Pattern) : Pattern :=
  inOrder [exactly mark, most (firstOf (seq (exactly mark) (exactly mark) :: escapes ++ [other mark])),
    exactly mark]

/-- The end of a line or of the text. -/
def lineEnd : Pattern :=
  firstOf [literal "\r\n", exactly '\r', exactly '\n', look fun _ rest => rest.isEmpty]

/-- A comment up to the end of the line. -/
def lineComment : Pattern :=
  inOrder [oneOf ["--", "# "], least (other '\n'), lineEnd]

/-- A comment that speaks to the database. -/
def hint : Pattern :=
  inOrder [oneOf ["--", "# "], exactly '+', least (other '\n'), lineEnd]

/-- The end of a line, in any of its spellings. -/
def lineBreak : Pattern :=
  oneOf ["\r\n", "\r", "\n"]

/-- A placeholder: a percent sign, a name in parentheses or none, and the letter s. -/
def percentPlaceholder : Pattern :=
  inOrder [exactly '%', maybe (inOrder [exactly '(', oneOrMore wordChar, exactly ')']), letter 's']

/-- A placeholder: a sign and a name, not within a word. -/
def signPlaceholder : Pattern :=
  inOrder [notAfter isWord, among "$:?", oneOrMore wordChar]

/-- A word that is a keyword even before a parenthesis. -/
def plainKeyword : Pattern :=
  seq (oneOf ["CASE", "IN", "VALUES", "USING", "FROM", "AS"]) wordEdge

/-- A name after an at sign or number signs. -/
def signedName : Pattern :=
  inOrder [oneOf ["@", "##", "#"], one isNameLetter, oneOrMore wordChar]

def name : Pattern :=
  seq (one isNameLetter) (most wordChar)

/-- A point follows after blanks or none, and no digit after it. -/
def beforePoint : Pattern :=
  look fun _ rest =>
    match rest.dropWhile isBlank with
    | '.' :: after => !after.head?.any isDecimal
    | _ => false

/-- A minus sign or none. -/
def sign : Pattern := maybe (exactly '-')

def digits : Pattern := oneOrMore digit

def hexadecimal : Pattern :=
  inOrder [sign, literal "0x", oneOrMore (one isHexDigit)]

def withExponent : Pattern :=
  inOrder [sign, digits, maybe (seq (exactly '.') digits), letter 'E', sign, digits]

def withPoint : Pattern :=
  inOrder [notBefore isNameStart, sign,
    either (inOrder [digits, exactly '.', most digit]) (seq (exactly '.') digits),
    notBefore isNameStart]

def whole : Pattern :=
  inOrder [notBefore isNameStart, sign, digits, notBefore isNameStart]

/-- A name in brackets, not after a word or a closing bracket. -/
def bracketed : Pattern :=
  inOrder [notAfter fun c => isWord c || c == ']' || c == ')', exactly '[',
    oneOrMore (one fun c => c != ']' && c != '['), exactly ']']

/-- A join with its qualifiers. -/
def join : Pattern :=
  inOrder [
    firstOf [seq (maybeWord ["LEFT", "RIGHT", "FULL"]) (maybeWord ["INNER", "OUTER", "STRAIGHT"]),
      maybeWord ["CROSS", "NATURAL"], done],
    literal "JOIN", wordEdge]

/-- The end of a block. -/
def blockEnd : Pattern :=
  inOrder [literal "END", maybe (seq spaces (oneOf ["IF", "LOOP", "WHILE", "FOR", "CASE"])), wordEdge]

/-- A question whether something exists. -/
def ifExists : Pattern :=
  inOrder [literal "IF", spaces, maybeWord ["NOT"], literal "EXISTS", wordEdge]

/-- The place of missing values in an order. -/
def nullsPlace : Pattern :=
  inOrder [literal "NULLS", spaces, oneOf ["FIRST", "LAST"]]

/-- The direction of an order. -/
def direction : Pattern :=
  inOrder [oneOf ["ASC", "DESC"], maybe (seq spaces nullsPlace), wordEdge]

def create : Pattern :=
  inOrder [literal "CREATE", maybe (seq spaces (phrase ["OR", "REPLACE"])), wordEdge]

/-- The end of a batch with a count. -/
def batchEnd : Pattern :=
  inOrder [literal "GO", space, digits, wordEdge]

/-- A lateral view of a table function. -/
def lateralView : Pattern :=
  inOrder [phrase ["LATERAL", "VIEW"], spaces,
    oneOf ["EXPLODE", "INLINE", "PARSE_URL_TUPLE", "POSEXPLODE", "STACK"], wordEdge]

def timeZone : Pattern :=
  inOrder [oneOf ["AT", "WITH'"], spaces, phrase ["TIME", "ZONE"], spaces, exactly '\'',
    oneOrMore (other '\''), exactly '\'']

/-- A comparison by a pattern. -/
def likeOperator : Pattern :=
  inOrder [maybeWord ["NOT"], oneOf ["LIKE", "ILIKE", "RLIKE"], wordEdge]

/-- A comparison by a regular expression. -/
def regexpOperator : Pattern :=
  inOrder [maybeWord ["NOT"], literal "REGEXP", maybe (seq spaces (literal "BINARY")), wordEdge]

/-- A word with number and dollar signs after its first character. -/
def looseWord : Pattern :=
  seq wordChar (most (one fun c => c == '$' || c == '#' || isWord c))

/-- An operator on structured values. -/
def arrowOperator : Pattern :=
  firstOf [seq (literal "->") (maybe (exactly '>')), seq (literal "#>") (maybe (exactly '>')),
    literal "@>", literal "<@", seq (exactly '?') (maybe (exactly '|')), literal "?&",
    literal "-", literal "#-"]

def all : List TokenRule :=
  [⟨.hint, hint⟩,
  ⟨.lineComment, lineComment⟩,
  ⟨.lineBreak, lineBreak⟩,
  ⟨.space, space⟩,
  ⟨.assign, literal ":="⟩,
  ⟨.punctuation, literal "::"⟩,
  ⟨.star, exactly '*'⟩,
  ⟨.name, between '\x60' []⟩,
  ⟨.name, between '´' []⟩,
  ⟨.placeholder, exactly '?'⟩,
  ⟨.placeholder, percentPlaceholder⟩,
  ⟨.placeholder, signPlaceholder⟩,
  ⟨.command, seq (exactly '\\') (oneOrMore wordChar)⟩,
  ⟨.keyword, plainKeyword⟩,
  ⟨.name, signedName⟩,
  ⟨.name, seq name beforePoint⟩,
  ⟨.name, seq (look fun before _ => before == some '.') name⟩,
  ⟨.name, seq name (look fun _ rest => rest.head? == some '(')⟩,
  ⟨.hexadecimal, hexadecimal⟩,
  ⟨.decimal, withExponent⟩,
  ⟨.decimal, withPoint⟩,
  ⟨.integer, whole⟩,
  ⟨.text, between '\'' [literal "\\'"]⟩,
  ⟨.symbol, between '"' [literal "\\\""]⟩,
  ⟨.name, bracketed⟩,
  ⟨.keyword, join⟩,
  ⟨.keyword, blockEnd⟩,
  ⟨.keyword, ifExists⟩,
  ⟨.keyword, wholePhrase ["NOT", "NULL"]⟩,
  ⟨.direction, direction⟩,
  ⟨.direction, seq (oneOf ["ASC", "DESC"]) wordEdge⟩,
  ⟨.direction, seq nullsPlace wordEdge⟩,
  ⟨.keyword, wholePhrase ["UNION", "ALL"]⟩,
  ⟨.definition, create⟩,
  ⟨.builtin, wholePhrase ["DOUBLE", "PRECISION"]⟩,
  ⟨.keyword, wholePhrase ["GROUP", "BY"]⟩,
  ⟨.keyword, wholePhrase ["ORDER", "BY"]⟩,
  ⟨.keyword, wholePhrase ["PRIMARY", "KEY"]⟩,
  ⟨.keyword, wholePhrase ["HANDLER", "FOR"]⟩,
  ⟨.keyword, batchEnd⟩,
  ⟨.keyword, lateralView⟩,
  ⟨.timeZone, timeZone⟩,
  ⟨.comparison, likeOperator⟩,
  ⟨.comparison, regexpOperator⟩,
  ⟨.word, looseWord⟩,
  ⟨.punctuation, among ";:()[],."⟩,
  ⟨.operator, arrowOperator⟩,
  ⟨.comparison, oneOrMore (among "<>=~!")⟩,
  ⟨.operator, oneOrMore (among "+/@#%^&|-")⟩]

end TokenRule

end SqlLayout
