import CleanDiff.Text.Basic

/-!
# Comment grammars

A *comment grammar* says how a family of file formats writes string literals
and comments. It is a fixed table: the quotes that delimit literals, the pairs
that delimit block comments and the markers that start a line comment, each
list with its highest priority first.
-/

namespace CleanDiff

/-- A way of writing comments and string literals. -/
inductive Grammar
  | hash
  | cStyle
  | jsx
  | markup
  | sql
  | lua
  deriving DecidableEq, Repr

/-- A string delimiter: one character, which honours backslash escapes, or one
character three times, which ignores them. -/
inductive Quote
  | single (mark : Char)
  | triple (mark : Char)
  deriving DecidableEq, Repr

/-- The delimiter as it is written. -/
def Quote.written : Quote → Text
  | .single mark => [mark]
  | .triple mark => [mark, mark, mark]

/-- The delimiters of a block comment. One that must close is no comment at all
when its closer is missing; any other then runs to the end of the text. -/
structure Block where
  opener : Text
  closer : Text
  mustClose : Bool := false
  deriving DecidableEq, Repr

namespace Grammar

/-- Every grammar, in the order in which they are listed to the user. -/
def all : List Grammar := [.hash, .cStyle, .jsx, .markup, .sql, .lua]

/-- The name of a grammar in configuration files and messages. -/
def name : Grammar → String
  | .hash => "hash"
  | .cStyle => "c-style"
  | .jsx => "jsx"
  | .markup => "markup"
  | .sql => "sql"
  | .lua => "lua"

/-- The string delimiters, the highest priority first. -/
def quotes : Grammar → List Quote
  | .hash => [.triple '"', .triple '\'', .single '\'', .single '"']
  | _ => [.single '\'', .single '"']

/-- The delimiters of block comments, the highest priority first. A wrapper
around another opener must close, so that the inner one can take over. -/
def blocks : Grammar → List Block
  | .hash | .lua => []
  | .cStyle | .sql => [⟨['/', '*'], ['*', '/'], false⟩]
  | .jsx => [⟨['{', '/', '*'], ['*', '/', '}'], true⟩, ⟨['/', '*'], ['*', '/'], false⟩]
  | .markup => [⟨['<', '!', '-', '-'], ['-', '-', '>'], false⟩]

/-- The markers of a comment that runs to the end of its line. -/
def lineMarkers : Grammar → List Text
  | .hash => [['#']]
  | .cStyle | .jsx => [['/', '/']]
  | .markup => []
  | .sql | .lua => [['-', '-']]

/-- The grammar with exactly this name. -/
def ofName? (s : String) : Option Grammar := all.find? fun g => g.name = s

theorem ofName?_name (g : Grammar) : ofName? g.name = some g := by cases g <;> rfl

end Grammar

end CleanDiff
