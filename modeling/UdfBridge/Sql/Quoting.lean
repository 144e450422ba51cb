import UdfBridge.Text.Hex

/-!
# Quoting

Names and texts of any characters become tokens of SQL. A token in quotes holds its text with each
quote written twice, so it ends at the first quote that is not doubled. A name stands without
quotes where the database would read it back unchanged: it is spelled in lower case, starts like a
name, and is no reserved word.
-/

namespace UdfBridge.Sql

/-- `s` with each `q` in it written twice. -/
def doubled (q : Char) (s : List Char) : List Char :=
  s.flatMap fun c => if c = q then [q, q] else [c]

/-- `s` between two quotes `q`. -/
def inQuotes (q : Char) (s : List Char) : List Char :=
  q :: doubled q s ++ [q]

/-- There is nothing to double in an empty text. -/
@[simp] theorem doubled_nil (q : Char) : doubled q [] = [] := rfl

/-- The first character is doubled if it is the quote. -/
@[simp] theorem doubled_cons (q c : Char) (s : List Char) :
    doubled q (c :: s) = (if c = q then [q, q] else [c]) ++ doubled q s := rfl

/-- The reserved words that are likely names of columns, functions and parameters. The modes of
arguments are among them, so that a parameter is never read as one. -/
def reserved : List String := [
  "all", "and", "as", "case", "cast", "check", "column", "create", "default", "desc", "distinct",
  "do", "else", "end", "false", "for", "from", "function", "grant", "group", "having", "in",
  "inout", "limit", "not", "null", "offset", "on", "or", "order", "out", "select", "table", "then",
  "to", "true", "union", "user", "using", "variadic", "when", "where", "with"]

/-- Whether a plain name may start with `c`. -/
def startsPlain (c : Char) : Bool :=
  c.isLower || c == '_'

/-- Whether a plain name may go on with `c`. -/
def continuesPlain (c : Char) : Bool :=
  c.isLower || c.isDigit || c == '_' || c == '$'

/-- Whether a name is spelled so that it can stand without quotes. -/
def isPlainSpelling : List Char → Bool
  | [] => false
  | c :: s => startsPlain c && s.all continuesPlain

/-- Whether a name can stand without quotes. -/
def isPlain (name : String) : Bool :=
  isPlainSpelling name.toList && !reserved.contains name

/-- The token of a name. -/
def quoteIdentifier (name : String) : String :=
  if isPlain name then name else .ofList (inQuotes '"' name.toList)

/-- The token of a text. -/
def textLiteral (s : String) : String :=
  .ofList (inQuotes '\'' s.toList)

/-- The token of some bytes, with the cast that makes them bytes. -/
def bytesLiteral (bs : List UInt8) : String :=
  .ofList ("'\\x".toList ++ Text.toHex bs ++ "'::bytea".toList)

end UdfBridge.Sql
