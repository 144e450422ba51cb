/-!
# The rules of a function definition

The grammar of `Source.Grammar` names its parts by these rules. Some name a node of the tree, the
others only a piece of the grammar that can be asked for by itself.
-/

namespace UdfBridge.Source

/-- A rule of the grammar of function definitions. -/
inductive Rule where
  | source
  | inlineSpace
  | gap
  | comment
  | blankLine
  | identifier
  | stringLiteral
  | tripleDouble
  | tripleSingle
  | doubleQuoted
  | singleQuoted
  | bracketChar
  | quoteChar
  | bracketGroup
  | groupItem
  | decorator
  | decoratorExpr
  | defHeader
  | asyncKeyword
  | functionName
  | parameters
  | parameterList
  | parameterItem
  | parameter
  | varPositional
  | varKeyword
  | keywordMarker
  | positionalMarker
  | hint
  | default
  | hintExpr
  | defaultExpr
  | returnHint
  | returnExpr
  | body
  | endOfInput
deriving DecidableEq, Repr, Inhabited

namespace Rule

/-- The name a rule goes by in a written tree. -/
def name : Rule → String
  | source => "source"
  | inlineSpace => "inline_ws"
  | gap => "gap"
  | comment => "comment"
  | blankLine => "blank_line"
  | identifier => "identifier"
  | stringLiteral => "string_literal"
  | tripleDouble => "triple_double"
  | tripleSingle => "triple_single"
  | doubleQuoted => "double_quoted"
  | singleQuoted => "single_quoted"
  | bracketChar => "bracket_char"
  | quoteChar => "quote_char"
  | bracketGroup => "bracket_group"
  | groupItem => "group_item"
  | decorator => "decorator"
  | decoratorExpr => "decorator_expr"
  | defHeader => "def_header"
  | asyncKeyword => "async_kw"
  | functionName => "function_name"
  | parameters => "parameters"
  | parameterList => "parameter_list"
  | parameterItem => "parameter_item"
  | parameter => "parameter"
  | varPositional => "var_positional"
  | varKeyword => "var_keyword"
  | keywordMarker => "keyword_marker"
  | positionalMarker => "positional_marker"
  | hint => "annotation"
  | default => "default"
  | hintExpr => "annotation_expr"
  | defaultExpr => "default_expr"
  | returnHint => "return_annotation"
  | returnExpr => "return_expr"
  | body => "body"
  | endOfInput => "EOI"

/-- All rules. -/
def all : List Rule := [
  source, inlineSpace, gap, comment, blankLine, identifier, stringLiteral, tripleDouble,
  tripleSingle, doubleQuoted, singleQuoted, bracketChar, quoteChar, bracketGroup, groupItem,
  decorator, decoratorExpr, defHeader, asyncKeyword, functionName, parameters, parameterList,
  parameterItem, parameter, varPositional, varKeyword, keywordMarker, positionalMarker, hint,
  default, hintExpr, defaultExpr, returnHint, returnExpr, body, endOfInput]

/-- The rule of a name. -/
def ofName? (s : String) : Option Rule :=
  all.find? fun r => r.name == s

end Rule

end UdfBridge.Source
