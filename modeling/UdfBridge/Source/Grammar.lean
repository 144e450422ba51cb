import UdfBridge.Grammar.Pattern
import UdfBridge.Source.Rule
import UdfBridge.Text.Letter

/-!
# The grammar of a function definition

The part of Python that lifts one function out of a text: blank lines and decorators, the header
from `def` to its colon, and the body, which is opaque. Line structure matters, so the patterns
name every blank they allow. Strings and brackets are only recognised so that commas, colons and
`#` inside them are not taken for structure.

`parse` matches one rule at the start of a text and lists the outermost nodes of the match. A
silent rule makes no node of its own: asked for directly, it lists those inside it.
-/

namespace UdfBridge.Source

open Grammar (Pattern Node)
open Grammar.Pattern
open Text (Position)

/-- The characters that open and close groups. -/
def brackets : List Char := ['(', ')', '[', ']', '\x7b', '\x7d']

/-- The characters that delimit strings. -/
def quotes : List Char := ['"', '\'']

/-- The characters that end a line. -/
def lineEnds : List Char := ['\n', '\r']

/-! ## Blanks -/

/-- A line feed, a carriage return and a line feed, or a carriage return alone. -/
def lineBreak : Pattern Rule :=
  orElse (chr '\n') (orElse (word ['\r', '\n']) (chr '\r'))

/-- A backslash that joins a line with the next one. -/
def continuation : Pattern Rule :=
  seq (chr '\\') lineBreak

/-- One blank that does not end the logical line. -/
def inlineSpace : Pattern Rule :=
  orElse (oneOf [' ', '\t']) continuation

/-- A comment, up to the end of its line. -/
def comment : Pattern Rule :=
  seq (chr '#') (star (noneOf lineEnds))

/-- One blank inside brackets, where lines may break. -/
def gap : Pattern Rule :=
  orElse inlineSpace (orElse lineBreak comment)

/-- A line with no more than a comment, with its line break. -/
def blankLine : Pattern Rule :=
  inOrder [star inlineSpace, optional comment, lineBreak]

/-! ## Tokens -/

/-- Whether `c` starts an identifier. -/
def startsIdentifier (c : Char) : Bool :=
  Text.isXidStart c || c == '_'

/-- An identifier. -/
def identifier : Pattern Rule :=
  node .identifier (seq (one startsIdentifier) (star (one Text.isXidContinue)))

/-- A string between three quotes `q` on either side, which may span lines. -/
def tripleQuoted (q : Char) : Pattern Rule :=
  inOrder [
    word [q, q, q],
    star (orElse (seq (chr '\\') any) (seq (notAhead (word [q, q, q])) any)),
    word [q, q, q]]

/-- A string between two quotes `q`, on one line but for escaped line ends. -/
def quoted (q : Char) : Pattern Rule :=
  inOrder [
    chr q,
    star (orElse (seq (chr '\\') any) (noneOf (q :: lineEnds))),
    chr q]

/-- A string in any of the four kinds of quotes. -/
def stringLiteral : Pattern Rule :=
  orElse (tripleQuoted '"') (orElse (tripleQuoted '\'') (orElse (quoted '"') (quoted '\'')))

/-- What stands between the brackets of a group: a string, a comment, or a character that starts
neither. -/
def groupLeaf : Pattern Rule :=
  orElse stringLiteral (orElse comment (noneOf ('#' :: brackets ++ quotes)))

/-- A group in matching brackets. -/
def bracketGroup : Pattern Rule :=
  balanced groupLeaf

/-- One piece of the inside of a group. -/
def groupItem : Pattern Rule :=
  orElse stringLiteral (orElse bracketGroup (orElse comment (noneOf ('#' :: brackets ++ quotes))))

/-- One piece of an expression that ends at a bare character of `ends`. -/
def exprPiece (ends : List Char) : Pattern Rule :=
  orElse stringLiteral (orElse bracketGroup (noneOf (ends ++ '#' :: brackets ++ quotes)))

/-! ## Decorators -/

/-- The expression of a decorator, which may go on after a backslash at the end of a line. -/
def decoratorExpr : Pattern Rule :=
  node .decoratorExpr (plus (orElse continuation (exprPiece lineEnds)))

/-- A decorator, with the line break that ends it. -/
def decorator : Pattern Rule :=
  node .decorator <| inOrder [
    star inlineSpace, chr '@', star inlineSpace, decoratorExpr, optional comment, lineBreak]

/-! ## Parameters -/

/-- The text of an annotation. -/
def hintExpr : Pattern Rule :=
  node .hintExpr (plus (exprPiece [',', '=']))

/-- The text of a default value. -/
def defaultExpr : Pattern Rule :=
  node .defaultExpr (plus (exprPiece [',']))

/-- A colon and an annotation. -/
def hint : Pattern Rule :=
  inOrder [chr ':', star gap, hintExpr]

/-- An equals sign and a default value. -/
def defaultValue : Pattern Rule :=
  inOrder [chr '=', star gap, defaultExpr]

/-- A plain parameter. -/
def parameter : Pattern Rule :=
  node .parameter <| inOrder [
    identifier, star gap, optional hint, star gap, optional defaultValue]

/-- A parameter that takes the remaining positional arguments. -/
def varPositional : Pattern Rule :=
  node .varPositional <| inOrder [
    chr '*', star gap, identifier, star gap, optional hint]

/-- A parameter that takes the remaining keyword arguments. -/
def varKeyword : Pattern Rule :=
  node .varKeyword <| inOrder [
    word ['*', '*'], star gap, identifier, star gap, optional hint]

/-- The star after which parameters are keyword-only. -/
def keywordMarker : Pattern Rule :=
  node .keywordMarker (chr '*')

/-- The slash before which parameters are positional-only. -/
def positionalMarker : Pattern Rule :=
  node .positionalMarker (chr '/')

/-- One item of a parameter list. -/
def parameterItem : Pattern Rule :=
  orElse varKeyword <| orElse varPositional <| orElse keywordMarker <|
    orElse positionalMarker parameter

/-- Items between commas; a last comma may follow. -/
def parameterList : Pattern Rule :=
  inOrder [
    parameterItem,
    star (inOrder [star gap, chr ',', star gap, parameterItem]),
    optional (seq (star gap) (chr ','))]

/-- The parameters of a function, in their parentheses. -/
def parameters : Pattern Rule :=
  node .parameters <| inOrder [
    chr '(', star gap, optional (seq parameterList (star gap)), chr ')']

/-! ## The definition -/

/-- The expression of a return annotation. -/
def returnExpr : Pattern Rule :=
  node .returnExpr (plus (exprPiece (':' :: lineEnds)))

/-- An arrow and the annotation of the result. -/
def returnHint : Pattern Rule :=
  node .returnHint <| inOrder [word ['-', '>'], star inlineSpace, returnExpr]

/-- The word that makes a function a coroutine. -/
def asyncKeyword : Pattern Rule :=
  node .asyncKeyword (word ['a', 's', 'y', 'n', 'c'])

/-- The name of the function. -/
def functionName : Pattern Rule :=
  node .functionName identifier

/-- The header of a function, from its indentation to its colon. -/
def defHeader : Pattern Rule :=
  node .defHeader <| inOrder [
    star inlineSpace,
    optional (seq asyncKeyword (plus inlineSpace)),
    word ['d', 'e', 'f'], plus inlineSpace, functionName, star inlineSpace,
    parameters, star inlineSpace, optional returnHint, star inlineSpace, chr ':']

/-- The body: all that follows the header. -/
def body : Pattern Rule :=
  node .body (star any)

/-- The end of the text. -/
def endOfInput : Pattern Rule :=
  node .endOfInput (notAhead any)

/-- A function definition that makes up the whole text. -/
def source : Pattern Rule :=
  node .source <| inOrder [
    star blankLine, star (seq decorator (star blankLine)), defHeader, body, endOfInput]

/-- The pattern of each rule. -/
def Rule.pattern : Rule → Pattern Rule
  | .source => Source.source
  | .inlineSpace => Source.inlineSpace
  | .gap => Source.gap
  | .comment => Source.comment
  | .blankLine => Source.blankLine
  | .identifier => Source.identifier
  | .stringLiteral => Source.stringLiteral
  | .tripleDouble => tripleQuoted '"'
  | .tripleSingle => tripleQuoted '\''
  | .doubleQuoted => quoted '"'
  | .singleQuoted => quoted '\''
  | .bracketChar => oneOf brackets
  | .quoteChar => oneOf quotes
  | .bracketGroup => Source.bracketGroup
  | .groupItem => Source.groupItem
  | .decorator => Source.decorator
  | .decoratorExpr => Source.decoratorExpr
  | .defHeader => Source.defHeader
  | .asyncKeyword => Source.asyncKeyword
  | .functionName => Source.functionName
  | .parameters => Source.parameters
  | .parameterList => Source.parameterList
  | .parameterItem => Source.parameterItem
  | .parameter => Source.parameter
  | .varPositional => Source.varPositional
  | .varKeyword => Source.varKeyword
  | .keywordMarker => Source.keywordMarker
  | .positionalMarker => Source.positionalMarker
  | .hint => Source.hint
  | .default => Source.defaultValue
  | .hintExpr => Source.hintExpr
  | .defaultExpr => Source.defaultExpr
  | .returnHint => Source.returnHint
  | .returnExpr => Source.returnExpr
  | .body => Source.body
  | .endOfInput => Source.endOfInput

/-- The outermost nodes of the match of a rule at the start of a text, or nothing where the rule
does not match. -/
def parse? (rule : Rule) (text : String) : Option (List (Node Rule)) :=
  (rule.pattern.run text.toList).map fun (f, _) => f.nodes Position.origin

end UdfBridge.Source
