import UdfBridge.Source.Parameter
import UdfBridge.Text.Margin

/-!
# Reading a function definition

`FunctionDef.parse` reads the source of one function, with any indentation it has as a whole, into
what a deployment needs of it: the name, the parameters, whether it is a coroutine, and the lines
of its decorators and of its header. The tree is only asked for texts and line numbers.

Undecorated source is cut at a line: `stripDecorators` does so on any text that is a definition,
and `FunctionDef.withoutDecorators` on a definition already read. What remains is as it was
written.
-/

namespace UdfBridge.Source

open Grammar (Node)

/-- A function definition. -/
structure FunctionDef where
  /-- The name of the function. -/
  name : String
  /-- The parameters, in order. -/
  parameters : List Parameter
  /-- Whether the function is a coroutine. -/
  isAsync : Bool
  /-- The numbers of all lines that belong to decorators. -/
  decoratorLines : List Nat
  /-- The number of the line on which the header starts. -/
  defLine : Nat
  /-- The source, without the margin of its lines. -/
  source : String
deriving DecidableEq, Repr, Inhabited

/-- The numbers of the lines that a decorator stands on, from the first to the one whose end it
takes with it. -/
def linesOfDecorator (n : Node Rule) : List Nat :=
  List.range' n.start.line ((Text.trimEndChars n.chars).count '\n' + 1)

/-- The definition of a text with no function in it yet. -/
def FunctionDef.blank (source : String) : FunctionDef :=
  { name := "", parameters := [], isAsync := false, decoratorLines := [], defLine := 1, source }

/-- Takes one node inside the header into account. -/
def FunctionDef.addHeaderNode (d : FunctionDef) (n : Node Rule) : Except ReadError FunctionDef :=
  match n.rule with
  | .asyncKeyword => .ok { d with isAsync := true }
  | .functionName => .ok { d with name := n.text }
  | .parameters => return { d with parameters := ← Parameter.ofNodes n.children }
  | .returnHint => .ok d
  | rule => .error (.misplaced rule)

/-- Takes one node of the definition into account. -/
def FunctionDef.addNode (d : FunctionDef) (n : Node Rule) : Except ReadError FunctionDef :=
  match n.rule with
  | .decorator => .ok { d with decoratorLines := d.decoratorLines ++ linesOfDecorator n }
  | .defHeader => n.children.foldlM addHeaderNode { d with defLine := n.start.line }
  | .body | .endOfInput => .ok d
  | rule => .error (.misplaced rule)

/-- The node of the definition that makes up the whole of `text`. -/
def root (text : String) : Except ReadError (Node Rule) :=
  match parse? .source text with
  | none => .error .noMatch
  | some [] => .error .noDefinition
  | some (n :: _) => .ok n

/-- Reads the source of one function definition, less the margin of its lines. -/
def FunctionDef.parse (text : String) : Except ReadError FunctionDef := do
  let source := Text.dedent text
  let n ← root source
  n.children.foldlM addNode (blank source)

/-- The source of the definition from its header on, if it has decorators, and all of it if not. -/
def FunctionDef.withoutDecorators (d : FunctionDef) : String :=
  if d.decoratorLines.isEmpty then d.source
  else .ofList (Text.fromLine d.defLine d.source.toList)

/-- The line on which the header starts, if a decorator stands before it. -/
def lineBehindDecorators? (ns : List (Node Rule)) : Option Nat :=
  if (ns.takeWhile (·.rule != .defHeader)).any (·.rule == .decorator) then
    (ns.find? (·.rule == .defHeader)).map (·.start.line)
  else none

/-- The text of a definition without its decorators. -/
def stripDecorators (text : String) : Except ReadError String := do
  let n ← root text
  match lineBehindDecorators? n.children with
  | none => return text
  | some line => return .ofList (Text.fromLine line text.toList)

end UdfBridge.Source
