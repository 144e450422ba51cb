import Std.Data.TreeMap
import UdfBridge.Query.Expr

/-!
# Translating expressions to SQL

Constants, columns, operators and aliases are translated directly. A call is translated by the rule
that the translation table has for its kind; a kind without a rule cannot be translated. The rules
registered here call a function with the translated arguments. A client may give a kind a rule of its
own, which goes by the call and the translator: it may have any expressions translated, the
arguments, parts of them, or others, and make of the answers what it likes.

So rules may ask for one another without end, as far as the stack goes. `Expr.translateWithin` is
told how deep that is.

An output name applies only to a whole item of a query, so `translate` is told the place that the
expression stands in, and drops an alias inside an expression.
-/

namespace UdfBridge

/-- Why a query could not be translated. -/
inductive TranslationError where
  /-- There is no rule for the kind of a call. -/
  | missingRule (id : String)
  /-- The rule for the kind of a call failed. -/
  | ruleFailed (text : String)
  /-- A table has no such column. -/
  | noColumn (table column : String)
  /-- A query has no items. -/
  | noItems (table : String)
  /-- The filter of a query yields no truth value. -/
  | filterNotBoolean (found : DataType)
  /-- The rules of clients asked for one another deeper than the stack goes. -/
  | stackOverflow
deriving DecidableEq, Repr

/-- The text of the error. -/
def TranslationError.message : TranslationError → String
  | missingRule id => "No translation rule registered for " ++ id
  | ruleFailed text => text
  | noColumn table column => "Table " ++ table ++ " has no column " ++ column
  | noItems table => "Cannot select no columns from " ++ table
  | filterNotBoolean found => "Filter must be boolean, found " ++ found.name
  | stackOverflow => "stack overflow"

/-- Where an expression stands: as a whole item of a query, or inside another expression. -/
inductive Place where
  | item
  | operand
deriving DecidableEq, Repr, Inhabited

/-- What translates expressions in their places. -/
abbrev Translator := Place → Expr → Except TranslationError SqlExpr

/-- What a rule of a client's own does with a call. -/
inductive Rendering where
  /-- It has the result. -/
  | done (result : Except TranslationError SqlExpr)
  /-- It has an expression translated first, and goes on with the answer. -/
  | ask (place : Place) (expr : Expr) (next : Except TranslationError SqlExpr → Rendering)

/-- The result of a rendering whose questions are answered by `translator`. With the stack at its
end the program stops, so that answer is passed on. -/
def Rendering.run (translator : Translator) : Rendering → Except TranslationError SqlExpr
  | done result => result
  | ask place expr next =>
    match translator place expr with
    | .error .stackOverflow => .error .stackOverflow
    | answer => (next answer).run translator

/-- How the calls of a kind are translated. -/
inductive TranslationRule where
  /-- By a call of `function` with the arguments in order, each translated as one in `place`. -/
  | call (function : QualifiedName) (place : Place)
  /-- Not at all. -/
  | fail (text : String)
  /-- By whatever `render` makes of the kind and the arguments, with the translator at hand. -/
  | custom (render : NodeKind → List Expr → Rendering)
deriving Inhabited

/-- The rules for the kinds of calls, by the identities of the kinds. -/
abbrev TranslationTable := Std.TreeMap String TranslationRule

namespace Expr

mutual

/-- The translation of an expression that stands in some place, where `translator` answers the rules
of clients. -/
def translateBy (rules : TranslationTable) (translator : Translator) : Translator
  | _, constant value => .ok value.translate
  | _, column name _ => .ok (.column name)
  | _, binary lhs op rhs => do
    let l ← translateBy rules translator .operand lhs
    let r ← translateBy rules translator .operand rhs
    return .binary l op.symbol r
  | _, call kind args =>
    match rules[kind.id]? with
    | none => .error (.missingRule kind.id)
    | some (.fail text) => .error (.ruleFailed text)
    | some (.call function place) =>
      return .call function (← translateAllBy rules translator place args)
    | some (.custom render) => (render kind args).run translator
  | .item, named expr name => return .label (← translateBy rules translator .operand expr) name
  | .operand, named expr _ => translateBy rules translator .operand expr

/-- The translations of some expressions, each of which stands in the same place. -/
def translateAllBy (rules : TranslationTable) (translator : Translator) (place : Place) :
    List Expr → Except TranslationError (List SqlExpr)
  | [] => .ok []
  | e :: es => do
    let x ← translateBy rules translator place e
    let xs ← translateAllBy rules translator place es
    return x :: xs

end

/-- The translation of an expression where rules of clients ask for one another `depth` deep at
most. -/
def translateWithin (rules : TranslationTable) : Nat → Translator
  | 0 => translateBy rules fun _ _ => .error .stackOverflow
  | depth + 1 => translateBy rules (translateWithin rules depth)

/-- How deep the rules of clients may ask for one another. A deeper stack gives no other results
(`translateWithin_of_le`), and the rules registered here need none. -/
def stackDepth : Nat := 1000

/-- The translation of an expression that stands in some place. -/
def translate (rules : TranslationTable) : Translator :=
  translateBy rules (translateWithin rules stackDepth)

/-- The translations of some expressions, each of which stands in the same place. -/
def translateAll (rules : TranslationTable) (place : Place) :
    List Expr → Except TranslationError (List SqlExpr) :=
  translateAllBy rules (translateWithin rules stackDepth) place

end Expr

end UdfBridge
