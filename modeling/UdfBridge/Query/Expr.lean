import UdfBridge.Query.Constant
import UdfBridge.Signature

/-!
# Expressions

The expressions that queries are built from: constants, columns, operators, calls of registered
functions, and aliases. An expression has a type, and it yields one value or one for each row.
-/

namespace UdfBridge

/-- A registered function, as the calls of it refer to it. -/
structure NodeKind where
  /-- What tells this registration from all others. -/
  id : String
  /-- The signature of the function. -/
  signature : Signature
deriving DecidableEq, Repr, Inhabited

/-- The name the function is called by. -/
def NodeKind.resolveName (k : NodeKind) : String := k.signature.name

/-- An operator. -/
inductive Op where
  | add
  | subtract
  | multiply
  | divide
  | equal
  | and
deriving DecidableEq, Repr, Inhabited

/-- The text of an operator. -/
def Op.symbol : Op → String
  | add => "+"
  | subtract => "-"
  | multiply => "*"
  | divide => "/"
  | equal => "="
  | and => "AND"

/-- How many values an expression yields. -/
inductive Shape where
  /-- One value. -/
  | scalar
  /-- One value for each row. -/
  | columnar
deriving DecidableEq, Repr, Inhabited

/-- The name of a shape. -/
def Shape.name : Shape → String
  | scalar => "scalar"
  | columnar => "columnar"

/-- The type and the shape of the values of an expression. -/
structure Output where
  /-- The type. -/
  type : DataType
  /-- The shape. -/
  shape : Shape
deriving DecidableEq, Repr, Inhabited

/-- An expression. -/
inductive Expr where
  | constant (value : Constant)
  | column (name : String) (type : DataType)
  | binary (lhs : Expr) (op : Op) (rhs : Expr)
  | call (kind : NodeKind) (args : List Expr)
  /-- An expression with a name for its values. -/
  | named (expr : Expr) (name : String)
deriving Repr, Inhabited

namespace Expr

/-! ## Type and shape -/

/-- The type of the values of an expression. Comparison and conjunction give truth values, and
arithmetic the higher of the two types in the numeric tower, or the left one outside of it. -/
def type : Expr → DataType
  | constant value => value.type
  | column _ type => type
  | binary lhs op rhs =>
    match op with
    | .equal | .and => .boolean
    | .add | .subtract | .multiply | .divide => (lhs.type.promote? rhs.type).getD lhs.type
  | call kind _ => kind.signature.output
  | named expr _ => expr.type

mutual

/-- Whether an expression yields one value for each row: it does if a column occurs in it. -/
def isColumnar : Expr → Bool
  | constant _ => false
  | column _ _ => true
  | binary lhs _ rhs => lhs.isColumnar || rhs.isColumnar
  | call _ args => anyColumnar args
  | named expr _ => expr.isColumnar

/-- Whether one of some expressions yields one value for each row. -/
def anyColumnar : List Expr → Bool
  | [] => false
  | e :: es => e.isColumnar || anyColumnar es

end

/-- The output of an operation of type `type` on some arguments: one value for each row as soon as
one argument has that. -/
def shapeLike (args : List Expr) (type : DataType) : Output :=
  ⟨type, if anyColumnar args then .columnar else .scalar⟩

/-- The shape of the values of an expression. -/
def shape (e : Expr) : Shape :=
  if e.isColumnar then .columnar else .scalar

/-- The type and the shape of the values of an expression. -/
def output (e : Expr) : Output :=
  ⟨e.type, e.shape⟩

/-! ## Text -/

mutual

/-- The text that an expression is shown as. Calls show what they refer to. -/
def display : Expr → String
  | constant value => value.display
  | column name _ => name
  | binary lhs op rhs => "(" ++ lhs.display ++ " " ++ op.symbol ++ " " ++ rhs.display ++ ")"
  | call kind args => kind.id ++ "(" ++ ", ".intercalate (displayAll args) ++ ")"
  | named expr name => expr.display ++ " AS " ++ name

/-- The texts that some expressions are shown as. -/
def displayAll : List Expr → List String
  | [] => []
  | e :: es => e.display :: displayAll es

end

/-! ## Equality -/

mutual

/-- Whether two expressions are equal. -/
def same : Expr → Expr → Bool
  | constant a, constant b => a.same b
  | column a s, column b t => a == b && s == t
  | binary a op b, binary c op' d => a.same c && op == op' && b.same d
  | call k as, call l bs => k == l && sameAll as bs
  | named a m, named b n => a.same b && m == n
  | _, _ => false

/-- Whether two lists of expressions are equal. -/
def sameAll : List Expr → List Expr → Bool
  | [], [] => true
  | a :: as, b :: bs => a.same b && sameAll as bs
  | _, _ => false

end

end Expr

end UdfBridge
