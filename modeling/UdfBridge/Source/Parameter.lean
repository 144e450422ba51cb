import UdfBridge.Source.Grammar
import UdfBridge.Text.Blank

/-!
# The parameters of a function

A parameter list is written as items: parameters and the two markers. `Parameter.ofItems` reads
the items from left to right and gives each parameter the kind that its place decides.
-/

namespace UdfBridge.Source

open Grammar (Node)

/-- Why a text could not be read as a function definition. -/
inductive ReadError where
  /-- The text does not match the grammar. -/
  | noMatch
  /-- The match has no definition in it. -/
  | noDefinition
  /-- A node stands where the reader has no place for it. -/
  | misplaced (rule : Rule)
deriving DecidableEq, Repr

/-- How a parameter takes its argument. -/
inductive ParameterKind where
  | positionalOnly
  | positionalOrKeyword
  | keywordOnly
  | varPositional
  | varKeyword
deriving DecidableEq, Repr, Inhabited

/-- Whether a parameter of this kind takes any number of arguments. -/
def ParameterKind.isVariadic : ParameterKind → Bool
  | varPositional | varKeyword => true
  | positionalOnly | positionalOrKeyword | keywordOnly => false

/-- A named item of a parameter list, as written. -/
structure WrittenParameter where
  /-- The name. -/
  name : String
  /-- The text of the annotation, if there is one. -/
  hint? : Option String
  /-- The text of the default value, if there is one. -/
  default? : Option String
deriving DecidableEq, Repr, Inhabited

/-- One item of a parameter list, as written. -/
inductive Item where
  /-- The marker before which parameters are positional-only. -/
  | slash
  /-- The marker after which parameters are keyword-only. -/
  | star
  /-- A parameter for one argument. -/
  | plain (p : WrittenParameter)
  /-- A parameter for the remaining positional arguments. -/
  | starred (p : WrittenParameter)
  /-- A parameter for the remaining keyword arguments. -/
  | doubleStarred (p : WrittenParameter)
deriving DecidableEq, Repr, Inhabited

/-- A parameter of a function. -/
structure Parameter extends WrittenParameter where
  /-- How the parameter takes its argument. -/
  kind : ParameterKind
deriving DecidableEq, Repr, Inhabited

/-- The parameters that `items` declare behind the parameters `earlier`, where plain parameters
now have the kind `kind`. A slash makes every parameter before it positional-only; a star and a
starred parameter make the plain ones behind them keyword-only. -/
def Parameter.ofItemsAfter (kind : ParameterKind) (earlier : List Parameter) :
    List Item → List Parameter
  | [] => earlier
  | .slash :: items =>
    ofItemsAfter kind (earlier.map fun p => { p with kind := .positionalOnly }) items
  | .star :: items => ofItemsAfter .keywordOnly earlier items
  | .plain p :: items => ofItemsAfter kind (earlier ++ [{ p with kind }]) items
  | .starred p :: items =>
    ofItemsAfter .keywordOnly (earlier ++ [{ p with kind := .varPositional }]) items
  | .doubleStarred p :: items =>
    ofItemsAfter kind (earlier ++ [{ p with kind := .varKeyword }]) items

/-- The parameters that the items of a list declare, in order. -/
def Parameter.ofItems (items : List Item) : List Parameter :=
  ofItemsAfter .positionalOrKeyword [] items

/-! ## Reading the items off the tree -/

/-- Takes one node inside a parameter into account. -/
def WrittenParameter.addNode (p : WrittenParameter) (n : Node Rule) :
    Except ReadError WrittenParameter :=
  match n.rule with
  | .identifier => .ok { p with name := n.text }
  | .hintExpr => .ok { p with hint? := some (Text.trim n.text) }
  | .defaultExpr => .ok { p with default? := some (Text.trim n.text) }
  | rule => .error (.misplaced rule)

/-- The parameter that the nodes inside its node describe. -/
def WrittenParameter.ofNodes (ns : List (Node Rule)) : Except ReadError WrittenParameter :=
  ns.foldlM addNode ⟨"", none, none⟩

/-- The item of a node of a parameter list. -/
def Item.ofNode (n : Node Rule) : Except ReadError Item :=
  match n.rule with
  | .positionalMarker => .ok .slash
  | .keywordMarker => .ok .star
  | .parameter => .plain <$> WrittenParameter.ofNodes n.children
  | .varPositional => .starred <$> WrittenParameter.ofNodes n.children
  | .varKeyword => .doubleStarred <$> WrittenParameter.ofNodes n.children
  | rule => .error (.misplaced rule)

/-- The parameters that the nodes of a parameter list declare. -/
def Parameter.ofNodes (ns : List (Node Rule)) : Except ReadError (List Parameter) :=
  ofItems <$> ns.mapM Item.ofNode

end UdfBridge.Source
