import UdfBridge.Query.Call
import UdfBridge.Query.Translation

/-!
# The registry of functions

Each registration of a function mints a new node kind, numbered among those of the same name, so
that registering a name again does not disturb the calls made before. The registry holds how many
kinds each name has, the kinds by their identities, and the rules by which calls are translated.

A rule of a client's own may go by what kinds there are when a call is translated. So rules are
registered as functions of a `Census`, and `Registry.table` is the translation table that they make
with the kinds that there are now.
-/

namespace UdfBridge

/-- What can be asked about the kinds minted so far. -/
structure Census where
  /-- How many kinds there are of a name. -/
  kindCount : String → Nat
  /-- The kind of an identity. -/
  lookup? : String → Option NodeKind

/-- A rule as it is registered: it may go by what kinds there are when a call is translated. -/
abbrev RegisteredRule := Census → TranslationRule

/-- The rule that is the same whatever kinds there are. -/
def RegisteredRule.always (rule : TranslationRule) : RegisteredRule :=
  fun _ => rule

/-- The functions registered so far. -/
structure Registry where
  /-- How many kinds have been minted under each name. -/
  counts : Std.TreeMap String Nat
  /-- The kinds minted so far, by their identities. -/
  kinds : Std.TreeMap String NodeKind
  /-- The rules by which calls are translated, by the identities of the kinds. -/
  rules : Std.TreeMap String RegisteredRule

namespace Registry

/-- The registry before any registration. -/
def empty : Registry := ⟨∅, ∅, ∅⟩

instance : Inhabited Registry := ⟨empty⟩

/-- How many kinds have been minted under `name`. -/
def kindCount (r : Registry) (name : String) : Nat :=
  r.counts.getD name 0

/-- The kind of an identity. -/
def lookup? (r : Registry) (id : String) : Option NodeKind :=
  r.kinds[id]?

/-- What can be asked about the kinds of the registry. -/
def census (r : Registry) : Census :=
  ⟨r.kindCount, r.lookup?⟩

/-- The translation table, with the kinds that there are now. -/
def table (r : Registry) : TranslationTable :=
  r.rules.map fun _ rule => rule r.census

/-- The identity of the kind that was minted as number `n` under `name`. -/
def kindId (name : String) (n : Nat) : String :=
  name ++ "_" ++ toString n

/-- The kind that is minted next for a signature. -/
def nextKind (r : Registry) (s : Signature) : NodeKind :=
  ⟨kindId s.name (r.kindCount s.name), s⟩

/-- The registry after minting the next kind for a signature. -/
def mint (r : Registry) (s : Signature) : Registry :=
  let k := r.nextKind s
  { r with
    counts := r.counts.insert s.name (r.kindCount s.name + 1)
    kinds := r.kinds.insert k.id k }

/-- Minting a kind counts it under its name and leaves the other counts. -/
theorem kindCount_mint (r : Registry) (s : Signature) (name : String) :
    (r.mint s).kindCount name = r.kindCount name + if s.name = name then 1 else 0 := by
  simp only [kindCount, mint, Std.TreeMap.getD_insert, Std.compare_eq_iff_eq]
  split <;> simp_all

/-- Minting a kind makes it known by its identity and leaves the other kinds. -/
theorem lookup?_mint (r : Registry) (s : Signature) (id : String) :
    (r.mint s).lookup? id =
      if (r.nextKind s).id = id then some (r.nextKind s) else r.lookup? id := by
  simp only [lookup?, mint, Std.TreeMap.getElem?_insert, Std.compare_eq_iff_eq]

/-- The registry with the rule for a kind, in place of an earlier one. -/
def addRule (r : Registry) (k : NodeKind) (rule : RegisteredRule) : Registry :=
  { r with rules := r.rules.insert k.id rule }

/-- A rule for a kind replaces the one it had and leaves those of the other kinds. -/
theorem getElem?_rules_addRule (r : Registry) (k : NodeKind) (rule : RegisteredRule)
    (id : String) :
    (r.addRule k rule).rules[id]? = if k.id = id then some rule else r.rules[id]? := by
  simp only [addRule, Std.TreeMap.getElem?_insert, Std.compare_eq_iff_eq]

/-- The rule that calls the function by its name, each argument an operand. -/
def callRule (k : NodeKind) : TranslationRule :=
  .call k.signature.reference .operand

/-- The registry with the rule that calls the function of a kind by its name. -/
def register (r : Registry) (k : NodeKind) : Registry :=
  r.addRule k (.always (callRule k))

end Registry

/-- A registered function, ready to be called. -/
structure Udf where
  /-- The kind of the calls of the function. -/
  kind : NodeKind
deriving DecidableEq, Repr, Inhabited

/-- A call of the function with some arguments. -/
def Udf.call (f : Udf) (args : List Expr) : Except Error Expr :=
  (f.kind.instantiate args).mapError .argument

/-- Binds a function that exists in the database: mints a kind for its signature and registers the
rule that calls it. If the draft describes no signature, the registry stays as it is. -/
def Registry.bind (d : Signature.Draft) (r : Registry) : Except Error Udf × Registry :=
  match d.build with
  | .error e => (.error (.configuration e), r)
  | .ok s =>
    let k := r.nextKind s
    (.ok ⟨k⟩, (r.mint s).register k)

end UdfBridge
