import UdfBridge.Proofs.Routine.Build
import UdfBridge.Proofs.Source.Arrangement
import UdfBridge.Proofs.Source.Name
import UdfBridge.Proofs.Source.Undecorated
import UdfBridge.Proofs.Text.Apart

/-!
# The call at the end of a routine

The last line of a routine calls the function with the arguments of the routine. `CallLine.read?`
takes such a call apart and `bind?` says which parameter gets which of the arguments: those without
a keyword go to the parameters from the left, those with one to the parameter of that name.
`call_binds_by_name` states that every parameter gets the argument of its own name.
-/

namespace UdfBridge.Routine

open Source (Arrangement FunctionDef Parameter isName lineEnds not_mem_of_isName writtenItems)

/-! ## Calls -/

/-- An argument of a call, whose value has a name. -/
structure CallArgument where
  /-- The name of the parameter that gets the argument, if the call gives one. -/
  keyword? : Option String
  /-- The name of the value. -/
  value : String
deriving DecidableEq, Repr

/-- A call of a function by its name. -/
structure CallLine where
  /-- The name of the function. -/
  function : String
  /-- The arguments, in order. -/
  arguments : List CallArgument
deriving DecidableEq, Repr

/-- Reads an argument: a name, or a keyword and a name with an equals sign between them. -/
def CallArgument.read? (s : List Char) : Option CallArgument :=
  match s.splitOn '=' with
  | [value] => if isName value then some ⟨none, .ofList value⟩ else none
  | [keyword, value] =>
    if isName keyword && isName value then some ⟨some (.ofList keyword), .ofList value⟩ else none
  | _ => none

/-- Reads the arguments between commas, behind which there may be blanks. -/
def readArguments? (s : List Char) : Option (List CallArgument) :=
  if s = [] then some []
  else (s.splitOn ',').mapM fun piece => CallArgument.read? (piece.dropWhile (· == ' '))

/-- Reads a call: the name of the function and, in parentheses, the arguments. -/
def CallLine.read? (s : List Char) : Option CallLine :=
  match s.splitOn '(' with
  | [function, rest] =>
    match rest.splitOn ')' with
    | [arguments, []] =>
      if isName function then (readArguments? arguments).map (⟨.ofList function, ·⟩) else none
    | _ => none
  | _ => none

/-! ## Calling convention -/

/-- A parameter with the value that it has got, if it has got one. -/
abbrev Slot := Parameter × Option String

/-- A parameter that has got no value yet. -/
def unfilled (p : Parameter) : Slot := (p, none)

/-- A parameter that has got the value of its own name. -/
def ownValue (p : Parameter) : Slot := (p, some p.name)

/-- Values without a keyword fill the parameters that are not keyword-only from the left. -/
def fillByPosition : List Parameter → List String → Option (List Slot)
  | ps, [] => some (ps.map unfilled)
  | [], _ :: _ => none
  | p :: ps, v :: vs =>
    if p.kind = .keywordOnly then (fillByPosition ps (v :: vs)).map (unfilled p :: ·)
    else (fillByPosition ps vs).map ((p, some v) :: ·)

/-- A value with a keyword goes to the parameter of that name, which must not be positional-only and
not have got a value yet. -/
def fillByKeyword (keyword value : String) : List Slot → Option (List Slot)
  | [] => none
  | (p, value?) :: slots =>
    if p.name = keyword ∧ p.kind ≠ .positionalOnly then
      if value?.isSome then none else some ((p, some value) :: slots)
    else (fillByKeyword keyword value slots).map ((p, value?) :: ·)

/-- An argument with a keyword goes to its parameter. One without a keyword has no place behind
it. -/
def fillNext (slots : List Slot) (a : CallArgument) : Option (List Slot) :=
  match a.keyword? with
  | none => none
  | some keyword => fillByKeyword keyword a.value slots

/-- What the parameters of a function without variadic parameters get from the arguments of a call.
A parameter that gets no value needs a default. -/
def bind? (ps : List Parameter) (args : List CallArgument) : Option (List Slot) := do
  let slots ← fillByPosition ps ((args.takeWhile (·.keyword?.isNone)).map CallArgument.value)
  let slots ← (args.dropWhile (·.keyword?.isNone)).foldlM fillNext slots
  if slots.all fun slot => slot.2.isSome || slot.1.default?.isSome then some slots else none

/-- The argument that passes a parameter on. -/
def passed (p : Parameter) : CallArgument :=
  ⟨if p.kind = .keywordOnly then some p.name else none, p.name⟩

/-- Values in the order of the parameters fill those before the keyword-only ones. -/
theorem fillByPosition_append {us : List Parameter} (hus : ∀ p ∈ us, p.kind ≠ .keywordOnly)
    (ks : List Parameter) : fillByPosition (us ++ ks) (us.map (·.name)) =
      some (us.map ownValue ++ ks.map unfilled) := by
  induction us with
  | nil => cases ks <;> rfl
  | cons p us ih =>
    obtain ⟨hp, hus⟩ := List.forall_mem_cons.mp hus
    rw [List.cons_append, List.map_cons, fillByPosition, if_neg hp, ih hus]
    rfl

/-- A keyword passes over the parameters of other names. -/
theorem fillByKeyword_append {keyword value : String} {before slots : List Slot}
    (h : ∀ slot ∈ before, slot.1.name ≠ keyword) :
    fillByKeyword keyword value (before ++ slots) =
      (fillByKeyword keyword value slots).map (before ++ ·) := by
  induction before with
  | nil => simp
  | cons slot before ih =>
    obtain ⟨hslot, hbefore⟩ := List.forall_mem_cons.mp h
    rw [List.cons_append, fillByKeyword, if_neg fun hname => hslot hname.1, ih hbefore,
      Option.map_map]
    rfl

/-- A keyword-only parameter gets its value, if those before it have other names. -/
theorem fillNext_passed {k : Parameter} (hk : k.kind = .keywordOnly) {done : List Parameter}
    (hdone : ∀ p ∈ done, p.name ≠ k.name) (ks : List Parameter) :
    fillNext (done.map ownValue ++ (k :: ks).map unfilled) (passed k) =
      some ((done ++ [k]).map ownValue ++ ks.map unfilled) := by
  -- The keyword passes over the parameters that have got their values, to the next one.
  have hother : ∀ slot ∈ done.map ownValue, slot.1.name ≠ k.name := by
    intro slot hslot
    obtain ⟨p, hp, rfl⟩ := List.mem_map.mp hslot
    exact hdone p hp
  have hempty : fillByKeyword k.name k.name ((k :: ks).map unfilled) =
      some (ownValue k :: ks.map unfilled) := by
    rw [List.map_cons, unfilled, fillByKeyword, if_pos ⟨rfl, by simp [hk]⟩]
    rfl
  rw [passed, if_pos hk]
  show fillByKeyword k.name k.name _ = _
  rw [fillByKeyword_append hother, hempty]
  simp

/-- The keywords fill the keyword-only parameters one after the other. The induction is on those
that have got no value yet. -/
theorem foldlM_fillNext {ks : List Parameter} (hks : ∀ p ∈ ks, p.kind = .keywordOnly)
    {done : List Parameter} (hnodup : ((done ++ ks).map (·.name)).Nodup) :
    (ks.map passed).foldlM fillNext (done.map ownValue ++ ks.map unfilled) =
      some ((done ++ ks).map ownValue) := by
  induction ks generalizing done with
  | nil => simp
  | cons k ks ih =>
    obtain ⟨hk, hks⟩ := List.forall_mem_cons.mp hks
    -- No two names are the same, so no earlier parameter takes the value.
    have hdone : ∀ p ∈ done, p.name ≠ k.name := by
      rw [List.map_append, List.nodup_append] at hnodup
      exact fun p hp => hnodup.2.2 _ (List.mem_map_of_mem hp) _ List.mem_cons_self
    have hnodup' : ((done ++ [k] ++ ks).map (·.name)).Nodup := by rwa [List.append_assoc]
    have hrest := ih hks hnodup'
    rw [List.append_assoc, List.singleton_append] at hrest
    have hpassed : (k :: ks).map passed = passed k :: ks.map passed := List.map_cons
    rw [hpassed, List.foldlM_cons, fillNext_passed hk hdone]
    exact hrest

/-- Where the keyword-only parameters come last, every parameter gets the value that is passed on for
it. -/
theorem bind?_map_passed {us ks : List Parameter} (hus : ∀ p ∈ us, p.kind ≠ .keywordOnly)
    (hks : ∀ p ∈ ks, p.kind = .keywordOnly) (hnodup : ((us ++ ks).map (·.name)).Nodup) :
    bind? (us ++ ks) ((us ++ ks).map passed) = some ((us ++ ks).map ownValue) := by
  -- The arguments before the first keyword are those for the parameters `us`.
  have hbyPosition : ∀ a ∈ us.map passed, a.keyword?.isNone = true := by
    intro a ha
    obtain ⟨p, hp, rfl⟩ := List.mem_map.mp ha
    simp [passed, hus p hp]
  have hsplit : (ks.map passed).takeWhile (·.keyword?.isNone) = [] ∧
      (ks.map passed).dropWhile (·.keyword?.isNone) = ks.map passed := by
    cases ks with
    | nil => exact ⟨rfl, rfl⟩
    | cons k ks => simp [passed, hks k List.mem_cons_self]
  -- The values that stand without keywords are the names of `us`, and each slot gets its own name.
  have hvalues : (us.map passed).map CallArgument.value = us.map (·.name) := List.map_map
  have hall : (((us ++ ks).map ownValue).all fun slot =>
      slot.2.isSome || slot.1.default?.isSome) = true := by
    simp [ownValue]
  unfold bind?
  rw [List.map_append, List.takeWhile_append_of_pos hbyPosition,
    List.dropWhile_append_of_pos hbyPosition, hsplit.1, hsplit.2, List.append_nil, hvalues,
    fillByPosition_append hus, Option.bind_eq_bind, Option.bind_some, foldlM_fillNext hks hnodup,
    Option.bind_some, if_pos hall]

/-! ## Reading the call -/

variable {s t : List Char} {c : Char}

/-- A text without the separator is one piece. -/
theorem splitOn_of_not_mem (hs : c ∉ s) : s.splitOn c = [s] := by
  have hsplit : ([c].intercalate [s]).splitOn c = [s] :=
    List.splitOn_intercalate c (by simpa using hs) (by simp)
  rwa [List.intercalate_singleton] at hsplit

/-- A text with one separator is two pieces. -/
theorem splitOn_append_cons (hs : c ∉ s) (ht : c ∉ t) : (s ++ c :: t).splitOn c = [s, t] := by
  have hsplit : ([c].intercalate [s, t]).splitOn c = [s, t] :=
    List.splitOn_intercalate c (by simp [hs, ht]) (by simp)
  simpa [List.intercalate_cons_cons, List.intercalate_singleton] using hsplit

/-- The blanks behind the commas go to the arguments. -/
theorem intercalate_comma_blank (x : List Char) (xs : List (List Char)) :
    [',', ' '].intercalate (x :: xs) = [','].intercalate (x :: xs.map (' ' :: ·)) := by
  induction xs generalizing x with
  | nil => simp
  | cons y ys ih =>
    rw [List.map_cons, List.intercalate_cons_cons, List.intercalate_cons_cons, ih]
    cases ys with
    | nil => simp
    | cons z zs => simp [List.intercalate_cons_cons]

/-- The characters that give a call its structure. -/
def callSigns : List Char := [',', ' ', '(', ')', '=']

/-- Neither the signs of a call nor the ends of lines are in names. -/
theorem sign_not_mem_of_isName (h : isName s = true) : ∀ c ∈ callSigns ++ lineEnds, c ∉ s := by
  have hrefused : ∀ c ∈ callSigns ++ lineEnds,
      Source.startsIdentifier c = false ∧ Text.isXidContinue c = false := by decide
  exact fun c hc => not_mem_of_isName (hrefused c hc).1 (hrefused c hc).2 h

variable {p : Parameter} {f : FunctionDef}

/-- A keyword-only parameter is passed on by its name, and any other in its place. -/
theorem toList_argument (p : Parameter) : (argument p).toList =
    if p.kind = .keywordOnly then p.name.toList ++ '=' :: p.name.toList else p.name.toList := by
  unfold argument
  split
  · simp
  · rfl

/-- No sign of a call but the one of equality is in an argument, and no end of a line. -/
theorem not_mem_argument (hp : isName p.name.toList = true)
    (hc : c ∈ callSigns ++ lineEnds) (hsign : c ≠ '=') : c ∉ (argument p).toList := by
  have hname := sign_not_mem_of_isName hp c hc
  rw [toList_argument]
  split
  · simp [hname, hsign]
  · exact hname

/-- The text of an argument is read as the argument. -/
theorem read?_argument (hp : isName p.name.toList = true) :
    CallArgument.read? (argument p).toList = some (passed p) := by
  have hsign : '=' ∉ p.name.toList := sign_not_mem_of_isName hp '=' (by decide)
  unfold CallArgument.read? passed
  rw [toList_argument]
  by_cases hkind : p.kind = .keywordOnly
  · rw [if_pos hkind, if_pos hkind, splitOn_append_cons hsign hsign]
    simp [hp]
  · rw [if_neg hkind, if_neg hkind, splitOn_of_not_mem hsign]
    simp [hp]

/-- No argument starts with a blank. -/
theorem dropWhile_argument (hp : isName p.name.toList = true) :
    (argument p).toList.dropWhile (· == ' ') = (argument p).toList := by
  have hblank := not_mem_argument hp (c := ' ') (by decide) (by decide)
  cases harg : (argument p).toList with
  | nil => rfl
  | cons c s =>
    rw [harg, List.mem_cons, not_or] at hblank
    rw [List.dropWhile_cons_of_neg (by simpa using Ne.symm hblank.1)]

/-- Pieces that are arguments behind the same blanks are read as these arguments. -/
theorem mapM_read?_argument {lead : List Char} (hlead : lead.dropWhile (· == ' ') = [])
    {ps : List Parameter} (hps : ∀ p ∈ ps, isName p.name.toList = true) :
    (ps.map fun p => lead ++ (argument p).toList).mapM
      (fun piece => CallArgument.read? (piece.dropWhile (· == ' '))) = some (ps.map passed) := by
  induction ps with
  | nil => rfl
  | cons p ps ih =>
    obtain ⟨hp, hps⟩ := List.forall_mem_cons.mp hps
    rw [List.map_cons, List.mapM_cons, ih hps, List.dropWhile_append, hlead]
    simp [dropWhile_argument hp, read?_argument hp]

/-- The texts of arguments between commas are read as the arguments. -/
theorem readArguments?_intercalate {ps : List Parameter}
    (hps : ∀ p ∈ ps, isName p.name.toList = true) :
    readArguments? ([',', ' '].intercalate (ps.map fun p => (argument p).toList)) =
      some (ps.map passed) := by
  cases ps with
  | nil => rfl
  | cons p ps =>
    obtain ⟨hp, hps⟩ := List.forall_mem_cons.mp hps
    -- The first piece is an argument, the others are arguments behind a blank.
    have hpieces : [',', ' '].intercalate ((p :: ps).map fun p => (argument p).toList) =
        [','].intercalate ((argument p).toList :: ps.map fun p => [' '] ++ (argument p).toList) := by
      rw [List.map_cons, intercalate_comma_blank, List.map_map]
      rfl
    have hcomma : ∀ x ∈ (argument p).toList :: ps.map fun p => [' '] ++ (argument p).toList,
        ',' ∉ x := by
      rw [List.forall_mem_cons]
      refine ⟨not_mem_argument hp (by decide) (by decide), fun x hx => ?_⟩
      obtain ⟨q, hq, rfl⟩ := List.mem_map.mp hx
      simpa using not_mem_argument (hps q hq) (c := ',') (by decide) (by decide)
    -- The list is not empty, for its first piece would be a name without characters.
    have hne : [','].intercalate
        ((argument p).toList :: ps.map fun p => [' '] ++ (argument p).toList) ≠ [] := by
      intro hnil
      have hsplit := List.splitOn_intercalate _ hcomma (by simp)
      have hread := read?_argument hp
      rw [hnil, List.splitOn_nil, List.cons.injEq] at hsplit
      rw [← hsplit.1] at hread
      simp [CallArgument.read?, isName] at hread
    rw [hpieces, readArguments?, if_neg hne, List.splitOn_intercalate _ hcomma (by simp),
      List.mapM_cons, dropWhile_argument hp, read?_argument hp, mapM_read?_argument rfl hps]
    rfl

/-- The call of a function is its name and, in parentheses, the arguments between commas. -/
theorem toList_callOf (f : FunctionDef) : (callOf f).toList = f.name.toList ++ '(' ::
    ([',', ' '].intercalate (f.parameters.map fun p => (argument p).toList) ++ [')']) := by
  have hargs : (f.parameters.map argument).map String.toList =
      f.parameters.map fun p => (argument p).toList := List.map_map
  simp [callOf, String.toList_intercalate, hargs]

/-- What a call is made of is read off it again. -/
theorem read?_callOf (hname : isName f.name.toList = true)
    (hps : ∀ p ∈ f.parameters, isName p.name.toList = true) :
    CallLine.read? (callOf f).toList = some ⟨f.name, f.parameters.map passed⟩ := by
  -- The arguments have no parentheses, so the call is cut at its own ones.
  have hsign : ∀ c ∈ ['(', ')'],
      c ∉ [',', ' '].intercalate (f.parameters.map fun p => (argument p).toList) := by
    intro c hc
    have hother : ∀ c ∈ ['(', ')'], c ∉ [',', ' '] := by decide
    refine Text.not_mem_intercalate (hother c hc) (List.forall_mem_map.mpr fun p hp => ?_)
    have hmem : ∀ c ∈ ['(', ')'], c ∈ callSigns ++ lineEnds ∧ c ≠ '=' := by decide
    exact not_mem_argument (hps p hp) (hmem c hc).1 (hmem c hc).2
  rw [List.forall_mem_cons, List.forall_mem_singleton] at hsign
  rw [toList_callOf, CallLine.read?,
    splitOn_append_cons (sign_not_mem_of_isName hname '(' (by decide)) (by simp [hsign.1])]
  simp only
  rw [splitOn_append_cons hsign.2 List.not_mem_nil]
  simp [hname, readArguments?_intercalate hps]

/-- A call is on one line. -/
theorem lineEnd_not_mem_callOf (hname : isName f.name.toList = true)
    (hps : ∀ p ∈ f.parameters, isName p.name.toList = true) :
    ∀ c ∈ lineEnds, c ∉ (callOf f).toList := by
  intro c hc
  have hmem : c ∈ callSigns ++ lineEnds := List.mem_append_right _ hc
  have hother : ∀ c ∈ lineEnds, c ∉ callSigns := by decide
  have hsigns : c ≠ ',' ∧ c ≠ ' ' ∧ c ≠ '(' ∧ c ≠ ')' ∧ c ≠ '=' := by
    simpa [callSigns] using hother c hc
  have hargs : c ∉ [',', ' '].intercalate (f.parameters.map fun p => (argument p).toList) := by
    refine Text.not_mem_intercalate (by simp [hsigns]) (List.forall_mem_map.mpr fun p hp => ?_)
    exact not_mem_argument (hps p hp) hmem hsigns.2.2.2.2
  rw [toList_callOf]
  simp [sign_not_mem_of_isName hname c hmem, hargs, hsigns]

/-- **The call passes every argument to the parameter of its own name.** Let a definition have its
parameters in order and none that is variadic. The call of its routine is one line with the name of
the function and arguments of which each parameter gets the one with its own name; and these are the
names of the arguments of the routine, in order and all different. -/
theorem call_binds_by_name {text : String} (hparse : FunctionDef.parse text = .ok f)
    {a : Arrangement} (hitems : writtenItems (Text.dedent text) = .ok a.items)
    (hvariadic : ∀ i ∈ a.items, i.isVariadic = false) {inputs : List DataType} {output : DataType}
    {options : DeployOptions} {r : Routine} (hbuild : build f inputs output options = .ok r) :
    (∀ c ∈ lineEnds, c ∉ r.call.toList) ∧
      ∃ args, CallLine.read? r.call.toList = some ⟨f.name, args⟩ ∧
        bind? a.parameters args = some (a.parameters.map ownValue) ∧
        r.signature.parameterNames = a.parameters.map (·.name) ∧
        (a.parameters.map (·.name)).Nodup := by
  obtain ⟨hname, hnames⟩ := FunctionDef.isName_of_parse hparse
  have hparameters : f.parameters = a.parameters := by
    obtain ⟨-, -, items, hitems', heq⟩ := FunctionDef.parse_spec hparse
    obtain rfl := Except.ok.inj (hitems.symm.trans hitems')
    rw [heq, Parameter.ofItems_items]
  obtain ⟨-, signature, body, hsignature, -, rfl⟩ := build_eq_ok.mp hbuild
  obtain ⟨-, -, hnodup⟩ := exists_build_draftOf_iff.mp ⟨signature, hsignature⟩
  obtain ⟨-, hsignatureNames⟩ := names_draftOf_eq_ok.mp (Signature.names_of_build hsignature)
  refine ⟨lineEnd_not_mem_callOf hname hnames, f.parameters.map passed,
    read?_callOf hname hnames, ?_, hparameters ▸ hsignatureNames, hparameters ▸ hnodup⟩
  -- Without variadic items, the keyword-only parameters are those behind the positional ones.
  obtain ⟨ps, hps⟩ := Arrangement.exists_parameters_eq hvariadic
  rw [hparameters] at hnodup ⊢
  rw [hps] at hnodup ⊢
  refine bind?_map_passed (fun p => Arrangement.kind_of_mem_positional) (fun p hp => ?_) hnodup
  obtain ⟨w, -, rfl⟩ := List.mem_map.mp hp
  rfl

/-- A list with a parameter of each kind. -/
def mixedArrangement : Arrangement where
  positionalOnly := [⟨"a", none, none⟩]
  flexible := [⟨"b", some "dict[str, int]", none⟩]
  starPart := .bare ⟨"c", none, some "(1, 2)"⟩ [⟨"d", none, none⟩]
  last? := none

/-- The parameters of a function that has another name in the database. -/
theorem call_binds_by_name_of_mixed : ∃ f r args,
    FunctionDef.parse "def f(a, /, b: dict[str, int], *, c=(1, 2), d): pass" = .ok f ∧
      build f [.int32, .string, .float64, .boolean] .int32 { name? := some "g" } = .ok r ∧
      r.call = "f(a, b, c=c, d=d)" ∧ CallLine.read? r.call.toList = some ⟨"f", args⟩ ∧
      bind? mixedArrangement.parameters args = some (mixedArrangement.parameters.map ownValue) := by
  obtain ⟨f, hparse, hname, hroutine⟩ : ∃ f,
      FunctionDef.parse "def f(a, /, b: dict[str, int], *, c=(1, 2), d): pass" = .ok f ∧
        f.name = "f" ∧ ∃ r ∈ (build f [.int32, .string, .float64, .boolean] .int32
          { name? := some "g" }).toOption, r.call = "f(a, b, c=c, d=d)" := by
    rw [FunctionDef.parse_ofList]
    exact Source.exists_eq_ok (by decide +kernel)
  obtain ⟨r, hbuild, hcall⟩ := Source.exists_eq_ok hroutine
  have hitems : Source.writtenItems
      (Text.dedent "def f(a, /, b: dict[str, int], *, c=(1, 2), d): pass") =
        .ok mixedArrangement.items := by
    rw [Text.dedent, String.toList_ofList, Source.writtenItems, Source.root_ofList]
    exact Source.eq_ok_of_toOption_eq (by decide +kernel)
  obtain ⟨-, args, hread, hbind, -⟩ := call_binds_by_name hparse hitems (by decide) hbuild
  exact ⟨f, r, args, hparse, hbuild, hcall, hname ▸ hread, hbind⟩

end UdfBridge.Routine
