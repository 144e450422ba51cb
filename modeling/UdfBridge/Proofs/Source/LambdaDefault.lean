import UdfBridge.Proofs.Source.Printed

/-!
# Functions as default values

A default value is cut at the first comma outside strings and brackets, and the arguments of a
`lambda` stand between such commas. So a parameter whose default value is a function of two or more
arguments is taken for several parameters (`LambdaParameter.read`): the first one keeps the first
argument, the others are called like the remaining arguments, and the last of them has what the
function returns for its annotation.

`parse_lambdaFunction` gives the parameters of every such list, and says that they are those that
were written exactly if no function takes more than one argument.
-/

namespace UdfBridge.Source

open Grammar
open Grammar.Pattern

/-! ## Parameters with functions for default values -/

/-- A function of some arguments, which returns a word. -/
structure Lambda where
  /-- The names of the arguments. -/
  arguments : List String
  /-- The word that is returned. -/
  result : String
  names : ∀ x ∈ arguments, isName x.toList = true
  result_ne : result.toList ≠ []
  result_plain : ∀ c ∈ result.toList, c.isAlphanum = true

/-- The text of a function. -/
def Lambda.text (l : Lambda) : String :=
  "lambda" ++ (if l.arguments = [] then "" else " " ++ ", ".intercalate l.arguments) ++ ": " ++
    l.result

/-- A parameter that may have a function for its default value. -/
structure LambdaParameter where
  /-- The name of the parameter. -/
  name : String
  /-- The function, if there is a default value. -/
  default? : Option Lambda
  isName : isName name.toList = true

namespace LambdaParameter

/-- The text of a parameter. -/
def text (p : LambdaParameter) : String :=
  match p.default? with
  | none => p.name
  | some l => p.name ++ "=" ++ l.text

/-- The parameter as it is written. -/
def written (p : LambdaParameter) : WrittenParameter :=
  ⟨p.name, none, p.default?.map Lambda.text⟩

/-- What the arguments behind the first comma of a function that returns `result` are taken for. -/
def afterComma (result : String) : List String → List WrittenParameter
  | [] => []
  | [x] => [⟨x, some result, none⟩]
  | x :: xs => .ofName x :: afterComma result xs

/-- What a parameter is taken for. -/
def read (p : LambdaParameter) : List WrittenParameter :=
  match p.default? with
  | none => [p.written]
  | some l =>
    match l.arguments with
    | x :: y :: xs => ⟨p.name, none, some ("lambda " ++ x)⟩ :: afterComma l.result (y :: xs)
    | _ => [p.written]

/-- The function of the parameter, if it has one, takes at most one argument. -/
def TakesOne (p : LambdaParameter) : Prop :=
  ∀ l ∈ p.default?, l.arguments.length ≤ 1

end LambdaParameter

/-- A function with these parameters. -/
def lambdaFunction (ps : List LambdaParameter) : String :=
  "def f(" ++ ", ".intercalate (ps.map LambdaParameter.text) ++ "): pass"

/-! ## Plain characters -/

/-- The characters of names. -/
def InName (c : Char) : Prop :=
  startsIdentifier c = true ∨ Text.isXidContinue c = true

/-- The characters of names stand for themselves in expressions, and are no white space. -/
theorem InName.plain {c : Char} (h : InName c) :
    c ∉ hintEnds ∧ c ∉ defaultEnds ∧ c ∉ signs ∧ Text.isBlank c = false := by
  have hnot : ∀ cs : List Char,
      (∀ c ∈ cs, startsIdentifier c = false ∧ Text.isXidContinue c = false) → c ∉ cs := by
    intro cs hcs hc
    obtain ⟨hstart, hcontinue⟩ := hcs c hc
    rcases h with h | h <;> simp_all
  refine ⟨hnot _ (by decide), hnot _ (by decide), hnot _ (by decide), ?_⟩
  by_contra hblank
  rw [Bool.not_eq_false] at hblank
  -- The white space characters, by their numbers.
  let numbers : List Nat := [0x9, 0xA, 0xB, 0xC, 0xD, 0x20, 0x85, 0xA0, 0x1680, 0x2000, 0x2001,
    0x2002, 0x2003, 0x2004, 0x2005, 0x2006, 0x2007, 0x2008, 0x2009, 0x200A, 0x2028, 0x2029, 0x202F,
    0x205F, 0x3000]
  have hmem : c.toNat ∈ numbers := by
    simp only [Text.isBlank, Bool.or_eq_true, Bool.and_eq_true, decide_eq_true_eq,
      beq_iff_eq] at hblank
    simp only [numbers, List.mem_cons, List.not_mem_nil, or_false]
    omega
  refine hnot (numbers.map Char.ofNat) (by decide +kernel) (List.mem_map.mpr ⟨_, hmem, ?_⟩)
  exact Char.ofNat_toNat c

/-- The characters of a name are characters of names. -/
theorem inName_of_isName {s : List Char} (h : isName s = true) : ∀ c ∈ s, InName c := by
  cases s with
  | nil => simp [isName] at h
  | cons c s =>
    obtain ⟨hc, hs⟩ := Bool.and_eq_true_iff.mp h
    exact List.forall_mem_cons.mpr ⟨.inl hc, fun d hd => .inr (List.all_eq_true.mp hs d hd)⟩

/-- A letter or a digit is a character of names. -/
theorem inName_of_isAlphanum {c : Char} (h : c.isAlphanum = true) : InName c := by
  have hlt : c.toNat < 0x80 := by
    -- A letter in upper or in lower case, or a digit.
    change (decide ('A'.val ≤ c.val ∧ c.val ≤ 'Z'.val) ||
      (decide ('a'.val ≤ c.val) && decide (c.val ≤ 'z'.val)) ||
      (decide ('0'.val ≤ c.val) && decide (c.val ≤ '9'.val))) = true at h
    simp only [Bool.or_eq_true, Bool.and_eq_true, decide_eq_true_eq, UInt32.le_iff_toNat_le] at h
    have hends : 'Z'.val.toNat < 0x80 ∧ 'z'.val.toNat < 0x80 ∧ '9'.val.toNat < 0x80 := by decide
    show c.val.toNat < 0x80
    omega
  exact .inr (Text.isXidContinue_of_isAlphanum hlt (.inl h))

/-- What a function returns is of characters of names. -/
theorem Lambda.inName_result (l : Lambda) : ∀ c ∈ l.result.toList, InName c :=
  fun c hc => inName_of_isAlphanum (l.result_plain c hc)

/-- A text of plain characters that starts and ends with one of a name is an expression. -/
theorem isExpression_of_inName {ends : List Char} {e : String} (hne : e.toList ≠ [])
    (hplain : ∀ c ∈ e.toList, c ∉ ends ∧ c ∉ signs) (hhead : ∀ c ∈ e.toList.head?, InName c)
    (hlast : ∀ c ∈ e.toList.getLast?, InName c) : IsExpression ends e :=
  ⟨.of_plain hplain, hne, fun c hc => (hhead c hc).plain.2.2.2,
    fun c hc => (hlast c hc).plain.2.2.2⟩

/-! ## What parameters are taken for -/

/-- A number of spaces. -/
def Blanks.spaces (n : Nat) : Blanks :=
  ⟨List.replicate n ' ', fun _ h => (List.mem_replicate.mp h).2 ▸ List.mem_cons_self⟩

/-- A number of spaces is as many spaces. -/
@[simp] theorem Blanks.chars_spaces (n : Nat) : (spaces n).chars = List.replicate n ' ' := rfl

/-- No blanks but the one in front of an annotation. -/
def lambdaSpacing : Spacing :=
  ⟨.spaces 0, .spaces 1, .spaces 0, .spaces 0, .spaces 0⟩

/-- The text of a list of plain parameters. -/
def plainList (ws : List WrittenParameter) : List Char :=
  listText (ws.map fun w => (Item.plain w).print lambdaSpacing)

/-- The first of some texts has a comma and a space behind it. -/
theorem listText_cons (t : String) {ts : List String} (h : ts ≠ []) :
    listText (t :: ts) = t.toList ++ ',' :: ' ' :: listText ts := by
  obtain ⟨u, ts, rfl⟩ := List.exists_cons_of_ne_nil h
  rw [listText, List.map_cons, List.map_cons, List.intercalate_cons_cons, List.append_assoc]
  rfl

/-- Between two lists of texts there is a comma and a space. -/
theorem listText_append {ts us : List String} (ht : ts ≠ []) (hu : us ≠ []) :
    listText (ts ++ us) = listText ts ++ ',' :: ' ' :: listText us := by
  induction ts with
  | nil => exact absurd rfl ht
  | cons t ts ih =>
    by_cases hnil : ts = []
    · subst hnil
      rw [List.singleton_append, listText_cons t hu]
      simp [listText]
    · rw [List.cons_append, listText_cons t (List.append_ne_nil_of_left_ne_nil hnil us), ih hnil,
        listText_cons t hnil, List.append_assoc, List.cons_append, List.cons_append]

/-- A list of one parameter is written as the parameter. -/
theorem plainList_singleton (w : WrittenParameter) : plainList [w] = w.chars lambdaSpacing := by
  simp [plainList, listText, Item.print, Item.chars]

/-- The first of some parameters has a comma and a space behind it. -/
theorem plainList_cons (w : WrittenParameter) {ws : List WrittenParameter} (h : ws ≠ []) :
    plainList (w :: ws) = w.chars lambdaSpacing ++ ',' :: ' ' :: plainList ws := by
  rw [plainList, List.map_cons, listText_cons _ (by simpa using h), Item.print,
    String.toList_ofList]
  rfl

namespace LambdaParameter

variable {l : Lambda} {p : LambdaParameter}

/-- The arguments behind the first comma, with what the function returns. -/
theorem plainList_afterComma (result : String) {xs : List String} (h : xs ≠ []) :
    afterComma result xs ≠ [] ∧ plainList (afterComma result xs) =
      [',', ' '].intercalate (xs.map String.toList) ++ ':' :: ' ' :: result.toList := by
  induction xs with
  | nil => exact absurd rfl h
  | cons x xs ih =>
    cases xs with
    | nil =>
      refine ⟨List.cons_ne_nil _ _, ?_⟩
      rw [afterComma, plainList_singleton]
      simp [WrittenParameter.chars, lambdaSpacing, printPart]
    | cons y xs =>
      obtain ⟨hne, heq⟩ := ih (List.cons_ne_nil y xs)
      refine ⟨List.cons_ne_nil _ _, ?_⟩
      rw [afterComma, plainList_cons _ hne, heq]
      · simp [WrittenParameter.chars, WrittenParameter.ofName, lambdaSpacing, printPart]
      · simp

/-- A parameter is written as its text. -/
theorem chars_written (p : LambdaParameter) : p.written.chars lambdaSpacing = p.text.toList := by
  unfold written text
  cases p.default? with
  | none => simp [WrittenParameter.chars, lambdaSpacing, printPart]
  | some l => simp [WrittenParameter.chars, lambdaSpacing, printPart]

/-- What a parameter is taken for has the same text. -/
theorem plainList_read (p : LambdaParameter) : p.read ≠ [] ∧ plainList p.read = p.text.toList := by
  have hwritten : [p.written] ≠ [] ∧ plainList [p.written] = p.text.toList :=
    ⟨List.cons_ne_nil _ _, by rw [plainList_singleton, chars_written]⟩
  unfold read
  split
  · exact hwritten
  · rename_i l hl
    split
    · rename_i x y xs hxs
      obtain ⟨hne, heq⟩ := plainList_afterComma l.result (List.cons_ne_nil y xs)
      refine ⟨List.cons_ne_nil _ _, ?_⟩
      rw [plainList_cons _ hne, heq, text, hl]
      simp [Lambda.text, hxs, WrittenParameter.chars, lambdaSpacing, printPart,
        String.toList_intercalate]
    · exact hwritten

/-- The parameters that a list of functions is taken for are written as the list is. -/
theorem plainList_flatMap_read (ps : List LambdaParameter) :
    plainList (ps.flatMap read) = listText (ps.map text) := by
  induction ps with
  | nil => rfl
  | cons p ps ih =>
    obtain ⟨hne, heq⟩ := p.plainList_read
    by_cases hnil : ps = []
    · subst hnil
      rw [List.flatMap_singleton, heq]
      simp [listText]
    · have hrest : ps.flatMap read ≠ [] := by
        obtain ⟨q, qs, rfl⟩ := List.exists_cons_of_ne_nil hnil
        rw [List.flatMap_cons]
        exact List.append_ne_nil_of_left_ne_nil q.plainList_read.1 _
      unfold plainList at heq ih ⊢
      rw [List.flatMap_cons, List.map_append, listText_append (by simpa using hne)
        (by simpa using hrest), heq, ih, List.map_cons, listText_cons _ (by simpa using hnil)]

/-! ## Every part can be read -/

/-- A character of names, a space or a colon is plain, and ends no default value. -/
theorem plain_or_blank {c : Char} (h : InName c ∨ c = ' ' ∨ c = ':') :
    c ∉ defaultEnds ∧ c ∉ signs := by
  rcases h with h | rfl | rfl
  · exact ⟨h.plain.2.1, h.plain.2.2.1⟩
  · decide
  · decide

/-- The characters of a function outside its names and what it returns. -/
def lambdaChars : List Char := ['l', 'a', 'm', 'b', 'd', 'a', ' ', ':']

/-- The characters of a function are those of names, spaces and colons. -/
theorem inName_or_blank_of_mem {c : Char} (h : c ∈ lambdaChars) : InName c ∨ c = ' ' ∨ c = ':' := by
  have hletter : ∀ c ∈ lambdaChars, startsIdentifier c = true ∨ c = ' ' ∨ c = ':' := by
    decide
  exact (hletter c h).imp_left .inl

/-- A text that starts with a letter, goes on without a comma and ends with a name or a word is the
text of a default value. -/
theorem isExpression_of_word {e : String} {a w : List Char} (htext : e.toList = 'l' :: (a ++ w))
    (ha : ∀ c ∈ a, InName c ∨ c = ' ' ∨ c = ':') (hne : w ≠ []) (hw : ∀ c ∈ w, InName c) :
    IsExpression defaultEnds e := by
  have hchars : ∀ c ∈ e.toList, c ∉ defaultEnds ∧ c ∉ signs := by
    intro c hc
    rw [htext, List.mem_cons, List.mem_append] at hc
    rcases hc with rfl | hc | hc
    · exact plain_or_blank (inName_or_blank_of_mem List.mem_cons_self)
    · exact plain_or_blank (ha c hc)
    · exact plain_or_blank (.inl (hw c hc))
  refine isExpression_of_inName (by simp [htext]) hchars ?_ ?_
  · rw [htext]
    rintro c ⟨⟩
    exact .inl (by decide)
  · rw [htext, ← List.cons_append, List.getLast?_append_of_ne_nil _ hne]
    exact fun c hc => hw c (List.mem_of_getLast? hc)

/-- The text of a function of at most one argument has no comma. -/
theorem isExpression_text (h : l.arguments.length ≤ 1) : IsExpression defaultEnds l.text := by
  obtain ⟨a, htext, ha⟩ : ∃ a, l.text.toList = 'l' :: (a ++ l.result.toList) ∧
      ∀ c ∈ a, InName c ∨ c = ' ' ∨ c = ':' := by
    unfold Lambda.text
    cases hargs : l.arguments with
    | nil =>
      refine ⟨['a', 'm', 'b', 'd', 'a', ':', ' '], by simp, fun c hc => ?_⟩
      exact inName_or_blank_of_mem ((by decide : _ ⊆ lambdaChars) hc)
    | cons x xs =>
      obtain rfl : xs = [] := by
        rw [hargs] at h
        simpa using h
      have hname := inName_of_isName (l.names x (by rw [hargs]; exact List.mem_cons_self))
      refine ⟨['a', 'm', 'b', 'd', 'a', ' '] ++ (x.toList ++ [':', ' ']), by simp, fun c hc => ?_⟩
      rcases List.mem_append.mp hc with hc | hc
      · exact inName_or_blank_of_mem ((by decide : _ ⊆ lambdaChars) hc)
      · rcases List.mem_append.mp hc with hc | hc
        · exact .inl (hname c hc)
        · exact inName_or_blank_of_mem ((by decide : _ ⊆ lambdaChars) hc)
  exact isExpression_of_word htext ha l.result_ne l.inName_result

/-- What stands before the first comma of a function has none. -/
theorem isExpression_beforeComma {x : String} (hx : Source.isName x.toList = true) :
    IsExpression defaultEnds ("lambda " ++ x) := by
  refine isExpression_of_word (a := ['a', 'm', 'b', 'd', 'a', ' ']) (w := x.toList) (by simp)
    (fun c hc => inName_or_blank_of_mem ((by decide : _ ⊆ lambdaChars) hc)) ?_ (inName_of_isName hx)
  rintro hnil
  simp [hnil, Source.isName] at hx

/-- What the arguments behind the first comma are taken for can be printed. -/
theorem printable_afterComma {xs : List String} (hxs : ∀ x ∈ xs, Source.isName x.toList = true) :
    ∀ w ∈ afterComma l.result xs, w.Printable := by
  have hnone : ∀ ends, ∀ e ∈ (none : Option String), IsExpression ends e := by simp
  have hresult : IsExpression hintEnds l.result :=
    isExpression_of_inName l.result_ne
      (fun c hc => ⟨(l.inName_result c hc).plain.1, (l.inName_result c hc).plain.2.2.1⟩)
      (fun c hc => l.inName_result c (List.mem_of_mem_head? hc))
      fun c hc => l.inName_result c (List.mem_of_getLast? hc)
  induction xs with
  | nil => exact List.forall_mem_nil _
  | cons x xs ih =>
    obtain ⟨hx, hrest⟩ := List.forall_mem_cons.mp hxs
    cases xs with
    | nil => exact List.forall_mem_singleton.mpr ⟨hx, by rintro _ ⟨⟩; exact hresult, hnone _⟩
    | cons y xs => exact List.forall_mem_cons.mpr ⟨⟨hx, hnone _, hnone _⟩, ih hrest⟩

/-- What a parameter is taken for can be printed. -/
theorem printable_read (p : LambdaParameter) : ∀ w ∈ p.read, w.Printable := by
  have hnone : ∀ ends, ∀ e ∈ (none : Option String), IsExpression ends e := by simp
  have hwritten : p.TakesOne → p.written.Printable := by
    intro hone
    refine ⟨p.isName, hnone _, fun e he => ?_⟩
    obtain ⟨l, hl, rfl⟩ := Option.map_eq_some_iff.mp he
    exact isExpression_text (hone l hl)
  unfold read
  split
  · rename_i hdefault
    -- No default is there to be cut.
    exact List.forall_mem_singleton.mpr (hwritten (by simp [TakesOne, hdefault]))
  · rename_i l hdefault
    split
    · rename_i x y xs hxs
      have hnames := l.names
      rw [hxs] at hnames
      obtain ⟨hx, hrest⟩ := List.forall_mem_cons.mp hnames
      -- The default is cut at its first comma, and each further argument reads as a parameter.
      refine List.forall_mem_cons.mpr ⟨⟨p.isName, hnone _, ?_⟩, printable_afterComma hrest⟩
      rintro _ ⟨⟩
      exact isExpression_beforeComma hx
    · rename_i hxs
      refine List.forall_mem_singleton.mpr (hwritten ?_)
      rintro l' hl'
      obtain rfl : l = l' := Option.some.inj (hdefault.symm.trans hl')
      match hargs : l.arguments with
      | [] => simp
      | [x] => simp
      | x :: y :: xs => exact absurd hargs (hxs x y xs)

/-- A parameter is taken for as many parameters as its function takes arguments, and for one at
least. -/
theorem length_read (p : LambdaParameter) :
    1 ≤ p.read.length ∧ (p.read.length = 1 ↔ p.TakesOne) := by
  have hlength : ∀ (result : String) (xs : List String),
      (afterComma result xs).length = xs.length := by
    intro result xs
    fun_induction afterComma result xs with
    | case1 | case2 => rfl
    | case3 x xs _ ih => rw [List.length_cons, List.length_cons, ih]
  unfold read TakesOne
  split
  · rename_i hdefault
    simp [hdefault]
  · rename_i l hdefault
    split
    · rename_i x y xs hxs
      simp [hdefault, hxs, hlength]
    · rename_i hxs
      rw [hdefault]
      match hargs : l.arguments with
      | [] => simp [hargs]
      | [x] => simp [hargs]
      | x :: y :: xs => exact absurd hargs (hxs x y xs)

/-- A parameter whose function takes at most one argument is taken for what is written. -/
theorem read_of_takesOne {p : LambdaParameter} (h : p.TakesOne) : p.read = [p.written] := by
  unfold read
  split
  · rfl
  · rename_i l hdefault
    split
    · rename_i x y xs hxs
      have hone := h l hdefault
      simp [hxs] at hone
    · rfl

/-- As many parameters are read as are written exactly if no function takes more than one
argument. -/
theorem length_flatMap_read_iff (ps : List LambdaParameter) :
    ps.length ≤ (ps.flatMap read).length ∧
      ((ps.flatMap read).length = ps.length ↔ ∀ p ∈ ps, p.TakesOne) := by
  induction ps with
  | nil => simp
  | cons p ps ih =>
    obtain ⟨hle, hiff⟩ := ih
    obtain ⟨hone, hread⟩ := p.length_read
    rw [List.flatMap_cons, List.length_append, List.length_cons, List.forall_mem_cons, ← hread,
      ← hiff]
    omega

end LambdaParameter

/-! ## Definitions -/

/-- A text that prints a header and goes on with any body is read as its name and its items. -/
theorem exists_parse_of_isPrinted {name : String} {is : List Item} {ts : List String}
    (hname : isName name.toList = true) (h : List.Forall₂ Item.IsPrinted is ts) {text : String}
    {body : List Char} (htext : text.toList = headerChars name ts ++ body) :
    ∃ f, FunctionDef.parse text = .ok f ∧ f.parameters = Parameter.ofItems is := by
  -- The header starts in the first column, so only the body changes as the text is dedented.
  obtain ⟨rest, hrest⟩ := Text.exists_dedentChars_append (c := 'd') (by decide) (by decide)
    (not_mem_feed_headerChars hname h) body
  have hsource : (Text.dedent text).toList = headerChars name ts ++ rest := by
    rw [Text.dedent, String.toList_ofList, htext]
    exact hrest
  obtain ⟨n, hroot, hread⟩ := exists_root_of_header hname h hsource
  refine ⟨{ FunctionDef.blank (Text.dedent text) with name, parameters := Parameter.ofItems is },
    ?_, rfl⟩
  show (do let n ← root _; n.children.foldlM FunctionDef.addNode (.blank _)) = _
  rw [hroot]
  exact hread

open LambdaParameter in
/-- **Functions as default values.** Every list of parameters with functions for default values is
read, and each parameter is taken for `LambdaParameter.read`. There are as many parameters as are
written, and they are those that are written, exactly if no function takes more than one argument. -/
theorem parse_lambdaFunction (ps : List LambdaParameter) :
    ∃ f, FunctionDef.parse (lambdaFunction ps) = .ok f ∧
      f.parameters = (ps.flatMap read).map (.ofKind .positionalOrKeyword) ∧
      (f.parameters.length = ps.length ↔ ∀ p ∈ ps, p.TakesOne) ∧
      (f.parameters.map (·.toWrittenParameter) = ps.map written ↔ ∀ p ∈ ps, p.TakesOne) := by
  have hprinted : List.Forall₂ Item.IsPrinted ((ps.flatMap read).map .plain)
      ((ps.flatMap read).map fun w => (Item.plain w).print lambdaSpacing) := by
    rw [List.forall₂_map_left_iff, List.forall₂_map_right_iff, List.forall₂_same]
    intro w hw
    obtain ⟨p, -, hread⟩ := List.mem_flatMap.mp hw
    exact ⟨p.printable_read w hread, lambdaSpacing, rfl⟩
  have htext : (lambdaFunction ps).toList =
      headerChars "f" ((ps.flatMap read).map fun w => (Item.plain w).print lambdaSpacing) ++
        " pass".toList := by
    have hlist := plainList_flatMap_read ps
    rw [plainList] at hlist
    rw [headerChars, hlist]
    simp [lambdaFunction, listText, String.toList_intercalate]
  -- What is left of the default holds no comma, so the list reads back as these items.
  obtain ⟨f, hparse, hparameters⟩ :=
    exists_parse_of_isPrinted (by decide) hprinted htext
  have hread : f.parameters = (ps.flatMap read).map (.ofKind .positionalOrKeyword) := by
    rw [hparameters, Parameter.ofItems, ← List.append_nil ((ps.flatMap read).map Item.plain),
      Parameter.ofItemsAfter_plain_append]
    rfl
  have hwritten : f.parameters.map (·.toWrittenParameter) = ps.flatMap read := by
    rw [hread, List.map_map]
    exact List.map_id _
  have hcount : f.parameters.length = ps.length ↔ ∀ p ∈ ps, p.TakesOne := by
    rw [hread, List.length_map]
    exact (length_flatMap_read_iff ps).2
  refine ⟨f, hparse, hread, hcount, ⟨fun heq => hcount.mp ?_, fun hone => ?_⟩⟩
  · simpa using congrArg List.length heq
  · rw [hwritten, ← List.flatMap_singleton' (ps.map written), List.flatMap_map]
    exact List.flatMap_congr fun p hp => read_of_takesOne (hone p hp)

/-- A function of two arguments. -/
def pairLambda : Lambda where
  arguments := ["x", "y"]
  result := "1"
  names := by decide
  result_ne := by decide
  result_plain := by decide

/-- The only parameter of a function has a function of two arguments for its default value; two
parameters are read, and the second one does not exist. -/
theorem parse_lambdaFunction_of_pair :
    lambdaFunction [⟨"a", some pairLambda, by decide⟩] =
        "def f(a=lambda x, y: 1): pass" ∧
      ∃ f, FunctionDef.parse "def f(a=lambda x, y: 1): pass" = .ok f ∧ f.parameters =
        [⟨⟨"a", none, some "lambda x"⟩, .positionalOrKeyword⟩,
          ⟨⟨"y", some "1", none⟩, .positionalOrKeyword⟩] := by
  refine ⟨by decide +kernel, _, eq_ok_of_isSome (by decide +kernel), by decide +kernel⟩

end UdfBridge.Source
