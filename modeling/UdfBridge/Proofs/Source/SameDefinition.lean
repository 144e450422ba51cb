import UdfBridge.Proofs.Source.Dedented

/-!
# Definitions with one outline

What is read of a header comes from its nodes and the texts of its words; only the texts of
annotations and default values come from more. So headers with one outline give definitions that are
the same but for these texts (`SameDefinition`).
-/

namespace UdfBridge.Source

open Grammar
open Text (Position)

/-! ## Parameters -/

/-- Two parameters with one name and one kind. -/
def SameParameter (p q : Parameter) : Prop :=
  q.name = p.name ∧ q.kind = p.kind

/-- Two items that are the same but for annotations and default values. -/
inductive SameItem : Item → Item → Prop where
  | slash : SameItem .slash .slash
  | star : SameItem .star .star
  | plain {p q : WrittenParameter} (h : q.name = p.name) : SameItem (.plain p) (.plain q)
  | starred {p q : WrittenParameter} (h : q.name = p.name) : SameItem (.starred p) (.starred q)
  | doubleStarred {p q : WrittenParameter} (h : q.name = p.name) :
    SameItem (.doubleStarred p) (.doubleStarred q)

/-- Such items declare parameters with the same names and kinds. -/
theorem sameParameter_ofItemsAfter {items items' : List Item}
    (h : List.Forall₂ SameItem items items') (kind : ParameterKind) {ps qs : List Parameter}
    (hearlier : List.Forall₂ SameParameter ps qs) :
    List.Forall₂ SameParameter (Parameter.ofItemsAfter kind ps items)
      (Parameter.ofItemsAfter kind qs items') := by
  have hbehind : ∀ {p q : WrittenParameter} (kind : ParameterKind) {ps qs : List Parameter},
      List.Forall₂ SameParameter ps qs → q.name = p.name →
        List.Forall₂ SameParameter (ps ++ [{ p with kind }]) (qs ++ [{ q with kind }]) :=
    fun kind _ _ hpqs hname => List.rel_append hpqs (.cons ⟨hname, rfl⟩ .nil)
  induction h generalizing kind ps qs with
  | nil => exact hearlier
  | cons hitem _ ih =>
    cases hitem with
    | slash =>
      -- The slash gives all earlier parameters the same kind in both lists.
      refine ih kind ?_
      rw [List.forall₂_map_left_iff, List.forall₂_map_right_iff]
      exact hearlier.imp fun _ _ hpq => ⟨hpq.1, rfl⟩
    | star => exact ih .keywordOnly hearlier
    | plain hname => exact ih kind (hbehind kind hearlier hname)
    | starred hname => exact ih .keywordOnly (hbehind .varPositional hearlier hname)
    | doubleStarred hname => exact ih kind (hbehind .varKeyword hearlier hname)

section Readers

variable {n m : Node Rule}

/-- Nodes with one outline say the same of the name of a parameter. -/
theorem WrittenParameter.addNode_same (p q : WrittenParameter) (n m : Node Rule)
    (p' : WrittenParameter) (hname : q.name = p.name) (h : SameOutline n m)
    (hp : p.addNode n = .ok p') : ∃ q', q.addNode m = .ok q' ∧ q'.name = p'.name := by
  unfold addNode at hp ⊢
  rw [h.rule]
  split at hp
  · rename_i hrule
    obtain rfl := Except.ok.inj hp
    exact ⟨_, rfl, h.text (by rw [hrule]; decide)⟩
  · obtain rfl := Except.ok.inj hp
    exact ⟨_, rfl, hname⟩
  · obtain rfl := Except.ok.inj hp
    exact ⟨_, rfl, hname⟩
  · simp at hp

/-- Nodes with one outline are read as the same items, but for annotations and default values. -/
theorem Item.ofNode_same (n m : Node Rule) (i : Item) (h : SameOutline n m)
    (hi : ofNode n = .ok i) : ∃ j, ofNode m = .ok j ∧ SameItem i j := by
  have hinner : ∀ p, WrittenParameter.ofNodes n.children = .ok p →
      ∃ q, WrittenParameter.ofNodes m.children = .ok q ∧ q.name = p.name := fun p hp =>
    foldlM_related (S := fun p q : WrittenParameter => q.name = p.name)
      WrittenParameter.addNode_same h.children rfl hp
  unfold ofNode at hi ⊢
  rw [h.rule]
  split at hi
  · obtain rfl := Except.ok.inj hi
    exact ⟨_, rfl, .slash⟩
  · obtain rfl := Except.ok.inj hi
    exact ⟨_, rfl, .star⟩
  · obtain ⟨p, hp, rfl⟩ := map_eq_ok.mp hi
    obtain ⟨q, hq, hname⟩ := hinner p hp
    exact ⟨_, map_eq_ok.mpr ⟨q, hq, rfl⟩, .plain hname⟩
  · obtain ⟨p, hp, rfl⟩ := map_eq_ok.mp hi
    obtain ⟨q, hq, hname⟩ := hinner p hp
    exact ⟨_, map_eq_ok.mpr ⟨q, hq, rfl⟩, .starred hname⟩
  · obtain ⟨p, hp, rfl⟩ := map_eq_ok.mp hi
    obtain ⟨q, hq, hname⟩ := hinner p hp
    exact ⟨_, map_eq_ok.mpr ⟨q, hq, rfl⟩, .doubleStarred hname⟩
  · simp at hi

/-- Lists of nodes with one outline are read as parameters of the same names and kinds. -/
theorem Parameter.ofNodes_same {ns ms : List (Node Rule)} (h : List.Forall₂ SameOutline ns ms)
    {ps : List Parameter} (hps : ofNodes ns = .ok ps) :
    ∃ qs, ofNodes ms = .ok qs ∧ List.Forall₂ SameParameter ps qs := by
  obtain ⟨items, hitems, rfl⟩ := map_eq_ok.mp hps
  obtain ⟨items', hitems', hsame⟩ := mapM_related Item.ofNode_same h hitems
  exact ⟨_, map_eq_ok.mpr ⟨items', hitems', rfl⟩,
    sameParameter_ofItemsAfter hsame .positionalOrKeyword .nil⟩

end Readers

/-! ## Definitions -/

/-- Two definitions with one name, both coroutines or not, and with parameters of the same names and
kinds. -/
structure SameDefinition (f g : FunctionDef) : Prop where
  name : g.name = f.name
  isAsync : g.isAsync = f.isAsync
  names : g.parameters.map (·.name) = f.parameters.map (·.name)
  kinds : g.parameters.map (·.kind) = f.parameters.map (·.kind)

/-- Parameters with the same names and kinds, each by each. -/
theorem map_of_sameParameter {ps qs : List Parameter} (h : List.Forall₂ SameParameter ps qs) :
    qs.map (·.name) = ps.map (·.name) ∧ qs.map (·.kind) = ps.map (·.kind) := by
  induction h with
  | nil => exact ⟨rfl, rfl⟩
  | cons hpq _ ih => exact ⟨by simp [hpq.1, ih.1], by simp [hpq.2, ih.2]⟩

/-- Nodes with one outline say the same of a definition. -/
theorem FunctionDef.addHeaderNode_same (d e : FunctionDef) (n m : Node Rule) (d' : FunctionDef)
    (hde : SameDefinition d e) (h : SameOutline n m) (hd : d.addHeaderNode n = .ok d') :
    ∃ e', e.addHeaderNode m = .ok e' ∧ SameDefinition d' e' := by
  unfold addHeaderNode at hd ⊢
  rw [h.rule]
  split at hd
  · obtain rfl := Except.ok.inj hd
    exact ⟨_, rfl, ⟨hde.name, rfl, hde.names, hde.kinds⟩⟩
  · rename_i hrule
    obtain rfl := Except.ok.inj hd
    exact ⟨_, rfl, ⟨h.text (by rw [hrule]; decide), hde.isAsync, hde.names, hde.kinds⟩⟩
  · obtain ⟨ps, hps, heq⟩ := bind_eq_ok.mp hd
    obtain rfl := Except.ok.inj heq
    obtain ⟨qs, hqs, hsame⟩ := Parameter.ofNodes_same h.children hps
    obtain ⟨hnames, hkinds⟩ := map_of_sameParameter hsame
    exact ⟨_, bind_eq_ok.mpr ⟨qs, hqs, rfl⟩, ⟨hde.name, hde.isAsync, hnames, hkinds⟩⟩
  · obtain rfl := Except.ok.inj hd
    exact ⟨_, rfl, hde⟩
  · simp at hd

/-- Texts that are read alike up to the body are the same definitions, on the same line. -/
theorem FunctionDef.ofSource_of_reading {source source' : String}
    (h : reading source.toList = reading source'.toList) {f : FunctionDef}
    (hf : ofSource source = .ok f) :
    ∃ g, ofSource source' = .ok g ∧ SameDefinition f g ∧ g.defLine = f.defLine := by
  obtain ⟨n, hroot, -⟩ := bind_eq_ok.mp hf
  obtain ⟨d, rfl⟩ := root_eq_ok_iff.mp hroot
  -- The header's nodes have the same outline, so both are read to the same definition.
  have hread := reading_of_division d
  obtain ⟨e⟩ := nonempty_division_of_reading (h.symm.trans hread)
  obtain ⟨hsame, hline⟩ := sameOutline_root (d := d) (e := e) h
  have hheaders := forall₂_filter_rule .defHeader hsame.children
  rw [d.filter_defHeader, e.filter_defHeader, List.forall₂_cons] at hheaders
  obtain ⟨g, hg, hfg⟩ := foldlM_related FunctionDef.addHeaderNode_same hheaders.1.children
    (⟨rfl, rfl, rfl, rfl⟩ : SameDefinition (ofLead d) (ofLead e))
    ((ofSource_of_division d).symm.trans hf)
  have hg : ofSource source' = .ok g := (ofSource_of_division e).trans hg
  refine ⟨g, hg, hfg, ?_⟩
  rw [(ofLead_of_ofSource hg e).2.1, (ofLead_of_ofSource hf d).2.1, hline]

/-- The same without the margins of the texts. -/
theorem FunctionDef.parse_of_reading {text text' : String}
    (h : reading text.toList = reading text'.toList) {f : FunctionDef}
    (hf : parse text = .ok f) :
    ∃ g, parse text' = .ok g ∧ SameDefinition f g ∧ g.defLine = f.defLine :=
  ofSource_of_reading (by rw [reading_dedent, reading_dedent, h]) hf

end UdfBridge.Source
