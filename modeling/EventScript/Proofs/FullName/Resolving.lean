import EventScript.Binding.Naming
import EventScript.Proofs.Expr.RoundTrip
import EventScript.Proofs.FullName.Words

namespace EventScript

open Lexer Binding Compiling

-- Dotted names

namespace DottedName

variable {path : DottedName} {segments : List String} {name : String}

theorem idents_eq (path : DottedName) : path.idents = path.qualifiers ++ [path.last] := by
  have hlast : path.idents.getLast? = some path.last := List.getLast?_cons
  exact (List.dropLast_append_getLast? path.last hlast).symm

theorem names_eq_concat (h : path.idents.map (·.name) = segments ++ [name]) :
    path.qualifiers.map (·.name) = segments ∧ path.last.name = name := by
  rw [idents_eq, List.map_append] at h
  obtain ⟨hsegments, hlast⟩ := List.append_inj' h rfl
  exact ⟨hsegments, List.head_eq_of_cons_eq hlast⟩

theorem names_eraseSpans (path : DottedName) :
    path.eraseSpans.idents.map (·.name) = path.idents.map (·.name) := by
  rw [idents, idents, eraseSpans]
  simp [Ident.eraseSpan, Function.comp_def]

end DottedName

theorem TypeName.eq_mk_of_eraseSpans {name : TypeName} {path : DottedName}
    {arguments : List TypeName} {span : Span}
    (h : name.eraseSpans = (TypeName.marked path arguments span none).eraseSpans) :
    ∃ other names place, name = .mk other names false place ∧
      other.eraseSpans = path.eraseSpans ∧
      names.map TypeName.eraseSpans = arguments.map TypeName.eraseSpans := by
  obtain ⟨other, names, nullable, place⟩ := name
  rw [marked, eraseSpans, eraseSpans, TypeName.mk.injEq] at h
  obtain ⟨hpath, hnames, rfl, -⟩ := h
  exact ⟨other, names, place, rfl, hpath, hnames⟩

-- What is written of a type is read in a cast and behind `as`.

section

variable {form : ConcreteType} {text : String}

theorem wellSpelled_x : WellSpelled (.ident "x") := by decide +kernel

theorem exists_cast (h : Spells text.toList (kinds form.yield)) :
    ∃ name operand span, parseExpression ("(" ++ text ++ ")x") = .ok (.cast name operand span) ∧
      name.eraseSpans = form.erase.eraseSpans := by
  let tree : ConcreteExpr := .cast .none form .none (.name ⟨"x", .none⟩)
  have hbehind := (spells_ident wellSpelled_x).sign .rparen rfl
  have hall := (h.append hbehind (breaksOff_sign .rparen rfl _)).sign .lparen rfl
  have hspells : Spells ("(" ++ text ++ ")x").toList (kinds tree.yield) := by
    simpa [tree, ConcreteExpr.yield, Symbol.token, Ident.token, Symbol.text] using hall
  have hg : tree.Grouped := ⟨trivial, rfl⟩
  have hread : tree.Readable .eof := ⟨trivial, rfl⟩
  obtain ⟨e, hparse, he⟩ := parseExpression_of_spells hg hread hspells
  cases e with
  | cast name operand span =>
      simp only [tree, ConcreteExpr.erase, Expr.eraseSpans, Expr.cast.injEq] at he
      exact ⟨name, operand, span, hparse, he.1⟩
  | _ =>
      simp only [tree, ConcreteExpr.erase, Expr.eraseSpans] at he
      cases he

theorem exists_asType (h : Spells text.toList (kinds form.yield)) :
    ∃ operand name span, parseExpression ("x as " ++ text) = .ok (.asType operand name span) ∧
      name.eraseSpans = form.erase.eraseSpans := by
  let tree : ConcreteExpr := .asType (.name ⟨"x", .none⟩) .none form
  have hbehind := ((spells_keyword .asWord).append h.space (breaksOff_cons rfl (by decide))).space
  have hall := (spells_ident wellSpelled_x).append hbehind (breaksOff_cons rfl (by decide))
  have hspells : Spells ("x as " ++ text).toList (kinds tree.yield) := by
    simpa [tree, ConcreteExpr.yield, Keyword.token, Keyword.text, Ident.token] using hall
  have hg : tree.Grouped := ⟨trivial, trivial⟩
  have hread : tree.Readable .eof :=
    ⟨trivial, form.endsBefore (by decide) (by decide) (by decide)⟩
  obtain ⟨e, hparse, he⟩ := parseExpression_of_spells hg hread hspells
  cases e with
  | asType operand name span =>
      simp only [tree, ConcreteExpr.erase, Expr.eraseSpans, Expr.asType.injEq] at he
      exact ⟨operand, name, span, hparse, he.2.1⟩
  | _ =>
      simp only [tree, ConcreteExpr.erase, Expr.eraseSpans] at he
      cases he

end

-- The path of these words, whatever the places.
def ConcretePath.ofWords (first : String) (rest : List String) : ConcretePath :=
  ⟨⟨first, .none⟩, rest.map fun name => (.none, ⟨name, .none⟩)⟩

theorem ConcretePath.names_ofWords (first : String) (rest : List String) :
    (ofWords first rest).erase.idents.map (·.name) = first :: rest := by
  simp [ofWords, erase, DottedName.idents, Function.comp_def]

-- What paths lead to

namespace NamespaceTree

variable {tree : NamespaceTree} {home node : NamespaceId}

theorem foldlM_lookupIn? {idents : List Ident}
    (h : tree.descend? home (idents.map (·.name)) = some node) :
    idents.foldlM (fun entity ident => tree.lookupIn? entity ident.name 0) (.namespace home) =
      some (.namespace node) := by
  induction idents generalizing home with
  | nil =>
      obtain rfl := Option.some.inj h
      rfl
  | cons ident idents ih =>
      rw [List.map_cons, descend?_cons] at h
      obtain ⟨next, hnext, h⟩ := Option.bind_eq_some_iff.mp h
      rw [List.foldlM_cons, lookupIn?_namespace, lookup?_of_child? hnext]
      exact ih h

end NamespaceTree

namespace Binding

variable {scope : BindingScope} {node : NamespaceId} {segments : List String} {last : String}
  {entity : Entity} {id definition : TypeId} {arguments : List TypeId}

theorem lookupName_top {ident : Ident} (ha : scope.names.aliases = [])
    (h : scope.runtime.tree.child? .root ident.name = some node) (arity : Nat) :
    lookupName scope ident arity = pure (some (.namespace node)) := by
  have hresolve : resolveName scope ident.name ident.span arity =
      pure (some (.namespace node)) := by
    rw [resolveName, NameScope.resolve, ha, List.lookup_nil, h]
  rw [lookupName, hresolve]
  rfl

theorem resolvePath_of_descend? {path : DottedName} {arity : Nat}
    (ha : scope.names.aliases = []) (hnames : path.idents.map (·.name) = segments ++ [last])
    (hne : segments ≠ []) (hd : scope.runtime.tree.descend? .root segments = some node)
    (hl : scope.runtime.tree.lookup? node last arity = some entity) :
    resolvePath scope path arity = pure (some entity) := by
  obtain ⟨rfl, rfl⟩ := DottedName.names_eq_concat hnames
  cases hq : path.qualifiers with
  | nil =>
      rw [hq] at hne
      exact absurd rfl hne
  | cons first rest =>
      rw [hq, List.map_cons, NamespaceTree.descend?_cons] at hd
      obtain ⟨top, htop, hd⟩ := Option.bind_eq_some_iff.mp hd
      rw [resolvePath, hq]
      dsimp only
      rw [lookupName_top ha htop, pure_bind, Option.bind_eq_bind, Option.bind_some,
        NamespaceTree.foldlM_lookupIn? hd, Option.bind_some, NamespaceTree.lookupIn?_namespace, hl]

theorem resolveDefinition_of_resolvePath {name : TypeName}
    (h : resolvePath scope name.path name.arguments.length = pure (some (.type id))) :
    resolveDefinition scope name = pure (some id) := by
  rw [resolveDefinition, h]
  rfl

theorem markedNullable_of_unmarked {name : TypeName} (h : name.nullable = false) :
    markedNullable scope id name = pure (some id) := by
  rw [markedNullable, h, Bool.false_and, if_neg Bool.false_ne_true]

theorem resolveTypes_of_forall₂ {names : List TypeName} {ids : List TypeId}
    (h : List.Forall₂ (fun name id => resolveType scope name = pure (some id)) names ids) :
    resolveTypes scope names = pure (some ids) := by
  induction h with
  | nil => rw [resolveTypes]
  | cons hfirst _ ih =>
      rw [resolveTypes, hfirst, pure_bind]
      dsimp only
      rw [ih]
      rfl

theorem resolveType_plain {path : DottedName} {span : Span}
    (h : resolvePath scope path 0 = pure (some (.type id))) :
    resolveType scope (.mk path [] false span) = pure (some id) := by
  rw [resolveType, resolveDefinition_of_resolvePath h, pure_bind]
  exact markedNullable_of_unmarked rfl

theorem resolveType_applied {path : DottedName} {names : List TypeName} {span : Span}
    (h : resolvePath scope path arguments.length = pure (some (.type definition)))
    (hnames : List.Forall₂ (fun name id => resolveType scope name = pure (some id)) names arguments)
    (hne : arguments ≠ []) (hf : scope.types.findInstance? definition arguments = some id) :
    resolveType scope (.mk path names false span) = pure (some id) := by
  rw [← hnames.length_eq] at h
  cases hnames with
  | nil => exact absurd rfl hne
  | cons hfirst hrest =>
      rw [resolveType, resolveDefinition_of_resolvePath h, pure_bind]
      dsimp only
      rw [hfirst, pure_bind]
      dsimp only
      rw [resolveTypes_of_forall₂ hrest, pure_bind]
      dsimp only
      rw [existingInstance, hf, pure_bind]
      exact markedNullable_of_unmarked rfl

end Binding

-- Types that scripts can write out

-- A script can write the definition or the plain type: it is public, it stands in a namespace, and
-- no namespace of its name hides it.
structure Runtime.Exposes (r : Runtime) (id : TypeId) : Prop where
  isPublic : (r.types.get id).isPublic
  exists_home : ∃ home, (r.types.get id).home = some home ∧ pathSegments home ≠ []
  not_namespace : r.tree.find? (r.types.get id).fullName = none

-- The same with the arguments, all the way down.
inductive Runtime.ExposesAll (r : Runtime) : TypeId → Prop
  | mk {id : TypeId} : r.Exposes (r.types.openDefinition id) →
      (∀ a ∈ r.types.genericArguments id, ExposesAll r a) → ExposesAll r id

namespace Runtime.ExposesAll

variable {r : Runtime} {id definition : TypeId} {arguments : List TypeId}

theorem plain (hs : (r.types.get id).shape = .plain) (h : r.Exposes id) : r.ExposesAll id := by
  constructor
  · rwa [TypeTable.openDefinition, hs]
  · rw [TypeTable.genericArguments, hs]
    exact List.forall_mem_nil _

theorem applied (hs : (r.types.get id).shape = .instanceOf definition arguments)
    (h : r.Exposes definition) (harguments : ∀ a ∈ arguments, r.ExposesAll a) :
    r.ExposesAll id := by
  constructor
  · rwa [TypeTable.openDefinition, hs]
  · rwa [TypeTable.genericArguments, hs]

end Runtime.ExposesAll

-- The full name of a type is a path to it.
theorem Runtime.Exposes.exists_lookup? {r : Runtime} {id : TypeId} (h : r.Exposes id)
    (hr : r.Reachable) (hw : r.types.NamedByWords) (hn : (r.types.get id).isNamed) :
    ∃ segments name node, segments ≠ [] ∧ AreWords (segments ++ [name]) ∧
      (r.types.get id).fullName = ".".intercalate (segments ++ [name]) ∧
      r.tree.descend? .root segments = some node ∧
      r.tree.lookup? node name (r.types.get id).arity = some (.type id) := by
  obtain ⟨home, hh, hne⟩ := h.exists_home
  obtain ⟨hname, segments, hwords, rfl⟩ := (hw id).exists_segments hh
  obtain ⟨ht, htree⟩ := hr.reached
  rw [pathSegments_intercalate hwords] at hne
  have hfull : (r.types.get id).fullName =
      ".".intercalate (segments ++ [(r.types.get id).name]) := by
    rw [String.intercalate_append_of_ne_nil hne (List.cons_ne_nil _ _),
      String.intercalate_singleton, TypeDef.fullName, hh]
  have hall : AreWords (segments ++ [(r.types.get id).name]) :=
    List.forall_mem_append.mpr ⟨hwords, List.forall_mem_singleton.mpr hname⟩
  have hoffered : (r.types.get id).isOffered := by
    rw [TypeDef.isOffered, hn, hh, h.isPublic]
    rfl
  obtain ⟨node, hnode, htype⟩ :=
    NamespaceTree.exists_find?_type? ht.consistent hw.keepsHomesApart hoffered hh
  rw [← htree] at hnode htype
  rw [NamespaceTree.find?_eq, pathSegments_intercalate hwords] at hnode
  have hchild : r.tree.child? node (r.types.get id).name = none := by
    have hnone := h.not_namespace
    rw [NamespaceTree.find?_eq, hfull, pathSegments_intercalate hall,
      NamespaceTree.descend?_concat, hnode] at hnone
    exact hnone
  exact ⟨segments, _, node, hne, hall, hfull, hnode, NamespaceTree.lookup?_of_type? hchild htype⟩

theorem Runtime.Exposes.exists_path {scope : BindingScope} {id : TypeId}
    (h : scope.runtime.Exposes id) (hr : scope.runtime.Reachable)
    (hw : scope.runtime.types.NamedByWords) (ha : scope.names.aliases = [])
    (hn : (scope.runtime.types.get id).isNamed) :
    ∃ path : ConcretePath, path.erase.render = (scope.runtime.types.get id).fullName ∧
      Printable path.yield ∧
      ∀ other : DottedName, other.eraseSpans = path.erase.eraseSpans →
        resolvePath scope other (scope.runtime.types.get id).arity = pure (some (.type id)) := by
  obtain ⟨segments, name, node, hne, hwords, hfull, hnode, hlookup⟩ := h.exists_lookup? hr hw hn
  cases segments with
  | nil => exact absurd rfl hne
  | cons first rest =>
      have hnames := ConcretePath.names_ofWords first (rest ++ [name])
      refine ⟨.ofWords first (rest ++ [name]), ?_, ?_, fun other he => ?_⟩
      · rw [DottedName.render, hnames]
        exact hfull.symm
      · refine ConcretePath.printable _ fun ident hm => hwords _ ?_
        have hident := List.mem_map_of_mem (f := (·.name)) hm
        rwa [hnames] at hident
      · refine resolvePath_of_descend? ha ?_ hne hnode hlookup
        rw [← DottedName.names_eraseSpans, he, DottedName.names_eraseSpans]
        exact hnames

-- A way to write a type: it looks like the name that the type is shown by, and wherever it is
-- written it stands for the type.
structure ConcreteType.Names (scope : BindingScope) (form : ConcreteType) (id : TypeId) :
    Prop where
  render_eq : form.erase.render = scope.runtime.types.displayName id
  printable : Printable form.yield
  resolveType_eq : ∀ name : TypeName, name.eraseSpans = form.erase.eraseSpans →
    resolveType scope name = pure (some id)

structure ConcreteTypes.Names (scope : BindingScope) (forms : ConcreteTypes) (ids : List TypeId) :
    Prop where
  render_eq : forms.erase.map TypeName.render = ids.map scope.runtime.types.displayName
  printable : Printable forms.yield
  resolveType_eq : ∀ names : List TypeName,
    names.map TypeName.eraseSpans = forms.erase.map TypeName.eraseSpans →
    List.Forall₂ (fun name id => resolveType scope name = pure (some id)) names ids

namespace Binding

variable {scope : BindingScope} {id definition first : TypeId} {arguments rest : List TypeId}

theorem exists_forms (h : ∀ a ∈ first :: rest, ∃ form : ConcreteType, form.Names scope a) :
    ∃ forms : ConcreteTypes, forms.Names scope (first :: rest) := by
  induction rest generalizing first with
  | nil =>
      obtain ⟨form, hform⟩ := h first List.mem_cons_self
      refine ⟨.last form, congrArg ([·]) hform.render_eq, hform.printable, fun names he => ?_⟩
      obtain ⟨name, rfl, hname⟩ := List.map_eq_singleton_iff.mp he
      exact .cons (hform.resolveType_eq name hname) .nil
  | cons second rest ih =>
      obtain ⟨⟨form, hform⟩, hrest⟩ := List.forall_mem_cons.mp h
      obtain ⟨forms, hforms⟩ := ih hrest
      refine ⟨.more form .none forms, ?_, ?_, fun names he => ?_⟩
      · rw [ConcreteTypes.erase, List.map_cons, List.map_cons, hform.render_eq, hforms.render_eq]
      · have hcomma := Symbol.comma.printable_token .none
        exact printable_append.mpr ⟨hform.printable, printable_cons.mpr ⟨hcomma, hforms.printable⟩⟩
      · rw [ConcreteTypes.erase, List.map_cons] at he
        obtain ⟨name, names, rfl, hname, hnames⟩ := List.map_eq_cons_iff.mp he
        exact .cons (hform.resolveType_eq name hname) (hforms.resolveType_eq names hnames)

section

variable (hr : scope.runtime.Reachable) (hw : scope.runtime.types.NamedByWords)
  (ha : scope.names.aliases = [])
include hr hw ha

theorem exists_form_of_plain (he : scope.runtime.Exposes id)
    (hk : scope.runtime.types.isGenericParameter id = false)
    (hs : (scope.runtime.types.get id).shape = .plain) :
    ∃ form : ConcreteType, form.Names scope id := by
  have harity : (scope.runtime.types.get id).arity = 0 := by
    rw [TypeDef.arity, hs]
    rfl
  have hnamed : (scope.runtime.types.get id).isNamed := by
    refine TypeTable.isNamed_of_shape hk fun _ _ hi => ?_
    cases hs.symm.trans hi
  obtain ⟨path, hrender, hprintable, hpath⟩ := he.exists_path hr hw ha hnamed
  refine ⟨.simple path none, ?_, ?_, fun name hname => ?_⟩
  · rw [TypeTable.displayName_of_plain hs, ← hrender, ← String.toList_inj]
    simp [ConcreteType.erase, TypeName.render_marked]
  · simpa [ConcreteType.yield, questionYield] using hprintable
  · obtain ⟨other, names, place, rfl, hother, hnames⟩ := TypeName.eq_mk_of_eraseSpans hname
    obtain rfl := List.map_eq_nil_iff.mp hnames
    exact resolveType_plain (harity ▸ hpath other hother)

theorem exists_form_of_instance (he : scope.runtime.Exposes definition)
    (hk : scope.runtime.types.isGenericParameter id = false)
    (hs : (scope.runtime.types.get id).shape = .instanceOf definition arguments)
    (hne : arguments ≠ [])
    (hforms : ∀ a ∈ arguments, ∃ form : ConcreteType, form.Names scope a) :
    ∃ form : ConcreteType, form.Names scope id := by
  obtain ⟨ht, -⟩ := hr.reached
  obtain ⟨-, -, -, -, -, hnamed, harity⟩ := ht.namesInstances.exists_home ht.wellFormed.1 hk hs
  obtain ⟨path, hrender, hprintable, hpath⟩ := he.exists_path hr hw ha hnamed
  obtain ⟨first, rest, rfl⟩ := List.exists_cons_of_ne_nil hne
  obtain ⟨forms, hforms⟩ := exists_forms hforms
  refine ⟨.generic path .none forms .none none, ?_, ?_, fun name hname => ?_⟩
  · have hsome : forms.erase.isEmpty = false := by cases forms <;> rfl
    rw [TypeTable.displayName_of_instance hs, ht.namesInstances.fullName_of_instance hs, ← hrender,
      ← hforms.render_eq, ← String.toList_inj]
    simp [ConcreteType.erase, TypeName.render_marked, hsome, commaSeparated, Symbol.text]
  · have hsign (sign : Symbol) := sign.printable_token .none
    have hfront : Printable (path.yield ++ Symbol.lt.token .none :: forms.yield) :=
      printable_append.mpr ⟨hprintable, printable_cons.mpr ⟨hsign .lt, hforms.printable⟩⟩
    exact printable_append.mpr ⟨hfront, printable_cons.mpr ⟨hsign .gt, List.forall_mem_nil _⟩⟩
  · obtain ⟨other, names, place, rfl, hother, hnames⟩ := TypeName.eq_mk_of_eraseSpans hname
    refine resolveType_applied (harity ▸ hpath other hother) (hforms.resolveType_eq names hnames)
      hne ?_
    exact ht.wellFormed.1.findInstance?_eq_some.mpr ⟨TypeTable.contains_of_shape hs, hs⟩

-- The induction is that on the ways to build a name.
theorem exists_form (hn : scope.runtime.types.Nameable id) (he : scope.runtime.ExposesAll id) :
    ∃ form : ConcreteType, form.Names scope id := by
  induction hn with
  | plain _ hk hs =>
      obtain ⟨hdefinition, -⟩ := he
      rw [TypeTable.openDefinition, hs] at hdefinition
      exact exists_form_of_plain hr hw ha hdefinition hk hs
  | applied _ hk hs hne _ ih =>
      obtain ⟨hdefinition, harguments⟩ := he
      rw [TypeTable.openDefinition, hs] at hdefinition
      rw [TypeTable.genericArguments_of_shape hs] at harguments
      exact exists_form_of_instance hr hw ha hdefinition hk hs hne fun a hm =>
        ih a hm (harguments a hm)

end

end Binding

namespace Runtime

variable {r : Runtime} {id : TypeId}

-- Closed types that are exposed have a name.
theorem ExposesAll.nameable (h : r.ExposesAll id) (hw : r.types.WellFormed)
    (hd : r.types.DefinitionsTakeParameters) (hc : r.types.mentionsParameter id = false) :
    r.types.Nameable id := by
  induction h with
  | @mk id hdefinition _ ih =>
      have hk := TypeTable.isGenericParameter_of_closed hc
      cases hs : (r.types.get id).shape with
      | plain =>
          rw [TypeTable.openDefinition, hs] at hdefinition
          obtain ⟨home, hh, -⟩ := hdefinition.exists_home
          exact .plain (TypeTable.contains_of_home hh) hk hs (Option.isSome_of_eq_some hh)
      | definition parameters =>
          rw [TypeTable.mentionsParameter_of_definition hk hs] at hc
          cases hc
      | instanceOf definition arguments =>
          have hclosed := (TypeTable.mentionsParameter_instanceOf_eq_false hk hs).mp hc
          rw [TypeTable.genericArguments_of_shape hs] at ih
          exact .applied (TypeTable.contains_of_shape hs) hk hs
            (TypeTable.arguments_ne_nil hw hd hs) fun a hm => ih a hm (hclosed a hm)

-- Casts and `as` take the name that a type is shown by for the type, as the search by full names
-- does, and have nothing to report.
theorem resolveType_displayName (h : r.Reachable) (hw : r.types.NamedByWords)
    (hd : r.types.DefinitionsTakeParameters) (names : NameScope) (ha : names.aliases = [])
    (parameters : List (String × TypeId)) (id : TypeId)
    (hc : r.types.mentionsParameter id = false) (he : r.ExposesAll id) :
    r.findType? (r.types.displayName id) = some id ∧
      (∃ name operand span,
        parseExpression ("(" ++ r.types.displayName id ++ ")x") = .ok (.cast name operand span) ∧
          ∀ s, resolveType ⟨r, names, parameters⟩ name s = (some id, s)) ∧
      ∃ operand name span,
        parseExpression ("x as " ++ r.types.displayName id) = .ok (.asType operand name span) ∧
          ∀ s, resolveType ⟨r, names, parameters⟩ name s = (some id, s) := by
  obtain ⟨ht, -⟩ := h.reached
  have hn := he.nameable ht.wellFormed.1 hd hc
  obtain ⟨form, hform⟩ : ∃ form : ConcreteType, form.Names ⟨r, names, parameters⟩ id :=
    exists_form h hw ha hn he
  have htype := form.spells_render hform.printable
  rw [hform.render_eq] at htype
  have hresolve (name : TypeName) (hname : name.eraseSpans = form.erase.eraseSpans) :
      ∀ s, resolveType ⟨r, names, parameters⟩ name s = (some id, s) := by
    intro s
    rw [hform.resolveType_eq name hname]
    rfl
  refine ⟨findTypeChars?_displayName ht.namesInstances ht.wellFormed.1 hw.plainNames hn, ?_, ?_⟩
  · obtain ⟨name, operand, span, hparse, hname⟩ := exists_cast htype
    exact ⟨name, operand, span, hparse, hresolve name hname⟩
  · obtain ⟨operand, name, span, hparse, hname⟩ := exists_asType htype
    exact ⟨operand, name, span, hparse, hresolve name hname⟩

theorem namedByWords_pairs : pairs.types.NamedByWords :=
  TypeTable.forall_get (by decide +kernel) (by decide)

theorem exposesAll_pairs : pairs.ExposesAll ⟨25⟩ := by
  have hexposes (id : TypeId) (home : String) (h : (pairs.types.get id).isPublic = true ∧
      (pairs.types.get id).home = some home ∧ pathSegments home ≠ [] ∧
      pairs.tree.find? (pairs.types.get id).fullName = none) : pairs.Exposes id :=
    ⟨h.1, ⟨home, h.2.1, h.2.2.1⟩, h.2.2.2⟩
  have hpair : pairs.Exposes ⟨21⟩ := hexposes _ "Demo" (by decide +kernel)
  have hinner : pairs.ExposesAll ⟨24⟩ := by
    refine .applied shape_pairs.1 hpair ?_
    have hstring := ExposesAll.plain (by decide +kernel)
      (hexposes .string "System" (by decide +kernel))
    have hint := ExposesAll.plain (by decide +kernel)
      (hexposes (.numeric .int32) "System" (by decide +kernel))
    exact List.forall_mem_cons.mpr ⟨hstring, List.forall_mem_singleton.mpr hint⟩
  refine .applied shape_pairs.2 hpair ?_
  have hboolean := ExposesAll.plain (by decide +kernel)
    (hexposes .boolean "System" (by decide +kernel))
  exact List.forall_mem_cons.mpr ⟨hinner, List.forall_mem_singleton.mpr hboolean⟩

-- The name of an instance of an instance. Imports are of no account.
theorem resolveType_displayName_pairs :
    pairs.types.displayName ⟨25⟩ =
        "Demo.Pair<Demo.Pair<System.String, System.Int32>, System.Boolean>" ∧
      ∃ name operand span,
        parseExpression "(Demo.Pair<Demo.Pair<System.String, System.Int32>, System.Boolean>)x" =
          .ok (.cast name operand span) ∧
        ∀ s, resolveType ⟨pairs, ⟨[], [⟨1⟩, ⟨3⟩]⟩, []⟩ name s = (some ⟨25⟩, s) := by
  have hall := resolveType_displayName reachable_pairs namedByWords_pairs takeParameters_pairs
    ⟨[], [⟨1⟩, ⟨3⟩]⟩ rfl [] ⟨25⟩ nameable_pairs.mentionsParameter exposesAll_pairs
  rw [displayName_pairs] at hall
  exact ⟨displayName_pairs, hall.2.1⟩

end Runtime

end EventScript
