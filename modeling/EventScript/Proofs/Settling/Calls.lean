import EventScript.Proofs.Binding.Calls
import EventScript.Proofs.Settling.Compiling
import EventScript.Proofs.Settling.Settled

namespace EventScript.Binding

open Compiling

variable {scope : BindingScope}

-- Conversions

theorem yields_applyConversion {e : BoundExpr} {target : TypeId} {conversion : Conversion}
    (hs : conversion.source = e.type)
    (ht : conversion.resultType = target ∨ conversion.resultType = .object)
    (descriptor : Descriptor) :
    Yields (applyConversion scope e conversion descriptor) (ConvertsTo e target) := by
  unfold applyConversion
  split
  · exact .pure .same
  split
  · exact .andThen fun _ => .pure .failed
  · exact .andThen fun _ => .pure (.node hs ht)

theorem resultType_resolve (t : TypeTable) (source target : TypeId) (mode : ConversionMode)
    (cache : MemberCache) :
    (Conversion.resolve t source target mode cache).1.resultType = target ∨
      (Conversion.resolve t source target mode cache).1.resultType = .object := by
  by_cases h : mode.isTry = true ∧ t.isValueType target = true
  · exact .inr (if_pos h)
  · exact .inl (if_neg h)

-- What a descriptor asks for is all that a conversion to its target can come to.
theorem yields_convertBy (e : BoundExpr) {descriptor : Descriptor} {target : TypeId}
    {mode : ConversionMode}
    (hk : descriptor.key = .convert target mode ∨ descriptor.key = .convertToObject target mode) :
    Yields (convertBy scope e descriptor) (ConvertsTo e target) := by
  have hfound : Yields (search (descriptor.conversion? scope.types e.type)) fun found =>
      ∀ conversion ∈ found, conversion.source = e.type ∧
        (conversion.resultType = target ∨ conversion.resultType = .object) := by
    refine .search fun cache conversion hc => ?_
    unfold Descriptor.conversion? at hc
    rcases hk with hk | hk
    · rw [hk] at hc
      obtain rfl := Option.some.inj hc
      exact ⟨rfl, resultType_resolve scope.types e.type target mode cache⟩
    · rw [hk] at hc
      obtain rfl := Option.some.inj hc
      exact ⟨rfl, .inr rfl⟩
  unfold convertBy
  refine hfound.bind fun found hc => ?_
  cases found with
  | none => exact .pure .same
  | some conversion => exact yields_applyConversion (hc _ rfl).1 (hc _ rfl).2 descriptor

theorem yields_convert (e : BoundExpr) (target : TypeId) (mode : ConversionMode) :
    Yields (convert scope e target mode) (ConvertsTo e target) := by
  unfold convert
  split
  · exact .pure .same
  · exact (Yields.descriptor _).bind fun descriptor hk => yields_convertBy e (.inl hk)

theorem resolve_self (t : TypeTable) (type : TypeId) (cache : MemberCache) :
    (Conversion.resolve t type type .implicitCast cache).1 =
      ⟨type, type, .implicitCast, .identity, type⟩ := by
  have hplan : Conversion.selectPlan t type type .implicitCast = pure .identity := by
    rw [Conversion.selectPlan, Conversion.structural?, if_pos rfl]
  rw [Conversion.resolve, hplan]
  rfl

-- An expression that has the type already is left as it is.
theorem yields_convert_self (e : BoundExpr) :
    Yields (convert scope e e.type .implicitCast) (· = e) := by
  unfold convert
  split
  · exact .pure rfl
  refine (Yields.descriptor _).bind fun descriptor hk => ?_
  have hfound : Yields (search (descriptor.conversion? scope.types e.type)) fun found =>
      found = some ⟨e.type, e.type, .implicitCast, .identity, e.type⟩ := by
    refine .search fun cache => ?_
    unfold Descriptor.conversion?
    rw [hk]
    exact congrArg some (resolve_self scope.types e.type cache)
  unfold convertBy
  refine hfound.bind fun found hf => ?_
  rw [hf]
  dsimp only
  unfold applyConversion
  rw [if_pos ⟨rfl, rfl⟩]
  exact .pure rfl

-- Operators

theorem yields_unaryType (hg : TypeTable.initial.GrowsTo scope.types) (op : UnaryOperator)
    (operand : TypeId) :
    Yields (unaryType scope op operand) fun found =>
      ∀ type ∈ found, scope.types.mentionsParameter type = false := by
  have hnumeric (kind : Option NumericKind) : ∀ type ∈ kind.map TypeId.numeric,
      scope.types.mentionsParameter type = false := by
    intro type hm
    obtain ⟨kind, -, rfl⟩ := Option.map_eq_some_iff.mp hm
    exact TypeTable.mentionsParameter_numeric hg kind
  unfold unaryType
  split
  · refine .andThen fun fits => .pure fun type hm => ?_
    split at hm
    · rw [← Option.some.inj hm]
      exact TypeTable.mentionsParameter_boolean hg
    · cases hm
  · exact .pure (hnumeric _)
  · exact .pure (hnumeric _)

-- What a signature does to the types of the operands: it leaves them, it closes them, or an
-- equality takes the type of one for both.
inductive SignatureSettles (t : TypeTable) (op : BinaryOperator) (left right : TypeId) :
    BinarySignature → Prop
  | unchanged : SignatureSettles t op left right ⟨left, right, .object⟩
  | closed {signature : BinarySignature} : t.mentionsParameter signature.left = false →
      t.mentionsParameter signature.right = false →
      t.mentionsParameter signature.result = false → SignatureSettles t op left right signature
  | leftForBoth : op.isEquality = true → SignatureSettles t op left right ⟨left, left, .boolean⟩
  | rightForBoth : op.isEquality = true → SignatureSettles t op left right ⟨right, right, .boolean⟩

theorem signatureSettles_of_equality? {t : TypeTable} (hg : TypeTable.initial.GrowsTo t)
    {op : BinaryOperator} {left right : TypeId} {signature : BinarySignature}
    (hop : op.isEquality = true) (h : equality? t left right = some signature) :
    SignatureSettles t op left right signature := by
  have hboolean := TypeTable.mentionsParameter_boolean hg
  unfold equality? at h
  split at h
  · obtain rfl := Option.some.inj h
    exact .closed hboolean hboolean hboolean
  split at h
  · obtain rfl := Option.some.inj h
    exact .leftForBoth hop
  split at h
  · obtain rfl := Option.some.inj h
    exact .rightForBoth hop
  · cases h

theorem signatureSettles_of_numericSignature? {t : TypeTable} (hg : TypeTable.initial.GrowsTo t)
    {op : BinaryOperator} {left right : TypeId} {leftKind rightKind : NumericKind}
    {signature : BinarySignature} (h : numericSignature? op leftKind rightKind = some signature) :
    SignatureSettles t op left right signature := by
  obtain ⟨kind, -, rfl⟩ := Option.map_eq_some_iff.mp h
  have hnumeric := TypeTable.mentionsParameter_numeric hg kind
  refine .closed hnumeric hnumeric ?_
  dsimp only
  split
  · exact hnumeric
  · exact TypeTable.mentionsParameter_boolean hg

theorem signatureSettles_concatenation {t : TypeTable} (hg : TypeTable.initial.GrowsTo t)
    (op : BinaryOperator) (left right : TypeId) :
    SignatureSettles t op left right (concatenation left right) := by
  have hside (type : TypeId) :
      t.mentionsParameter (if type = .string then type else .object) = false := by
    split
    · rename_i he
      exact he ▸ TypeTable.mentionsParameter_string hg
    · exact TypeTable.mentionsParameter_object hg
  exact .closed (hside left) (hside right) (TypeTable.mentionsParameter_string hg)

theorem yields_binarySignature (hg : TypeTable.initial.GrowsTo scope.types) (op : BinaryOperator)
    (left right : TypeId) :
    Yields (binarySignature scope op left right) fun found =>
      ∀ signature ∈ found, SignatureSettles scope.types op left right signature := by
  have hboolean := TypeTable.mentionsParameter_boolean hg
  have hsome (signature : BinarySignature)
      (h : SignatureSettles scope.types op left right signature) :
      ∀ found ∈ some signature, SignatureSettles scope.types op left right found := by
    intro found hf
    rwa [← Option.some.inj hf]
  unfold binarySignature
  split
  · exact .pure (hsome _ .unchanged)
  split
  · refine .andThen fun fits => ?_
    cases fits with
    | false => exact .pure nofun
    | true =>
        refine .andThen fun fits => ?_
        cases fits with
        | false => exact .pure nofun
        | true => exact .pure (hsome _ (.closed hboolean hboolean hboolean))
  split
  · exact .pure (hsome _ (signatureSettles_concatenation hg op left right))
  split
  · exact .pure fun signature hs => signatureSettles_of_numericSignature? hg hs
  · split
    · rename_i hop
      exact .pure fun signature hs => signatureSettles_of_equality? hg hop hs
    · exact .pure nofun

theorem yields_bindUnary (hg : TypeTable.initial.GrowsTo scope.types) (op : UnaryOperator)
    {operand : BoundExpr} (ho : operand.Settled scope.types) (span : Span) :
    Yields (bindUnary scope op operand span) (BoundExpr.Settled scope.types) := by
  unfold bindUnary
  split
  · exact .pure (.failed hg span)
  refine .andThen fun descriptor => .andThen fun checked => ?_
  split
  · exact .pure (.of_closed (by simpa using ho) (TypeTable.mentionsParameter_object hg))
  refine (yields_unaryType hg op operand.type).bind fun found hf => ?_
  cases found with
  | none => exact .andThen fun _ => .pure (.failed hg span)
  | some type =>
      have htype := hf type rfl
      refine (yields_convert operand type .implicitCast).bind fun converted hc => ?_
      exact .pure (.of_closed (by simpa using hc.settled hg ho htype) htype)

-- Of the two sides of an equality one stays as it is, and the other is brought to its type.
theorem settled_equality {t : TypeTable} (hg : TypeTable.initial.GrowsTo t) {op : BinaryOperator}
    (hop : op.isEquality = true) {e other converted : BoundExpr} (he : e.Settled t)
    (ho : other.Settled t) (hc : ConvertsTo other e.type converted) {operands : List BoundExpr}
    (hm : e ∈ operands) (hall : ∀ operand ∈ operands, operand = e ∨ operand = converted)
    (descriptor : Descriptor) (checked : Bool) (span : Span) :
    (BoundExpr.node (.binary op descriptor checked) .boolean span operands).Settled t := by
  have hclosed := TypeTable.mentionsParameter_boolean hg
  refine ⟨fun hopen => absurd hopen (by simpa [BoundExpr.type] using hclosed), ?_⟩
  refine BoundExpr.forall_mem_nodes.mpr ⟨fun operand hmem hopen => ?_, fun operand hmem => ?_⟩
  · rcases hall operand hmem with rfl | rfl
    · exact .inl (he.leavesOpen hopen)
    · rcases hc.leavesOpen_or hg ho hopen with hl | htype
      · exact .inl hl
      · exact .inr ⟨hop, e, hm, htype.symm, he.leavesOpen (htype ▸ hopen)⟩
  · rcases hall operand hmem with rfl | rfl
    · exact he.settlesOperands
    · exact hc.settlesOperands ho

theorem yields_bindBinary (hg : TypeTable.initial.GrowsTo scope.types) (op : BinaryOperator)
    {left right : BoundExpr} (hl : left.Settled scope.types) (hr : right.Settled scope.types)
    (span : Span) :
    Yields (bindBinary scope op left right span) (BoundExpr.Settled scope.types) := by
  unfold bindBinary
  split
  · exact .pure (.failed hg span)
  refine (yields_binarySignature hg op left.type right.type).bind fun found hf => ?_
  cases found with
  | none => exact .andThen fun _ => .pure (.failed hg span)
  | some signature =>
      cases hf signature rfl with
      | unchanged =>
          refine (yields_convert_self left).bind fun first hfirst => ?_
          refine (yields_convert_self right).bind fun second hsecond => ?_
          refine .andThen fun descriptor => .andThen fun checked => .pure ?_
          rw [hfirst, hsecond]
          exact .of_closed (by simpa using ⟨hl, hr⟩) (TypeTable.mentionsParameter_object hg)
      | closed hleft hright hresult =>
          refine (yields_convert left _ .implicitCast).bind fun first hfirst => ?_
          refine (yields_convert right _ .implicitCast).bind fun second hsecond => ?_
          refine .andThen fun descriptor => .andThen fun checked => .pure ?_
          refine .of_closed ?_ hresult
          simpa using ⟨hfirst.settled hg hl hleft, hsecond.settled hg hr hright⟩
      | leftForBoth hop =>
          refine (yields_convert_self left).bind fun first hfirst => ?_
          refine (yields_convert right _ .implicitCast).bind fun second hsecond => ?_
          refine .andThen fun descriptor => .andThen fun checked => .pure ?_
          rw [hfirst]
          exact settled_equality hg hop hl hr hsecond (by simp) (by simp) descriptor checked span
      | rightForBoth hop =>
          refine (yields_convert left _ .implicitCast).bind fun first hfirst => ?_
          refine (yields_convert_self right).bind fun second hsecond => ?_
          refine .andThen fun descriptor => .andThen fun checked => .pure ?_
          rw [hsecond]
          exact settled_equality hg hop hr hl hfirst (by simp) (by simp) descriptor checked span

-- Calls

-- A group whose receiver is settled; its methods are extensions just if the target is one.
structure MethodGroup.Settled (t : TypeTable) (group : MethodGroup) : Prop where
  receiver : ∀ receiver ∈ group.target.receiver?, receiver.Settled t
  of_extension : ∀ receiver, group.target = .extension receiver →
    ∀ method ∈ group.methods, (t.method method).isExtension = true
  of_instanceOf : ∀ receiver, group.target = .instanceOf receiver →
    ∀ method ∈ group.methods, (t.method method).isExtension = false

namespace MethodGroup.Settled

variable {t : TypeTable} {name : String} {methods : List MethodId} {span : Span}

theorem static : (MethodGroup.mk name .static methods span).Settled t :=
  ⟨nofun, nofun, nofun⟩

theorem instanceOf {receiver : BoundExpr} (h : receiver.Settled t)
    (hm : ∀ method ∈ methods, (t.method method).isStatic = false) :
    (MethodGroup.mk name (.instanceOf receiver) methods span).Settled t := by
  refine ⟨fun found hf => ?_, nofun, fun _ _ method hmem => ?_⟩
  · rwa [← Option.some.inj hf]
  · rw [Bool.eq_false_iff]
    intro he
    have hstatic := (t.method method).isStatic_of_isExtension he
    rw [hm method hmem] at hstatic
    cases hstatic

theorem arguments {group : MethodGroup} {given : List BoundExpr} (h : group.Settled t)
    (hs : ∀ a ∈ given, a.Settled t) : ∀ a ∈ group.arguments given, a.Settled t := by
  have hreceiver := h.receiver
  unfold MethodGroup.arguments
  cases ht : group.target with
  | extension receiver => exact List.forall_mem_cons.mpr ⟨hreceiver receiver (by rw [ht]; rfl), hs⟩
  | _ => exact hs

end MethodGroup.Settled

theorem yields_methodsNamed (type : TypeId) (name : String) (isStatic : Bool) :
    Yields (methodsNamed scope type name isStatic) fun methods =>
      ∀ method ∈ methods, (scope.types.method method).isStatic = isStatic := by
  refine .andThen fun methods => .pure fun method hm => ?_
  have hkept := (List.mem_filter.mp hm).2
  simp only [Bool.and_eq_true, decide_eq_true_eq] at hkept
  exact hkept.2

theorem yields_extensionGroup {receiver : BoundExpr} (h : receiver.Settled scope.types)
    (name : String) (span : Span) :
    Yields (extensionGroup scope receiver name span) fun found =>
      ∀ group ∈ found, group.Settled scope.types := by
  have hmethods : Yields (search (scope.names.extensionMethods scope.runtime receiver.type name))
      fun methods => ∀ method ∈ methods, (scope.types.method method).isUsableExtension = true :=
    .search fun cache method hm => NameScope.isUsableExtension_of_mem_extensionMethods cache hm
  unfold extensionGroup
  refine hmethods.bind fun methods hm => ?_
  split
  · exact .pure nofun
  · refine .pure fun group hgroup => ?_
    obtain rfl := Option.some.inj hgroup
    refine ⟨fun found hf => ?_, fun _ _ method hmem => ?_, nofun⟩
    · rwa [← Option.some.inj hf]
    · have husable := hm method hmem
      simp only [MethodDef.isUsableExtension, Bool.and_eq_true] at husable
      exact husable.2

theorem yields_selectOverload (group : MethodGroup) (arguments : List TypeId) :
    Yields (selectOverload scope group arguments) fun overload =>
      ∀ method, overload = .found method → method ∈ group.methods :=
  .inScope (.search fun cache _ hf => (fits_of_chooseAt cache hf).1)

theorem yields_convertArguments (hg : TypeTable.initial.GrowsTo scope.types)
    (parameters : List TypeId) {arguments : List BoundExpr}
    (h : ∀ a ∈ arguments, a.Settled scope.types) :
    Yields (convertArguments scope parameters arguments) fun converted =>
      (∀ e ∈ converted, e.Settled scope.types) ∧
        ∀ argument ∈ arguments.head?, ∀ e ∈ converted.head?, ∃ target,
          ConvertsTo argument target e := by
  induction parameters generalizing arguments with
  | nil => exact .pure ⟨by simp, by simp⟩
  | cons parameter parameters ih =>
      cases arguments with
      | nil => exact .pure ⟨by simp, by simp⟩
      | cons argument arguments =>
          obtain ⟨hfirst, hrest⟩ := List.forall_mem_cons.mp h
          have hcons (first : BoundExpr) (hf : first.Settled scope.types)
              (hc : ConvertsTo argument parameter first) :
              Yields (do return first :: (← convertArguments scope parameters arguments))
                fun converted => (∀ e ∈ converted, e.Settled scope.types) ∧
                  ∀ a ∈ (argument :: arguments).head?, ∀ e ∈ converted.head?, ∃ target,
                    ConvertsTo a target e := by
            refine (ih hrest).bind fun rest hr => .pure ⟨List.forall_mem_cons.mpr ⟨hf, hr.1⟩, ?_⟩
            rintro a ha e he
            obtain rfl := Option.some.inj ha
            obtain rfl := Option.some.inj he
            exact ⟨parameter, hc⟩
          rw [convertArguments]
          split
          · exact hcons argument hfirst .same
          · rename_i hclosed
            refine (yields_convert argument parameter .implicitCast).bind fun first hc => ?_
            exact hcons first (hc.settled hg hfirst (by simpa using hclosed)) hc

section Group

variable {group : MethodGroup} {given : List BoundExpr} (span : Span)

theorem yields_buildCall (hw : scope.types.WellFormed)
    (hg : TypeTable.initial.GrowsTo scope.types) (hgroup : group.Settled scope.types)
    {method : MethodId} (hm : method ∈ group.methods)
    (hs : ∀ a ∈ given, a.Settled scope.types) :
    Yields (buildCall scope group method given span) (BoundExpr.Settled scope.types) := by
  have hresult : scope.types.mentionsParameter
      (returnType scope.types method group.receiverType?) = true →
      CallLeftOpen scope.types method group.receiverType? := staysOpen_of_seenIn hw
  unfold buildCall
  refine (yields_convertArguments hg _ (hgroup.arguments hs)).bind fun converted hc => ?_
  obtain ⟨hsettled, hhead⟩ := hc
  obtain ⟨name, target, methods, groupSpan⟩ := group
  -- extensions are called on extension targets or by their own types, other methods on the rest
  cases hext : (scope.types.method method).isExtension with
  | true =>
      refine .pure (.node hsettled fun hopen => ⟨_, hresult hopen, ?_⟩)
      intro id hid argument ha herr
      cases target with
      | static => cases hid
      | instanceOf receiver =>
          have hnot := hgroup.of_instanceOf receiver rfl method hm
          rw [hext] at hnot
          cases hnot
      | extension receiver =>
          obtain rfl := Option.some.inj hid
          obtain ⟨parameter, hconv⟩ := hhead receiver rfl argument ha
          exact hconv.isReceiver herr
  | false =>
      cases target with
      | static => exact .pure (.node hsettled hresult)
      | instanceOf receiver =>
          have hreceiver := hgroup.receiver receiver rfl
          refine .pure (.node (List.forall_mem_cons.mpr ⟨hreceiver, hsettled⟩) fun hopen => ?_)
          exact ⟨receiver, rfl, hresult hopen⟩
      | extension receiver =>
          have hnot := hgroup.of_extension receiver rfl method hm
          rw [hext] at hnot
          cases hnot

theorem yields_callGroupOr {otherwise : Compiling BoundExpr} (hw : scope.types.WellFormed)
    (hg : TypeTable.initial.GrowsTo scope.types) (hgroup : group.Settled scope.types)
    (hs : ∀ a ∈ given, a.Settled scope.types)
    (ho : Yields otherwise (BoundExpr.Settled scope.types)) :
    Yields (callGroupOr scope group given span otherwise) (BoundExpr.Settled scope.types) := by
  unfold callGroupOr
  refine (yields_selectOverload group _).bind fun overload hm => ?_
  cases overload with
  | found method => exact yields_buildCall span hw hg hgroup (hm method rfl) hs
  | ambiguous first second => exact .andThen fun _ => .pure (.failed hg span)
  | noMatch => exact ho

theorem yields_callGroup (hw : scope.types.WellFormed)
    (hg : TypeTable.initial.GrowsTo scope.types) (hgroup : group.Settled scope.types)
    (hs : ∀ a ∈ given, a.Settled scope.types) :
    Yields (callGroup scope group given span) (BoundExpr.Settled scope.types) := by
  have hrefused (group : MethodGroup) :
      Yields (refuseCall scope group given span) (BoundExpr.Settled scope.types) :=
    .andThen fun _ => .pure (.failed hg span)
  unfold callGroup
  refine yields_callGroupOr span hw hg hgroup hs ?_
  split
  · rename_i receiver ht
    have hreceiver := hgroup.receiver receiver (by rw [ht]; rfl)
    refine (yields_extensionGroup hreceiver group.name group.span).bind fun found hf => ?_
    cases found with
    | some extensions =>
        exact yields_callGroupOr span hw hg (hf extensions rfl) hs (hrefused extensions)
    | none => exact hrefused group
  · exact hrefused group

end Group

end EventScript.Binding
