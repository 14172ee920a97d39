import EventScript.Binding.Calls
import EventScript.Binding.Operators
import EventScript.Proofs.Placement.Compiling

namespace EventScript.Binding

open Compilation Compiling

variable {scope : BindingScope} {P : Span → Prop} {outer span : Span}

-- Conversions

-- A conversion stands where its operand stands.
theorem places_applyConversion {e : BoundExpr} (h : e.PlacedIn P outer) (conversion : Conversion)
    (descriptor : Descriptor) :
    Gives (Reported P) (applyConversion scope e conversion descriptor) (·.PlacedIn P outer) := by
  unfold applyConversion
  split
  · exact .pure h
  split
  · exact .giveUpAt h.place (.widen (.failed h.place) h.2)
  · refine Gives.andThenAny (.silent fun _ => rfl) fun checked => ?_
    exact .pure (.widen (.node h.place (List.forall_mem_singleton.mpr h.self)) h.2)

theorem places_convertBy {e : BoundExpr} (h : e.PlacedIn P outer) (descriptor : Descriptor) :
    Gives (Reported P) (convertBy scope e descriptor) (·.PlacedIn P outer) := by
  unfold convertBy
  refine Gives.andThenAny (.silent fun _ => rfl) fun found => ?_
  cases found with
  | some conversion => exact places_applyConversion h conversion descriptor
  | none => exact .pure h

theorem places_convert {e : BoundExpr} (h : e.PlacedIn P outer) (target : TypeId)
    (mode : ConversionMode) :
    Gives (Reported P) (convert scope e target mode) (·.PlacedIn P outer) := by
  unfold convert
  split
  · exact .pure h
  · exact Gives.andThenAny (.silent fun _ => rfl) fun descriptor => places_convertBy h descriptor

-- Operators

theorem places_unaryType (op : UnaryOperator) (operand : TypeId) :
    Gives (Reported P) (unaryType scope op operand) fun _ => True := by
  unfold unaryType
  split
  · exact Gives.andThenAny (.silent fun _ => rfl) fun _ => .pure trivial
  · exact .pure trivial
  · exact .pure trivial

theorem places_binarySignature (op : BinaryOperator) (left right : TypeId) :
    Gives (Reported P) (binarySignature scope op left right) fun _ => True := by
  unfold binarySignature
  split
  · exact .pure trivial
  split
  · refine Gives.andThenAny (.silent fun _ => rfl) fun fits => ?_
    split
    · refine Gives.andThenAny (.silent fun _ => rfl) fun fits => ?_
      split <;> exact .pure trivial
    · exact .pure trivial
  split
  · exact .pure trivial
  split <;> exact .pure trivial

theorem places_bindUnary (op : UnaryOperator) {operand : BoundExpr} (hs : P span)
    (h : operand.PlacedIn P span) :
    Gives (Reported P) (bindUnary scope op operand span) (·.PlacedIn P span) := by
  unfold bindUnary
  split
  · exact .pure (.failed hs)
  refine Gives.andThenAny (.silent fun _ => rfl) fun descriptor => ?_
  refine Gives.andThenAny (.silent fun _ => rfl) fun checked => ?_
  split
  · exact .pure (.node hs (List.forall_mem_singleton.mpr h))
  refine Gives.andThenAny (places_unaryType op operand.type) fun found => ?_
  cases found with
  | some type =>
      refine (places_convert h type .implicitCast).bind fun converted hc => ?_
      exact .pure (.node hs (List.forall_mem_singleton.mpr hc))
  | none => exact .giveUpAt hs (.failed hs)

theorem places_bindBinary (op : BinaryOperator) {left right : BoundExpr} (hs : P span)
    (hl : left.PlacedIn P span) (hr : right.PlacedIn P span) :
    Gives (Reported P) (bindBinary scope op left right span) (·.PlacedIn P span) := by
  unfold bindBinary
  split
  · exact .pure (.failed hs)
  refine Gives.andThenAny (places_binarySignature op left.type right.type) fun found => ?_
  cases found with
  | some signature =>
      refine (places_convert hl signature.left .implicitCast).bind fun left' hl' => ?_
      refine (places_convert hr signature.right .implicitCast).bind fun right' hr' => ?_
      refine Gives.andThenAny (.silent fun _ => rfl) fun descriptor => ?_
      refine Gives.andThenAny (.silent fun _ => rfl) fun checked => .pure (.node hs ?_)
      exact List.forall_mem_cons.mpr ⟨hl', List.forall_mem_singleton.mpr hr'⟩
  | none => exact .giveUpAt hs (.failed hs)

-- Calls

-- A group stands at a place that holds what it is called on.
structure MethodGroup.PlacedIn (P : Span → Prop) (outer : Span) (group : MethodGroup) : Prop where
  span : P group.span
  subset : group.span ⊆ outer
  receiver : ∀ receiver ∈ group.target.receiver?, receiver.PlacedIn P outer

theorem MethodGroup.PlacedIn.widen {group : MethodGroup} (h : group.PlacedIn P span)
    (hs : span ⊆ outer) : group.PlacedIn P outer :=
  ⟨h.span, Span.subset_trans h.subset hs, fun receiver hr => (h.receiver receiver hr).widen hs⟩

theorem MethodGroup.PlacedIn.arguments {group : MethodGroup} {given : List BoundExpr}
    (h : group.PlacedIn P outer) (hg : ∀ a ∈ given, a.PlacedIn P outer) :
    ∀ a ∈ group.arguments given, a.PlacedIn P outer := by
  obtain ⟨name, target, methods, span⟩ := group
  cases target with
  | extension receiver => exact List.forall_mem_cons.mpr ⟨h.receiver receiver rfl, hg⟩
  | static => exact hg
  | instanceOf receiver => exact hg

theorem places_extensionGroup {receiver : BoundExpr} (name : String) (hs : P span)
    (hin : span ⊆ outer) (h : receiver.PlacedIn P outer) :
    Gives (Reported P) (extensionGroup scope receiver name span) fun found =>
      ∀ group ∈ found, group.PlacedIn P outer := by
  unfold extensionGroup
  refine Gives.andThenAny (.silent fun _ => rfl) fun methods => ?_
  cases methods with
  | nil => exact .pure nofun
  | cons method methods =>
      refine .pure ?_
      rintro group ⟨⟩
      refine ⟨hs, hin, ?_⟩
      rintro found ⟨⟩
      exact h

theorem places_convertArguments {parameters : List TypeId} {arguments : List BoundExpr}
    (h : ∀ a ∈ arguments, a.PlacedIn P outer) :
    Gives (Reported P) (convertArguments scope parameters arguments) fun converted =>
      ∀ a ∈ converted, a.PlacedIn P outer := by
  induction parameters generalizing arguments with
  | nil => exact .pure nofun
  | cons parameter parameters ih =>
      cases arguments with
      | nil => exact .pure nofun
      | cons argument arguments =>
          obtain ⟨hfirst, hrest⟩ := List.forall_mem_cons.mp h
          have hcons (first : BoundExpr) (hf : first.PlacedIn P outer) :
              Gives (Reported P)
                (do return first :: (← convertArguments scope parameters arguments))
                fun converted => ∀ a ∈ converted, a.PlacedIn P outer :=
            (ih hrest).bind fun rest hr => .pure (List.forall_mem_cons.mpr ⟨hf, hr⟩)
          rw [convertArguments]
          split
          · exact hcons argument hfirst
          · exact (places_convert hfirst parameter .implicitCast).bind hcons

section Group

variable {group : MethodGroup} {given : List BoundExpr}

theorem places_buildCall (method : MethodId) (hs : P span) (hgroup : group.PlacedIn P span)
    (hg : ∀ a ∈ given, a.PlacedIn P span) :
    Gives (Reported P) (buildCall scope group method given span) (·.PlacedIn P span) := by
  unfold buildCall
  refine (places_convertArguments (hgroup.arguments hg)).bind fun converted hc => ?_
  dsimp only
  split
  · exact .pure (.node hs hc)
  split
  · rename_i receiver ht
    have hreceiver : receiver.PlacedIn P span := hgroup.receiver receiver (by rw [ht]; rfl)
    exact .pure (.node hs (List.forall_mem_cons.mpr ⟨hreceiver, hc⟩))
  · exact .pure (.node hs hc)

theorem places_callGroupOr {otherwise : Compiling BoundExpr} (hs : P span)
    (hgroup : group.PlacedIn P span) (hg : ∀ a ∈ given, a.PlacedIn P span)
    (ho : Gives (Reported P) otherwise (·.PlacedIn P span)) :
    Gives (Reported P) (callGroupOr scope group given span otherwise) (·.PlacedIn P span) := by
  unfold callGroupOr
  refine Gives.andThenAny (.inAnyScope (.silent fun _ => rfl)) fun overload => ?_
  cases overload with
  | found method => exact places_buildCall method hs hgroup hg
  | ambiguous first second => exact .giveUpAt hgroup.span (.failed hs)
  | noMatch => exact ho

theorem places_callGroup (hs : P span) (hgroup : group.PlacedIn P span)
    (hg : ∀ a ∈ given, a.PlacedIn P span) :
    Gives (Reported P) (callGroup scope group given span) (·.PlacedIn P span) := by
  have hrefuse {group : MethodGroup} (hgroup : group.PlacedIn P span) :
      Gives (Reported P) (refuseCall scope group given span) (·.PlacedIn P span) :=
    .giveUpAt hgroup.span (.failed hs)
  unfold callGroup
  refine places_callGroupOr hs hgroup hg ?_
  split
  · rename_i receiver ht
    have hreceiver : receiver.PlacedIn P span := hgroup.receiver receiver (by rw [ht]; rfl)
    refine (places_extensionGroup group.name hgroup.span hgroup.subset hreceiver).bind ?_
    intro found hfound
    cases found with
    | some extensions =>
        have he := hfound extensions rfl
        exact places_callGroupOr hs he hg (hrefuse he)
    | none => exact hrefuse hgroup
  · exact hrefuse hgroup

end Group

end EventScript.Binding
