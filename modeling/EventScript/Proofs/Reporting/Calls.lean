import EventScript.Binding.Calls
import EventScript.Binding.Operators
import EventScript.Proofs.Reporting.Compiling

namespace EventScript.Binding

open Compiling

variable {scope : BindingScope} {ds : List Diagnostic}

-- What takes the place of an expression is explained and stands where the expression stood.
def Replaces (ds : List Diagnostic) (span : Span) (e : BoundExpr) : Prop :=
  e.Explained ds ∧ e.span = span

theorem Replaces.failed {span inner : Span} (h : Explains ds inner) (hs : inner ⊆ span) :
    Replaces ds span (.failed span) :=
  ⟨.failed (h.widen hs), rfl⟩

theorem Replaces.node {op : BoundOp} {type : TypeId} {span : Span} {operands : List BoundExpr}
    (hop : op.isError = false) (h : ∀ operand ∈ operands, operand.Explained ds) :
    Replaces ds span (.node op type span operands) :=
  ⟨BoundExpr.explained_node.mpr ⟨by simp [hop], h⟩, rfl⟩

theorem Replaces.withSpan {inner span : Span} {e : BoundExpr} (h : Replaces ds inner e)
    (hs : inner ⊆ span) : Replaces ds span (e.withSpan span) := by
  obtain ⟨op, type, own, operands⟩ := e
  exact ⟨h.1.withSpan (h.2 ▸ hs), rfl⟩

-- Conversions

theorem reports_applyConversion {e : BoundExpr} (h : e.Explained ds) (conversion : Conversion)
    (descriptor : Descriptor) :
    Reports ds (applyConversion scope e conversion descriptor) fun ds' => Replaces ds' e.span := by
  unfold applyConversion
  split
  · exact .pure ⟨h, rfl⟩
  split
  · exact .giveUp fun ds' _ he => .failed he Span.subset_rfl
  · exact Reports.isChecked.silentBind fun checked => .pure (.node rfl (by simpa using h))

theorem reports_convertBy {e : BoundExpr} (h : e.Explained ds) (descriptor : Descriptor) :
    Reports ds (convertBy scope e descriptor) fun ds' => Replaces ds' e.span := by
  unfold convertBy
  refine (Reports.search _).silentBind fun found => ?_
  cases found with
  | some conversion => exact reports_applyConversion h conversion descriptor
  | none => exact .pure ⟨h, rfl⟩

theorem reports_convert {e : BoundExpr} (h : e.Explained ds) (target : TypeId)
    (mode : ConversionMode) :
    Reports ds (convert scope e target mode) fun ds' => Replaces ds' e.span := by
  unfold convert
  split
  · exact .pure ⟨h, rfl⟩
  · exact (Reports.descriptor _).silentBind fun descriptor => reports_convertBy h descriptor

-- Operators

theorem silent_convertsImplicitly (source target : TypeId) :
    Reports ds (convertsImplicitly scope source target) fun ds' _ => ds' = ds :=
  .search _

theorem silent_unaryType (op : UnaryOperator) (operand : TypeId) :
    Reports ds (unaryType scope op operand) fun ds' _ => ds' = ds := by
  unfold unaryType
  split
  · exact (silent_convertsImplicitly _ _).silentBind fun _ => .pure rfl
  · exact .pure rfl
  · exact .pure rfl

theorem silent_binarySignature (op : BinaryOperator) (left right : TypeId) :
    Reports ds (binarySignature scope op left right) fun ds' _ => ds' = ds := by
  unfold binarySignature
  split
  · exact .pure rfl
  split
  · refine (silent_convertsImplicitly _ _).silentBind fun fits => ?_
    cases fits with
    | false => exact .pure rfl
    | true =>
        refine (silent_convertsImplicitly _ _).silentBind fun fits => ?_
        cases fits <;> exact .pure rfl
  split
  · exact .pure rfl
  split <;> exact .pure rfl

theorem reports_bindUnary (op : UnaryOperator) {operand : BoundExpr} {span : Span}
    (h : operand.Explained ds) (hs : operand.span ⊆ span) :
    Reports ds (bindUnary scope op operand span) fun ds' => Replaces ds' span := by
  unfold bindUnary
  split
  · rename_i herr
    exact .pure (.failed (h.of_isError herr) hs)
  refine (Reports.descriptor _).silentBind fun descriptor => ?_
  refine Reports.isChecked.silentBind fun checked => ?_
  split
  · exact .pure (.node rfl (by simpa using h))
  refine (silent_unaryType op operand.type).silentBind fun found => ?_
  cases found with
  | some type =>
      refine (reports_convert h type .implicitCast).bind fun ds' converted _ hc => ?_
      exact .pure (.node rfl (by simpa using hc.1))
  | none => exact .giveUp fun ds' _ he => .failed he Span.subset_rfl

theorem reports_bindBinary (op : BinaryOperator) {left right : BoundExpr} {span : Span}
    (hl : left.Explained ds) (hls : left.span ⊆ span) (hr : right.Explained ds)
    (hrs : right.span ⊆ span) :
    Reports ds (bindBinary scope op left right span) fun ds' => Replaces ds' span := by
  unfold bindBinary
  split
  · rename_i herr
    rcases (Bool.or_eq_true _ _).mp herr with herr | herr
    · exact .pure (.failed (hl.of_isError herr) hls)
    · exact .pure (.failed (hr.of_isError herr) hrs)
  refine (silent_binarySignature op left.type right.type).silentBind fun found => ?_
  cases found with
  | some signature =>
      refine (reports_convert hl signature.left .implicitCast).bind fun ds₁ left' hsub₁ hl' => ?_
      refine (reports_convert (hr.mono hsub₁) signature.right .implicitCast).bind ?_
      intro ds₂ right' hsub₂ hr'
      refine (Reports.descriptor _).silentBind fun descriptor => ?_
      refine Reports.isChecked.silentBind fun checked => .pure (.node rfl ?_)
      simpa using ⟨hl'.1.mono hsub₂, hr'.1⟩
  | none => exact .giveUp fun ds' _ he => .failed he Span.subset_rfl

-- Calls

-- What a group is called on is explained.
def MethodGroup.Explained (ds : List Diagnostic) (group : MethodGroup) : Prop :=
  ∀ receiver ∈ group.target.receiver?, receiver.Explained ds

theorem MethodGroup.Explained.mono {ds' : List Diagnostic} {group : MethodGroup}
    (h : group.Explained ds) (hsub : ds ⊆ ds') : group.Explained ds' :=
  fun receiver hr => (h receiver hr).mono hsub

theorem MethodGroup.Explained.arguments {group : MethodGroup} {given : List BoundExpr}
    (h : group.Explained ds) (hg : ∀ a ∈ given, a.Explained ds) :
    ∀ a ∈ group.arguments given, a.Explained ds := by
  obtain ⟨name, target, methods, span⟩ := group
  cases target with
  | extension receiver => exact List.forall_mem_cons.mpr ⟨h receiver rfl, hg⟩
  | _ => exact hg

theorem silent_methodsNamed (type : TypeId) (name : String) (isStatic : Bool) :
    Reports ds (methodsNamed scope type name isStatic) fun ds' _ => ds' = ds :=
  (Reports.search _).silentBind fun _ => .pure rfl

theorem reports_extensionGroup {receiver : BoundExpr} (h : receiver.Explained ds) (name : String)
    (span : Span) :
    Reports ds (extensionGroup scope receiver name span) fun ds' found =>
      ds' = ds ∧ ∀ group ∈ found, group.Explained ds ∧ group.span = span := by
  unfold extensionGroup
  refine (Reports.search _).silentBind fun methods => ?_
  cases methods with
  | nil => exact .pure ⟨rfl, nofun⟩
  | cons method methods =>
      refine .pure ⟨rfl, ?_⟩
      rintro group hg
      obtain rfl := Option.some.inj hg
      refine ⟨?_, rfl⟩
      intro found hf
      rwa [← Option.some.inj hf]

theorem silent_selectOverload (group : MethodGroup) (arguments : List TypeId) :
    Reports ds (selectOverload scope group arguments) fun ds' _ => ds' = ds :=
  .inProbingScope _

theorem reports_convertArguments {parameters : List TypeId} {arguments : List BoundExpr}
    (h : ∀ a ∈ arguments, a.Explained ds) :
    Reports ds (convertArguments scope parameters arguments) fun ds' converted =>
      ∀ a ∈ converted, a.Explained ds' := by
  induction parameters generalizing arguments ds with
  | nil => exact .pure (by simp)
  | cons parameter parameters ih =>
      cases arguments with
      | nil => exact .pure (by simp)
      | cons argument arguments =>
          obtain ⟨hfirst, hrest⟩ := List.forall_mem_cons.mp h
          have hcons (ds₁ : List Diagnostic) (first : BoundExpr) (hsub₁ : ds ⊆ ds₁)
              (hf : first.Explained ds₁) :
              Reports ds₁ (do return first :: (← convertArguments scope parameters arguments))
                fun ds' converted => ∀ a ∈ converted, a.Explained ds' := by
            refine (ih fun a ha => (hrest a ha).mono hsub₁).bind fun ds₂ rest hsub₂ hr => ?_
            exact .pure (List.forall_mem_cons.mpr ⟨hf.mono hsub₂, hr⟩)
          rw [convertArguments]
          split
          · exact hcons ds argument (List.Subset.refl _) hfirst
          · refine (reports_convert hfirst parameter .implicitCast).bind ?_
            intro ds₁ first hsub₁ hf
            exact hcons ds₁ first hsub₁ hf.1

section Group

variable {group : MethodGroup} {given : List BoundExpr} {span : Span}

theorem reports_buildCall (method : MethodId) (hgroup : group.Explained ds)
    (hg : ∀ a ∈ given, a.Explained ds) :
    Reports ds (buildCall scope group method given span) fun ds' => Replaces ds' span := by
  unfold buildCall
  refine (reports_convertArguments (hgroup.arguments hg)).bind fun ds' converted hsub hc => ?_
  dsimp only
  split
  · exact .pure (.node rfl hc)
  split
  · rename_i receiver ht
    have hreceiver : receiver.Explained ds := hgroup receiver (by rw [ht]; rfl)
    exact .pure (.node rfl (List.forall_mem_cons.mpr ⟨hreceiver.mono hsub, hc⟩))
  · exact .pure (.node rfl hc)

theorem reports_refuseCall (hs : group.span ⊆ span) :
    Reports ds (refuseCall scope group given span) fun ds' => Replaces ds' span := by
  unfold refuseCall
  exact .giveUp fun ds' _ he => .failed he hs

theorem reports_callGroupOr {otherwise : Compiling BoundExpr} (hgroup : group.Explained ds)
    (hg : ∀ a ∈ given, a.Explained ds) (hs : group.span ⊆ span)
    (ho : Reports ds otherwise fun ds' => Replaces ds' span) :
    Reports ds (callGroupOr scope group given span otherwise) fun ds' => Replaces ds' span := by
  unfold callGroupOr
  refine (silent_selectOverload group _).silentBind fun overload => ?_
  cases overload with
  | found method => exact reports_buildCall method hgroup hg
  | ambiguous first second => exact .giveUp fun ds' _ he => .failed he hs
  | noMatch => exact ho

theorem reports_callGroup (hgroup : group.Explained ds) (hg : ∀ a ∈ given, a.Explained ds)
    (hs : group.span ⊆ span) :
    Reports ds (callGroup scope group given span) fun ds' => Replaces ds' span := by
  unfold callGroup
  refine reports_callGroupOr hgroup hg hs ?_
  split
  · rename_i receiver ht
    have hreceiver : receiver.Explained ds := hgroup receiver (by rw [ht]; rfl)
    refine (reports_extensionGroup hreceiver group.name group.span).bind fun ds' found _ hf => ?_
    obtain ⟨rfl, hfound⟩ := hf
    cases found with
    | some extensions =>
        obtain ⟨he, hspan⟩ := hfound extensions rfl
        have hes : extensions.span ⊆ span := hspan ▸ hs
        exact reports_callGroupOr he hg hes (reports_refuseCall hes)
    | none => exact reports_refuseCall hs
  · exact reports_refuseCall hs

end Group

end EventScript.Binding
