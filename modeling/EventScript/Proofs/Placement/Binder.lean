import EventScript.Binding.Binder
import EventScript.Proofs.Placement.Calls
import EventScript.Proofs.Placement.Naming

namespace EventScript.Binding

open Compilation Compiling

variable {scope : BindingScope} {P : Span → Prop} {outer span : Span}

-- What an expression stands for has a place inside the span.
def Denotation.PlacedIn (P : Span → Prop) (outer : Span) : Denotation → Prop
  | value e => e.PlacedIn P outer
  | type _ span | entity _ span => P span ∧ span ⊆ outer
  | methods group => group.PlacedIn P outer

theorem Denotation.PlacedIn.widen {denoted : Denotation} (h : denoted.PlacedIn P span)
    (hs : span ⊆ outer) : denoted.PlacedIn P outer := by
  cases denoted with
  | value e => exact BoundExpr.PlacedIn.widen h hs
  | type id place => exact ⟨h.1, Span.subset_trans h.2 hs⟩
  | entity entity place => exact ⟨h.1, Span.subset_trans h.2 hs⟩
  | methods group => exact MethodGroup.PlacedIn.widen h hs

theorem places_toValue {denoted : Denotation} (h : denoted.PlacedIn P outer) :
    Gives (Reported P) (toValue scope denoted) (·.PlacedIn P outer) := by
  cases denoted with
  | value e => exact .pure h
  | type id place => exact .giveUpAt h.1 (.widen (.failed h.1) h.2)
  | entity entity place => exact .giveUpAt h.1 (.widen (.failed h.1) h.2)
  | methods group => exact .giveUpAt h.span (.widen (.failed h.span) h.subset)

theorem places_bindName {ident : Ident} (h : P ident.span) :
    Gives (Reported P) (bindName scope ident) (·.PlacedIn P ident.span) := by
  unfold bindName
  split
  · exact .pure (BoundExpr.PlacedIn.node h nofun)
  refine Gives.andThenAny (.silent fun _ => rfl) fun before => ?_
  refine Gives.andThenAny (places_lookupName 0 h) fun found => ?_
  split
  · exact .pure ⟨h, Span.subset_rfl⟩
  · exact .pure ⟨h, Span.subset_rfl⟩
  · refine Gives.andThenAny (.silent fun _ => rfl) fun after => ?_
    split
    · exact .giveUpAt h (BoundExpr.PlacedIn.failed h)
    · exact .pure (BoundExpr.PlacedIn.failed h)

-- Members

section Member

variable {name : Ident}

theorem places_missingMember (type : TypeId) (hs : P span) (hn : P name.span) :
    Gives (Reported P) (missingMember scope type name span) (·.PlacedIn P span) :=
  .giveUpAt hn (BoundExpr.PlacedIn.failed hs)

theorem places_methodsNamed (type : TypeId) (name : String) (isStatic : Bool) :
    Gives (Reported P) (methodsNamed scope type name isStatic) fun _ => True :=
  .silent fun _ => rfl

theorem places_staticMember (type : TypeId) (hs : P span) (hn : P name.span) :
    Gives (Reported P) (staticMember scope type name span) (·.PlacedIn P span) := by
  unfold staticMember
  split
  · exact .pure (BoundExpr.PlacedIn.node hs nofun)
  refine Gives.andThenAny (places_methodsNamed type name.name true) fun methods => ?_
  split
  · exact places_missingMember type hs hn
  · exact .pure ⟨hs, Span.subset_rfl, nofun⟩

theorem places_instanceMember {value : BoundExpr} (hs : P span) (hn : P name.span)
    (hv : value.PlacedIn P span) (suppressErrors : Bool) :
    Gives (Reported P) (instanceMember scope value name span suppressErrors)
      (·.PlacedIn P span) := by
  have hread {op : BoundOp} {type : TypeId} :
      Denotation.PlacedIn P span (.value (.node op type span [value])) :=
    BoundExpr.PlacedIn.node hs (List.forall_mem_singleton.mpr hv)
  unfold instanceMember
  split
  · exact .pure (BoundExpr.PlacedIn.failed hs)
  split
  · exact Gives.andThenAny (.silent fun _ => rfl) fun descriptor => .pure hread
  split
  · exact .pure hread
  refine Gives.andThenAny (places_methodsNamed value.type name.name false) fun methods => ?_
  split
  · refine (places_extensionGroup name.name hs Span.subset_rfl hv).bind fun found hfound => ?_
    cases found with
    | some group => exact .pure (hfound group rfl)
    | none => exact places_missingMember value.type hs hn
  · refine .pure ⟨hs, Span.subset_rfl, ?_⟩
    rintro receiver ⟨⟩
    exact hv

theorem places_memberOf (hP : Span.Closed P) {target : Denotation} (hs : P span)
    (hn : P name.span) (ht : target.PlacedIn P span) (suppressErrors : Bool) :
    Gives (Reported P) (memberOf scope target name span suppressErrors) (·.PlacedIn P span) := by
  cases target with
  | entity entity place =>
      simp only [memberOf]
      split
      · exact .pure ⟨hs, Span.subset_rfl⟩
      · exact .pure ⟨hs, Span.subset_rfl⟩
      · exact .giveUpAt hn (BoundExpr.PlacedIn.failed hs)
  | type id place => exact places_staticMember id hs hn
  | value value => exact places_instanceMember hs hn ht suppressErrors
  | methods group =>
      have hwide : (BoundExpr.failed (group.span.hull span)).PlacedIn P span :=
        .widen (.failed (hP.hull ht.span hs)) (Span.hull_subset ht.subset Span.subset_rfl)
      exact Gives.andThenAny (.faultAt ht.span) fun _ => .pure hwide

end Member

-- Calls, indexing and types

section Value

variable {arguments : List BoundExpr}

theorem places_callDenoted {callee : Expr} {denoted : Denotation} (hs : P span)
    (hc : P callee.span) (hd : denoted.PlacedIn P span)
    (ha : ∀ a ∈ arguments, a.PlacedIn P span) :
    Gives (Reported P) (callDenoted scope callee denoted arguments span) (·.PlacedIn P span) := by
  cases denoted with
  | methods group =>
      simp only [callDenoted]
      split
      · exact .pure (.failed hs)
      · exact places_callGroup hs hd ha
  | value value =>
      simp only [callDenoted]
      split
      · exact .pure (.failed hs)
      split
      · refine Gives.andThenAny (.silent fun _ => rfl) fun descriptor => .pure (.node hs ?_)
        exact List.forall_mem_cons.mpr ⟨hd, ha⟩
      · exact .giveUpAt hc (.failed hs)
  | type id place => exact Gives.andThenAny (.faultAt hd.1) fun _ => .pure (.failed hs)
  | entity entity place => exact Gives.andThenAny (.faultAt hd.1) fun _ => .pure (.failed hs)

theorem places_bindIndex {target : BoundExpr} (hs : P span) (ht : target.PlacedIn P span)
    (ha : ∀ a ∈ arguments, a.PlacedIn P span) :
    Gives (Reported P) (bindIndex scope target arguments span) (·.PlacedIn P span) := by
  unfold bindIndex
  split
  · exact .pure (.failed hs)
  split
  · refine Gives.andThenAny (.silent fun _ => rfl) fun descriptor => .pure (.node hs ?_)
    exact List.forall_mem_cons.mpr ⟨ht, ha⟩
  refine Gives.andThenAny (places_methodsNamed target.type indexerName false) fun methods => ?_
  split
  · exact .giveUpAt hs (.failed hs)
  · refine places_callGroup hs ⟨hs, Span.subset_rfl, ?_⟩ ha
    rintro receiver ⟨⟩
    exact ht

variable {operand : BoundExpr} {name : TypeName}

theorem places_bindCast (hs : P span) (ho : operand.PlacedIn P span) (hn : name.Placed P) :
    Gives (Reported P) (bindCast scope operand name span) (·.PlacedIn P span) := by
  unfold bindCast
  refine Gives.andThenAny (places_resolveType name hn) fun found => ?_
  cases found with
  | none => exact .pure (.failed hs)
  | some target =>
      exact (places_convert ho target .explicitCast).bind fun e he => .pure (he.withSpan hs)

theorem places_bindAsType (hs : P span) (ho : operand.PlacedIn P span) (hn : name.Placed P) :
    Gives (Reported P) (bindAsType scope operand name span) (·.PlacedIn P span) := by
  unfold bindAsType
  refine Gives.andThenAny (places_resolveType name hn) fun found => ?_
  cases found with
  | none => exact .pure (.failed hs)
  | some target =>
      dsimp only
      split
      · exact .pure (.failed hs)
      refine Gives.andThenAny (.silent fun _ => rfl) fun descriptor => ?_
      exact (places_convertBy ho descriptor).bind fun e he => .pure (he.withSpan hs)

end Value

-- Expressions

-- What is bound next uses the value of what has been denoted.
theorem places_asValue {β : Type} {m : Compiling Denotation} {f : BoundExpr → Compiling β}
    {Q : β → Prop} (hm : Gives (Reported P) m (·.PlacedIn P span)) (hs : span ⊆ outer)
    (hf : ∀ e, e.PlacedIn P outer → Gives (Reported P) (f e) Q) :
    Gives (Reported P) (do let denoted ← m; let e ← toValue scope denoted; f e) Q :=
  hm.bind fun _ hd => (places_toValue (hd.widen hs)).bind hf

theorem places_valueOf {m : Compiling BoundExpr} (hm : Gives (Reported P) m (·.PlacedIn P span)) :
    Gives (Reported P) (do return Denotation.value (← m)) (·.PlacedIn P span) :=
  hm.bind fun _ he => .pure he

-- A call of a member of what an expression stands for.
theorem places_callMember (hP : Span.Closed P) {target : Expr} {denoted : Denotation}
    {name : Ident} {calleeSpan : Span} {arguments : List BoundExpr} (hs : P span)
    (hc : P calleeSpan) (hcs : calleeSpan ⊆ span) (hn : P name.span)
    (hd : denoted.PlacedIn P calleeSpan) (ha : ∀ a ∈ arguments, a.PlacedIn P span) :
    Gives (Reported P) (do
      let denoted ← memberOf scope denoted name calleeSpan false
      let callee := Expr.member target name calleeSpan
      return Denotation.value (← callDenoted scope callee denoted arguments span))
      (·.PlacedIn P span) :=
  (places_memberOf hP hc hn hd false).bind fun _ hm =>
    places_valueOf (places_callDenoted hs hc (hm.widen hcs) ha)

-- The parts of an `as` and of a call have been bound where these are.

theorem places_asMember (hP : Span.Closed P) {target : Expr} {member : Ident}
    {memberSpan : Span} {name : TypeName} (hs : P span) (hn : name.Placed P)
    (hmember : P memberSpan) (hos : memberSpan ⊆ span) (hm : P member.span)
    (ht : Gives (Reported P) (denote scope target) (·.PlacedIn P memberSpan)) :
    Gives (Reported P) (denote scope (.asType (.member target member memberSpan) name span))
      (·.PlacedIn P span) := by
  rw [denote]
  refine ht.bind fun denoted hd => ?_
  refine places_asValue (places_memberOf hP hmember hm hd true) hos fun value hv => ?_
  exact places_valueOf (places_bindAsType hs hv hn)

theorem places_callOfMember (hP : Span.Closed P) {target : Expr} {name : Ident}
    {calleeSpan : Span} {arguments : List Expr} (hs : P span) (hc : P calleeSpan)
    (hcs : calleeSpan ⊆ span) (hn : P name.span)
    (ht : Gives (Reported P) (denote scope target) (·.PlacedIn P calleeSpan))
    (ha : Gives (Reported P) (bindAll scope arguments) fun values =>
      ∀ value ∈ values, value.PlacedIn P span) :
    Gives (Reported P) (denote scope (.call (.member target name calleeSpan) arguments span))
      (·.PlacedIn P span) := by
  rw [denote]
  refine ha.bind fun values hvalues => ht.bind fun denoted hd => ?_
  cases denoted with
  | value receiver =>
      have hreceiver : receiver.PlacedIn P span := hd.widen hcs
      dsimp only
      split
      · refine Gives.andThenAny (.silent fun _ => rfl) fun descriptor => ?_
        refine .pure (BoundExpr.PlacedIn.node hs ?_)
        exact List.forall_mem_cons.mpr ⟨hreceiver, hvalues⟩
      · exact places_callMember hP hs hc hcs hn hd hvalues
  | _ => exact places_callMember hP hs hc hcs hn hd hvalues

mutual

-- The induction is that of the binder on the expression. Each part has a place inside the whole.
theorem places_denote (hP : Span.Closed P) (e : Expr) (h : e.Nested) (hp : e.Placed P) :
    Gives (Reported P) (denote scope e) (·.PlacedIn P e.span) := by
  have hs := hp.span
  match e with
  | .literal value span =>
      rw [denote]
      exact .pure (BoundExpr.PlacedIn.node hs nofun)
  | .name ident span =>
      cases h with | name hin =>
      cases hp with | name hi _ =>
      rw [denote]
      exact (places_bindName hi).imp fun _ hd => hd.widen hin
  | .member target name span =>
      cases h with | member ht hts _ =>
      cases hp with | member hpt hn _ =>
      rw [denote]
      refine (places_denote hP target ht hpt).bind fun denoted hd => ?_
      exact places_memberOf hP hs hn (hd.widen hts) false
  | .index target arguments span =>
      cases h with | index ht hts ha has =>
      cases hp with | index hpt hpa _ =>
      rw [denote]
      refine places_asValue (places_denote hP target ht hpt) hts fun value hv => ?_
      refine (places_bindAll hP arguments ha has hpa).bind fun values hvalues => ?_
      exact places_valueOf (places_bindIndex hs hv hvalues)
  | .unary op operand span =>
      cases h with | unary ho hos =>
      cases hp with | unary hpo _ =>
      rw [denote]
      refine places_asValue (places_denote hP operand ho hpo) hos fun value hv => ?_
      exact places_valueOf (places_bindUnary op hs hv)
  | .binary op left right span =>
      cases h with | binary hl hls hr hrs =>
      cases hp with | binary hpl hpr _ =>
      rw [denote]
      refine places_asValue (places_denote hP left hl hpl) hls fun first hf => ?_
      refine places_asValue (places_denote hP right hr hpr) hrs fun second hsecond => ?_
      exact places_valueOf (places_bindBinary op hs hf hsecond)
  | .cast name operand span =>
      cases h with | cast _ _ ho hos =>
      cases hp with | cast hn hpo _ =>
      rw [denote]
      refine places_asValue (places_denote hP operand ho hpo) hos fun value hv => ?_
      exact places_valueOf (places_bindCast hs hv hn)
  | .guarded checked operand span =>
      cases h with | guarded ho hos =>
      cases hp with | guarded hpo _ =>
      rw [denote]
      exact (places_denote hP operand ho hpo).inAnyScope.imp fun _ hd => hd.widen hos
  | .asType operand name span =>
      cases h with | asType ho hos _ _ =>
      cases hp with | asType hpo hn _ =>
      cases operand with
      | member target member memberSpan =>
          have hmember := hpo.span
          cases ho with | member ht hts _ =>
          cases hpo with | member hpt hm _ =>
          refine places_asMember hP hs hn hmember hos hm ?_
          exact (places_denote hP target ht hpt).imp fun _ hd => hd.widen hts
      | _ =>
          rw [denote_asType]
          · refine places_asValue (places_denote hP _ ho hpo) hos fun value hv => ?_
            exact places_valueOf (places_bindAsType hs hv hn)
          · nofun
  | .call callee arguments span =>
      cases h with | call hc hcs ha has =>
      cases hp with | call hpc hpa _ =>
      have hcallee := hpc.span
      have hall := places_bindAll hP arguments ha has hpa
      cases callee with
      | member target name calleeSpan =>
          cases hc with | member ht hts _ =>
          cases hpc with | member hpt hn _ =>
          refine places_callOfMember hP hs hcallee hcs hn ?_ hall
          exact (places_denote hP target ht hpt).imp fun _ hd => hd.widen hts
      | _ =>
          rw [denote_call]
          · refine hall.bind fun values hvalues => ?_
            refine (places_denote hP _ hc hpc).bind fun denoted hd => ?_
            exact places_valueOf (places_callDenoted hs hcallee (hd.widen hcs) hvalues)
          · nofun

theorem places_bindAll (hP : Span.Closed P) (es : List Expr) (h : ∀ e ∈ es, e.Nested)
    {outer : Span} (hin : ∀ e ∈ es, e.span ⊆ outer) (hp : ∀ e ∈ es, e.Placed P) :
    Gives (Reported P) (bindAll scope es) fun values =>
      ∀ value ∈ values, value.PlacedIn P outer := by
  match es with
  | [] =>
      rw [bindAll]
      exact .pure nofun
  | e :: rest =>
      obtain ⟨he, hrest⟩ := List.forall_mem_cons.mp h
      obtain ⟨hes, hrests⟩ := List.forall_mem_cons.mp hin
      obtain ⟨hpe, hps⟩ := List.forall_mem_cons.mp hp
      rw [bindAll]
      refine places_asValue (places_denote hP e he hpe) hes fun value hv => ?_
      refine (places_bindAll hP rest hrest hrests hps).bind fun values hvalues => .pure ?_
      exact List.forall_mem_cons.mpr ⟨hv, hvalues⟩

end

theorem places_bind (hP : Span.Closed P) {e : Expr} (h : e.Nested) (hp : e.Placed P) :
    Gives (Reported P) (bind scope e) (·.PlacedIn P e.span) :=
  (places_denote hP e h hp).bind fun _ hd => places_toValue hd

theorem places_bindTo (hP : Span.Closed P) {e : Expr} (h : e.Nested) (hp : e.Placed P)
    (target : TypeId) :
    Gives (Reported P) (bindTo scope e target) (·.PlacedIn P e.span) :=
  (places_bind hP h hp).bind fun _ he => places_convert he target .implicitCast

end EventScript.Binding
