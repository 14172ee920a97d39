import EventScript.Binding.Binder
import EventScript.Proofs.Reporting.Calls
import EventScript.Proofs.Reporting.Naming

namespace EventScript.Binding

open Compiling

-- A value is explained and stands inside the span.
def Within (ds : List Diagnostic) (outer : Span) (e : BoundExpr) : Prop :=
  e.Explained ds ∧ e.span ⊆ outer

theorem Within.mono {ds ds' : List Diagnostic} {outer : Span} {e : BoundExpr}
    (h : Within ds outer e) (hsub : ds ⊆ ds') : Within ds' outer e :=
  ⟨h.1.mono hsub, h.2⟩

theorem Within.explains {ds : List Diagnostic} {outer : Span} {e : BoundExpr}
    (h : Within ds outer e) (he : e.isError) : Explains ds outer :=
  (h.1.of_isError he).widen h.2

-- What an expression stands for is explained, and stands inside the span.
def Denotation.Located (ds : List Diagnostic) (outer : Span) : Denotation → Prop
  | value e => Within ds outer e
  | type _ span | entity _ span => span ⊆ outer
  | methods group => group.Explained ds ∧ group.span ⊆ outer

namespace Denotation.Located

variable {ds : List Diagnostic} {span outer : Span} {denoted : Denotation}

theorem widen (h : denoted.Located ds span) (hs : span ⊆ outer) : denoted.Located ds outer := by
  cases denoted with
  | value e => exact ⟨h.1, Span.subset_trans h.2 hs⟩
  | type id span => exact Span.subset_trans h hs
  | entity entity span => exact Span.subset_trans h hs
  | methods group => exact ⟨h.1, Span.subset_trans h.2 hs⟩

theorem of_replaces {e : BoundExpr} (h : Replaces ds span e) (hs : span ⊆ outer) :
    (value e).Located ds outer :=
  ⟨h.1, h.2 ▸ hs⟩

theorem failed {inner : Span} (h : Explains ds inner) (hi : inner ⊆ span) (hs : span ⊆ outer) :
    (value (.failed span)).Located ds outer :=
  of_replaces (.failed h hi) hs

end Denotation.Located

variable {scope : BindingScope} {ds : List Diagnostic}

theorem reports_toValue {denoted : Denotation} {outer : Span} (h : denoted.Located ds outer) :
    Reports ds (toValue scope denoted) fun ds' => Within ds' outer := by
  cases denoted with
  | value e => exact .pure h
  | type id span => exact .giveUp fun ds' _ he => ⟨.failed he, h⟩
  | entity entity span => exact .giveUp fun ds' _ he => ⟨.failed he, h⟩
  | methods group => exact .giveUp fun ds' _ he => ⟨.failed he, h.2⟩

theorem reports_bindName (ident : Ident) :
    Reports ds (bindName scope ident) fun ds' denoted => denoted.Located ds' ident.span := by
  unfold bindName
  split
  · exact .pure (.of_replaces (.node rfl (by simp)) Span.subset_rfl)
  refine Reports.errorCount.bind fun _ before _ hbefore => ?_
  obtain ⟨rfl, rfl⟩ := hbefore
  refine (reports_lookupName ident 0).bind fun ds' found _ hl => ?_
  split
  · exact .pure Span.subset_rfl
  · exact .pure Span.subset_rfl
  · refine Reports.errorCount.bind fun _ after _ hafter => ?_
    obtain ⟨rfl, rfl⟩ := hafter
    split
    · exact .giveUp fun _ _ he => .failed he Span.subset_rfl Span.subset_rfl
    · rename_i hne
      exact .pure (.failed (hl.eq_or hne) Span.subset_rfl Span.subset_rfl)

-- Members

section Member

variable {name : Ident} {span : Span}

theorem reports_missingMember (type : TypeId) (hn : name.span ⊆ span) :
    Reports ds (missingMember scope type name span) fun ds' denoted =>
      denoted.Located ds' span := by
  unfold missingMember
  exact .giveUp fun _ _ he => .failed he hn Span.subset_rfl

theorem reports_staticMember (type : TypeId) (hn : name.span ⊆ span) :
    Reports ds (staticMember scope type name span) fun ds' denoted => denoted.Located ds' span := by
  unfold staticMember
  split
  · exact .pure (.of_replaces (.node rfl (by simp)) Span.subset_rfl)
  refine (silent_methodsNamed type name.name true).silentBind fun methods => ?_
  split
  · exact reports_missingMember type hn
  · exact .pure ⟨nofun, Span.subset_rfl⟩

theorem reports_instanceMember {value : BoundExpr} (hv : value.Explained ds)
    (hs : value.span ⊆ span) (hn : name.span ⊆ span) (suppressErrors : Bool) :
    Reports ds (instanceMember scope value name span suppressErrors) fun ds' denoted =>
      denoted.Located ds' span := by
  have hvalue : ∀ receiver ∈ some value, receiver.Explained ds := by simpa using hv
  unfold instanceMember
  split
  · rename_i herr
    exact .pure (.failed (hv.of_isError herr) hs Span.subset_rfl)
  split
  · refine (Reports.descriptor _).silentBind fun descriptor => ?_
    exact .pure (.of_replaces (.node rfl (by simpa using hv)) Span.subset_rfl)
  split
  · exact .pure (.of_replaces (.node rfl (by simpa using hv)) Span.subset_rfl)
  refine (silent_methodsNamed value.type name.name false).silentBind fun methods => ?_
  split
  · refine (reports_extensionGroup hv name.name span).bind fun ds' found _ hf => ?_
    obtain ⟨rfl, hfound⟩ := hf
    cases found with
    | some group =>
        obtain ⟨hg, hspan⟩ := hfound group rfl
        exact .pure ⟨hg, hspan ▸ Span.subset_rfl⟩
    | none => exact reports_missingMember value.type hn
  · exact .pure ⟨hvalue, Span.subset_rfl⟩

theorem reports_memberOf {target : Denotation} (ht : target.Located ds span)
    (hn : name.span ⊆ span) (suppressErrors : Bool) :
    Reports ds (memberOf scope target name span suppressErrors) fun ds' denoted =>
      denoted.Located ds' span := by
  cases target with
  | entity entity entitySpan =>
      simp only [memberOf]
      split
      · exact .pure Span.subset_rfl
      · exact .pure Span.subset_rfl
      · exact .giveUp fun _ _ he => .failed he hn Span.subset_rfl
  | type id typeSpan => exact reports_staticMember id hn
  | value value => exact reports_instanceMember ht.1 ht.2 hn suppressErrors
  | methods group =>
      -- the failure reaches over the methods and the name that is asked of them
      refine (Reports.fault _ _ _).bind fun ds' _ _ he => .pure ?_
      exact .failed he (Span.subset_hull_left _ _) (Span.hull_subset ht.2 Span.subset_rfl)

end Member

-- Calls, indexing and types

theorem explains_of_any_isError {arguments : List BoundExpr} {span : Span}
    (ha : ∀ a ∈ arguments, Within ds span a)
    (he : arguments.any (·.isError) = true) : Explains ds span := by
  obtain ⟨a, hm, herr⟩ := List.any_eq_true.mp he
  exact (ha a hm).explains herr

section Value

variable {arguments : List BoundExpr} {span : Span}

theorem reports_callDenoted {callee : Expr} {denoted : Denotation}
    (hd : denoted.Located ds callee.span) (hs : callee.span ⊆ span)
    (ha : ∀ a ∈ arguments, Within ds span a) :
    Reports ds (callDenoted scope callee denoted arguments span) fun ds' => Replaces ds' span := by
  cases denoted with
  | methods group =>
      simp only [callDenoted]
      split
      · rename_i herr
        exact .pure (.failed (explains_of_any_isError ha herr) Span.subset_rfl)
      · exact reports_callGroup hd.1 (fun a hm => (ha a hm).1) (Span.subset_trans hd.2 hs)
  | value value =>
      simp only [callDenoted]
      split
      · rename_i herr
        exact .pure (.failed (hd.1.of_isError herr) (Span.subset_trans hd.2 hs))
      split
      · refine (Reports.descriptor _).silentBind fun descriptor => .pure (.node rfl ?_)
        exact List.forall_mem_cons.mpr ⟨hd.1, fun a hm => (ha a hm).1⟩
      · exact .giveUp fun _ _ he => .failed he hs
  | type id typeSpan =>
      refine (Reports.fault _ _ _).bind fun ds' _ _ he => .pure ?_
      exact .failed he (Span.subset_trans hd hs)
  | entity entity entitySpan =>
      refine (Reports.fault _ _ _).bind fun ds' _ _ he => .pure ?_
      exact .failed he (Span.subset_trans hd hs)

-- A call whose callee is a member, for all targets but objects.
theorem reports_callMember {target : Expr} {denoted : Denotation} {name : Ident}
    {calleeSpan : Span} (hd : denoted.Located ds target.span) (ht : target.span ⊆ calleeSpan)
    (hn : name.span ⊆ calleeSpan) (hs : calleeSpan ⊆ span)
    (ha : ∀ a ∈ arguments, Within ds span a) :
    Reports ds (do
      let denoted ← memberOf scope denoted name calleeSpan false
      let callee := Expr.member target name calleeSpan
      return Denotation.value (← callDenoted scope callee denoted arguments span))
      fun ds' denoted => denoted.Located ds' span := by
  refine (reports_memberOf (hd.widen ht) hn false).bind fun ds₁ member hsub hm => ?_
  have ha₁ : ∀ a ∈ arguments, Within ds₁ span a := fun a h => (ha a h).mono hsub
  refine (reports_callDenoted hm hs ha₁).bind fun ds₂ e _ he => ?_
  exact .pure (.of_replaces he Span.subset_rfl)

theorem reports_bindIndex {target : BoundExpr} (ht : Within ds span target)
    (ha : ∀ a ∈ arguments, Within ds span a) :
    Reports ds (bindIndex scope target arguments span) fun ds' => Replaces ds' span := by
  have hvalues : ∀ a ∈ arguments, a.Explained ds := fun a hm => (ha a hm).1
  unfold bindIndex
  split
  · rename_i herr
    rcases (Bool.or_eq_true _ _).mp herr with herr | herr
    · exact .pure (.failed (ht.explains herr) Span.subset_rfl)
    · exact .pure (.failed (explains_of_any_isError ha herr) Span.subset_rfl)
  split
  · refine (Reports.descriptor _).silentBind fun descriptor => .pure (.node rfl ?_)
    exact List.forall_mem_cons.mpr ⟨ht.1, hvalues⟩
  refine (silent_methodsNamed target.type indexerName false).silentBind fun methods => ?_
  split
  · exact .giveUp fun _ _ he => .failed he Span.subset_rfl
  · have hgroup : ∀ receiver ∈ some target, receiver.Explained ds := by simpa using ht.1
    exact reports_callGroup hgroup hvalues Span.subset_rfl

variable {operand : BoundExpr} {name : TypeName}

theorem reports_bindCast (ho : Within ds span operand) (hn : name.Nested)
    (hns : name.span ⊆ span) :
    Reports ds (bindCast scope operand name span) fun ds' => Replaces ds' span := by
  unfold bindCast
  refine (reports_resolveType name hn ds).bind fun ds₁ found hsub hf => ?_
  cases found with
  | none => exact .pure (.failed (hf rfl) hns)
  | some target =>
      refine (reports_convert (ho.mono hsub).1 target .explicitCast).bind fun ds₂ e _ he => ?_
      exact .pure (he.withSpan ho.2)

theorem reports_bindAsType (ho : Within ds span operand) (hn : name.Nested)
    (hns : name.span ⊆ span) :
    Reports ds (bindAsType scope operand name span) fun ds' => Replaces ds' span := by
  unfold bindAsType
  refine (reports_resolveType name hn ds).bind fun ds₁ found hsub hf => ?_
  have ho₁ : Within ds₁ span operand := ho.mono hsub
  cases found with
  | none => exact .pure (.failed (hf rfl) hns)
  | some target =>
      dsimp only
      split
      · rename_i herr
        exact .pure (.failed (ho₁.explains herr) Span.subset_rfl)
      refine (Reports.descriptor _).silentBind fun descriptor => ?_
      exact (reports_convertBy ho₁.1 descriptor).bind fun ds₂ e _ he => .pure (he.withSpan ho₁.2)

end Value

-- Expressions

-- What is bound next uses the value of what has been denoted, and may look at it as any expression
-- that is explained.
theorem reports_asValue {β : Type} {m : Compiling Denotation} {f : BoundExpr → Compiling β}
    {inner span : Span} {Q : List Diagnostic → β → Prop}
    (hm : Reports ds m fun ds' denoted => denoted.Located ds' inner) (hs : inner ⊆ span)
    (hf : ∀ ds' e, ds ⊆ ds' → Within ds' span e → Reports ds' (f e) Q) :
    Reports ds (do let denoted ← m; let e ← toValue scope denoted; f e) Q := by
  refine hm.bind fun ds₁ denoted hsub₁ hd => ?_
  refine (reports_toValue (hd.widen hs)).bind fun ds₂ e hsub₂ he => ?_
  exact hf ds₂ e (List.Subset.trans hsub₁ hsub₂) he

-- A replacement of an expression is what it stands for.
theorem reports_replaced {m : Compiling BoundExpr} {span : Span}
    (hm : Reports ds m fun ds' => Replaces ds' span) :
    Reports ds (do return Denotation.value (← m)) fun ds' denoted => denoted.Located ds' span :=
  hm.bind fun _ _ _ he => .pure (.of_replaces he Span.subset_rfl)

mutual

-- The induction is that of the binder on the expression. Each part is bound on top of what the
-- parts before it have reported, and stands inside the span of the whole.
theorem reports_denote (e : Expr) (h : e.Nested) (ds : List Diagnostic) :
    Reports ds (denote scope e) fun ds' denoted => denoted.Located ds' e.span := by
  match e with
  | .literal value span =>
      rw [denote]
      exact .pure (.of_replaces (.node rfl (by simp)) Span.subset_rfl)
  | .name ident span =>
      cases h with
      | name hi =>
          rw [denote]
          exact (reports_bindName ident).imp fun _ _ _ hd => hd.widen hi
  | .member target name span =>
      cases h with
      | member ht hts hn =>
          rw [denote]
          refine (reports_denote target ht ds).bind fun ds₁ denoted _ hd => ?_
          exact reports_memberOf (hd.widen hts) hn false
  | .index target arguments span =>
      cases h with
      | index ht hts ha has =>
          rw [denote]
          refine reports_asValue (reports_denote target ht ds) hts fun ds₁ value _ hv => ?_
          refine (reports_bindAll arguments ha has ds₁).bind fun ds₂ values hsub hvalues => ?_
          exact reports_replaced (reports_bindIndex (hv.mono hsub) hvalues)
  | .unary op operand span =>
      cases h with
      | unary ho hos =>
          rw [denote]
          refine reports_asValue (reports_denote operand ho ds) hos fun ds₁ value _ hv => ?_
          exact reports_replaced (reports_bindUnary op hv.1 hv.2)
  | .binary op left right span =>
      cases h with
      | binary hl hls hr hrs =>
          rw [denote]
          refine reports_asValue (reports_denote left hl ds) hls fun ds₁ first _ hf => ?_
          refine reports_asValue (reports_denote right hr ds₁) hrs fun ds₂ second hsub hs => ?_
          have hf₂ : Within ds₂ span first := hf.mono hsub
          exact reports_replaced (reports_bindBinary op hf₂.1 hf₂.2 hs.1 hs.2)
  | .cast name operand span =>
      cases h with
      | cast hn hns ho hos =>
          rw [denote]
          refine reports_asValue (reports_denote operand ho ds) hos fun ds₁ value _ hv => ?_
          exact reports_replaced (reports_bindCast hv hn hns)
  | .guarded checked operand span =>
      cases h with
      | guarded ho hos =>
          rw [denote]
          exact (reports_denote operand ho ds).inCheckedScope.imp fun _ _ _ hd => hd.widen hos
  | .asType operand name span =>
      cases h with
      | asType ho hos hn hns =>
          cases operand with
          | member target member memberSpan =>
              cases ho with
              | member ht hts hm =>
                  rw [denote]
                  refine (reports_denote target ht ds).bind fun ds₁ denoted _ hd => ?_
                  refine reports_asValue (reports_memberOf (hd.widen hts) hm true) hos ?_
                  intro ds₂ value _ hv
                  exact reports_replaced (reports_bindAsType hv hn hns)
          | _ =>
              rw [denote]
              · refine reports_asValue (reports_denote _ ho ds) hos fun ds₁ value _ hv => ?_
                exact reports_replaced (reports_bindAsType hv hn hns)
              · nofun
  | .call callee arguments span =>
      cases h with
      | call hc hcs ha has =>
          rw [denote]
          refine (reports_bindAll arguments ha has ds).bind fun ds₁ values _ hvalues => ?_
          cases callee with
          | member target name calleeSpan =>
              cases hc with
              | member ht hts hn =>
                  refine (reports_denote target ht ds₁).bind fun ds₂ denoted hsub hd => ?_
                  have hvalues₂ : ∀ value ∈ values, Within ds₂ span value :=
                    fun value hm => (hvalues value hm).mono hsub
                  cases denoted with
                  | value receiver =>
                      dsimp only
                      split
                      · refine (Reports.descriptor _).silentBind fun descriptor => ?_
                        refine .pure (.of_replaces (.node rfl ?_) Span.subset_rfl)
                        exact List.forall_mem_cons.mpr ⟨hd.1, fun a hm => (hvalues₂ a hm).1⟩
                      · exact reports_callMember hd hts hn hcs hvalues₂
                  | _ => exact reports_callMember hd hts hn hcs hvalues₂
          | _ =>
              dsimp only
              refine (reports_denote _ hc ds₁).bind fun ds₂ denoted hsub hd => ?_
              exact reports_replaced (reports_callDenoted hd hcs fun value hm =>
                (hvalues value hm).mono hsub)

theorem reports_bindAll (es : List Expr) (h : ∀ e ∈ es, e.Nested) {outer : Span}
    (hs : ∀ e ∈ es, e.span ⊆ outer) (ds : List Diagnostic) :
    Reports ds (bindAll scope es) fun ds' values =>
      ∀ value ∈ values, Within ds' outer value := by
  match es with
  | [] =>
      rw [bindAll]
      exact .pure (by simp)
  | e :: rest =>
      obtain ⟨he, hrest⟩ := List.forall_mem_cons.mp h
      obtain ⟨hes, hrests⟩ := List.forall_mem_cons.mp hs
      rw [bindAll]
      refine reports_asValue (reports_denote e he ds) hes fun ds₁ value _ hv => ?_
      refine (reports_bindAll rest hrest hrests ds₁).bind fun ds₂ values hsub hvalues => .pure ?_
      exact List.forall_mem_cons.mpr ⟨hv.mono hsub, hvalues⟩

end

theorem reports_bind (e : Expr) (h : e.Nested) :
    Reports ds (bind scope e) fun ds' bound => bound.Explained ds' :=
  (reports_denote e h ds).bind fun _ _ _ hd => (reports_toValue hd).imp fun _ _ _ he => he.1

theorem reports_bindTo (e : Expr) (h : e.Nested) (target : TypeId) :
    Reports ds (bindTo scope e target) fun ds' bound => bound.Explained ds' :=
  (reports_bind e h).bind fun _ _ _ he =>
    (reports_convert he target .implicitCast).imp fun _ _ _ hc => hc.1

end EventScript.Binding
