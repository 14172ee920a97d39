import EventScript.Proofs.Expr.Directives
import EventScript.Proofs.Token.Order

namespace EventScript

-- A type name whose parts all stand inside its span.
inductive TypeName.Nested : TypeName → Prop
  | mk {path : DottedName} {arguments : List TypeName} {nullable : Bool} {span : Span} :
      (∀ ident ∈ path.idents, ident.span ⊆ span) → (∀ a ∈ arguments, a.span ⊆ span) →
      (∀ a ∈ arguments, Nested a) → Nested (.mk path arguments nullable span)

-- An expression whose parts all stand inside its span, and their parts inside theirs.
inductive Expr.Nested : Expr → Prop
  | literal {value : Literal} {span : Span} : Nested (.literal value span)
  | name {ident : Ident} {span : Span} : ident.span ⊆ span → Nested (.name ident span)
  | member {target : Expr} {name : Ident} {span : Span} :
      Nested target → target.span ⊆ span → name.span ⊆ span → Nested (.member target name span)
  | call {callee : Expr} {arguments : List Expr} {span : Span} :
      Nested callee → callee.span ⊆ span → (∀ a ∈ arguments, Nested a) →
      (∀ a ∈ arguments, a.span ⊆ span) → Nested (.call callee arguments span)
  | index {target : Expr} {arguments : List Expr} {span : Span} :
      Nested target → target.span ⊆ span → (∀ a ∈ arguments, Nested a) →
      (∀ a ∈ arguments, a.span ⊆ span) → Nested (.index target arguments span)
  | unary {op : UnaryOperator} {operand : Expr} {span : Span} :
      Nested operand → operand.span ⊆ span → Nested (.unary op operand span)
  | binary {op : BinaryOperator} {left right : Expr} {span : Span} :
      Nested left → left.span ⊆ span → Nested right → right.span ⊆ span →
      Nested (.binary op left right span)
  | cast {type : TypeName} {operand : Expr} {span : Span} :
      type.Nested → type.span ⊆ span → Nested operand → operand.span ⊆ span →
      Nested (.cast type operand span)
  | asType {type : TypeName} {operand : Expr} {span : Span} :
      Nested operand → operand.span ⊆ span → type.Nested → type.span ⊆ span →
      Nested (.asType operand type span)
  | guarded {checked : Bool} {operand : Expr} {span : Span} :
      Nested operand → operand.span ⊆ span → Nested (.guarded checked operand span)

theorem TypeName.Nested.ident_subset {name : TypeName} (h : name.Nested) :
    ∀ ident ∈ name.path.idents, ident.span ⊆ name.span := by
  cases h with
  | mk hp _ _ => exact hp

theorem Expr.Nested.withSpan {e : Expr} {span : Span} (h : e.Nested) (hs : e.span ⊆ span) :
    (e.withSpan span).Nested := by
  have widen {inner : Span} (hi : inner ⊆ e.span) : inner ⊆ span := Span.subset_trans hi hs
  cases h with
  | literal => exact .literal
  | name hi => exact .name (widen hi)
  | member ht hts hn => exact .member ht (widen hts) (widen hn)
  | call hc hcs ha has => exact .call hc (widen hcs) ha fun a hm => widen (has a hm)
  | index ht hts ha has => exact .index ht (widen hts) ha fun a hm => widen (has a hm)
  | unary ho hos => exact .unary ho (widen hos)
  | binary hl hls hr hrs => exact .binary hl (widen hls) hr (widen hrs)
  | cast ht hts ho hos => exact .cast ht (widen hts) ho (widen hos)
  | asType ho hos ht hts => exact .asType ho (widen hos) ht (widen hts)
  | guarded ho hos => exact .guarded ho (widen hos)

-- The place of what is read from some tokens: it reaches from one of them on, and only as far as
-- any span that holds all of them.
structure Spans (span : Span) (tokens : List Token) : Prop where
  exists_mem : ∃ token ∈ tokens, token.span ⊆ span
  subset : ∀ outer, (∀ token ∈ tokens, token.span ⊆ outer) → span ⊆ outer

namespace Spans

variable {span : Span} {tokens more : List Token} {token : Token}

theorem single (token : Token) : Spans token.span [token] :=
  ⟨⟨token, List.mem_cons_self, Span.subset_rfl⟩, fun _ h => h token List.mem_cons_self⟩

-- What follows starts behind the start of what has been read before it.
theorem start_le (h : Spans span tokens) (ho : InOrder (tokens ++ more)) :
    ∀ token ∈ more, span.start ≤ token.span.start := by
  intro token hm
  obtain ⟨first, hf, hs⟩ := h.exists_mem
  obtain ⟨hfirst, -, hacross⟩ := inOrder_append.mp ho
  have := hs.1
  have := hfirst.start_le_stop first hf
  have := hacross first hf token hm
  omega

theorem hull {other : Span} {first second : List Token} (h : Spans span first)
    (h' : Spans other second) (hf : first ⊆ tokens) (hs : second ⊆ tokens) :
    Spans (span.hull other) tokens where
  exists_mem := by
    obtain ⟨token, hm, hsub⟩ := h.exists_mem
    exact ⟨token, hf hm, Span.subset_trans hsub (Span.subset_hull_left _ _)⟩
  subset outer ho :=
    Span.hull_subset (h.subset outer fun token hm => ho token (hf hm))
      (h'.subset outer fun token hm => ho token (hs hm))

theorem hull_token (h : Spans span tokens) (token : Token) (hf : tokens ⊆ more)
    (hm : token ∈ more) : Spans (span.hull token.span) more :=
  h.hull (single token) hf (by simpa using hm)

-- What has been read between two other parts lies inside the hull of these.
theorem subset_hull {before : Span} {first inner : List Token} {closed : Token}
    (h : Spans span tokens) (hin : tokens ⊆ inner) (hb : Spans before first)
    (ho : InOrder (first ++ inner ++ [closed])) : span ⊆ before.hull closed.span := by
  obtain ⟨hfront, hclosed, hstop⟩ := inOrder_append.mp ho
  refine h.subset _ fun token hm =>
    Span.subset_hull_of_between (hb.start_le hfront token (hin hm)) ?_
  have := hstop token (List.mem_append_right _ (hin hm)) closed List.mem_cons_self
  have := hclosed.start_le_stop closed List.mem_cons_self
  omega

end Spans

namespace ConcretePath

theorem token_mem_yield {path : ConcretePath} {ident : Ident} (h : ident ∈ path.erase.idents) :
    ident.token ∈ path.yield := by
  rcases List.mem_cons.mp h with rfl | h
  · exact List.mem_cons_self
  · obtain ⟨⟨dot, name⟩, hm, rfl⟩ := List.mem_map.mp h
    exact List.mem_cons_of_mem _ (List.mem_flatMap.mpr ⟨(dot, name), hm, by simp⟩)

theorem last_mem_idents (path : DottedName) : path.last ∈ path.idents := by
  unfold DottedName.last DottedName.idents
  cases hl : path.rest.getLast? with
  | none => exact List.mem_cons_self
  | some last => exact List.mem_cons_of_mem _ (List.mem_of_getLast? hl)

theorem spans (path : ConcretePath) : Spans path.erase.span path.yield := by
  refine (Spans.single path.first.token).hull_token path.erase.last.token ?_ ?_
  · simp [yield]
  · exact token_mem_yield (last_mem_idents path.erase)

theorem yield_eq_concat (path : ConcretePath) :
    ∃ front, path.yield = front ++ [path.erase.last.token] := by
  obtain ⟨first, rest⟩ := path
  rcases List.eq_nil_or_concat rest with rfl | ⟨init, ⟨dot, last⟩, rfl⟩
  · exact ⟨[], rfl⟩
  · refine ⟨first.token :: yieldRest init ++ [Symbol.dot.token dot], ?_⟩
    simp [yield, yieldRest, erase, DottedName.last]

-- The names stand between the first and the last of them.
theorem idents_subset {path : ConcretePath} (h : InOrder path.yield) :
    ∀ ident ∈ path.erase.idents, ident.span ⊆ path.erase.span := by
  intro ident hm
  have hmem := token_mem_yield hm
  refine Span.subset_hull_of_between ?_ ?_
  · obtain ⟨hle, hfirst, -⟩ := inOrder_cons.mp h
    rcases List.mem_cons.mp hmem with heq | hmem
    · rw [show ident.span = path.first.span from congrArg Token.span heq]
      exact Nat.le_refl _
    · exact Nat.le_trans hle (hfirst _ hmem)
  · obtain ⟨front, hfront⟩ := path.yield_eq_concat
    rw [hfront] at h hmem
    obtain ⟨-, hlast, hacross⟩ := inOrder_append.mp h
    rcases List.mem_append.mp hmem with hmem | hmem
    · have := hacross _ hmem _ List.mem_cons_self
      exact Nat.le_trans this (hlast.start_le_stop _ List.mem_cons_self)
    · have he : ident.span = path.erase.last.span :=
        congrArg Token.span (List.mem_singleton.mp hmem)
      exact Nat.le_of_eq (congrArg Span.stop he)

end ConcretePath

-- A question mark makes the place of a type reach up to it.
theorem Spans.marked {span : Span} {tokens : List Token} (h : Spans span tokens)
    (path : DottedName) (arguments : List TypeName) (question : Option Span) :
    Spans (TypeName.marked path arguments span question).span
      (tokens ++ questionYield question) := by
  cases question with
  | none =>
      rw [questionYield, Option.toList_none, List.map_nil, List.append_nil]
      exact h
  | some question =>
      refine h.hull_token (Symbol.question.token question) ?_ ?_ <;> simp [questionYield]

theorem TypeName.Nested.marked {path : DottedName} {arguments : List TypeName} {span : Span}
    (hp : ∀ ident ∈ path.idents, ident.span ⊆ span) (hs : ∀ a ∈ arguments, a.span ⊆ span)
    (ha : ∀ a ∈ arguments, a.Nested) (question : Option Span) :
    (TypeName.marked path arguments span question).Nested := by
  have hsub : span ⊆ (TypeName.marked path arguments span question).span := by
    cases question with
    | none => exact Span.subset_rfl
    | some question => exact Span.subset_hull_left _ _
  exact .mk (fun ident hm => Span.subset_trans (hp ident hm) hsub)
    (fun a hm => Span.subset_trans (hs a hm) hsub) ha

mutual

theorem ConcreteType.spans (type : ConcreteType) : Spans type.erase.span type.yield := by
  match type with
  | .simple path question => exact path.spans.marked path.erase [] question
  | .generic path opened arguments closed question =>
      have hbody : Spans (path.erase.span.hull closed) (path.yield ++ Symbol.lt.token opened ::
          arguments.yield ++ [Symbol.gt.token closed]) :=
        path.spans.hull_token (Symbol.gt.token closed) (by simp) (by simp)
      have hmarked := hbody.marked path.erase arguments.erase question
      simpa [ConcreteType.yield, ConcreteType.erase] using hmarked

-- Each type of a list has its place among the tokens of the list.
theorem ConcreteTypes.spans (types : ConcreteTypes) :
    ∀ a ∈ types.erase, ∃ tokens, tokens ⊆ types.yield ∧ Spans a.span tokens := by
  match types with
  | .last type =>
      intro a hm
      rw [ConcreteTypes.erase, List.mem_singleton] at hm
      exact ⟨type.yield, List.Subset.refl _, hm ▸ type.spans⟩
  | .more type comma rest =>
      intro a hm
      rw [ConcreteTypes.erase] at hm
      rcases List.mem_cons.mp hm with rfl | hm
      · exact ⟨type.yield, by simp [ConcreteTypes.yield], type.spans⟩
      · obtain ⟨tokens, hsub, hspans⟩ := rest.spans a hm
        refine ⟨tokens, List.Subset.trans hsub ?_, hspans⟩
        simp [ConcreteTypes.yield]

end

mutual

theorem ConcreteType.nested_erase (type : ConcreteType) (h : InOrder type.yield) :
    type.erase.Nested := by
  match type with
  | .simple path question =>
      have hpath := (inOrder_append.mp h).1
      exact .marked (ConcretePath.idents_subset hpath) (by simp) (by simp) question
  | .generic path opened arguments closed question =>
      have hbody : InOrder (path.yield ++ Symbol.lt.token opened :: arguments.yield ++
          [Symbol.gt.token closed]) := by
        have hyield : (ConcreteType.generic path opened arguments closed question).yield =
            path.yield ++ Symbol.lt.token opened :: arguments.yield ++
              [Symbol.gt.token closed] ++ questionYield question := by
          simp [ConcreteType.yield]
        rw [hyield] at h
        exact (inOrder_append.mp h).1
      obtain ⟨hpath, hinner, -⟩ := inOrder_append.mp (inOrder_append.mp hbody).1
      refine .marked ?_ ?_ (arguments.nested_erase (inOrder_cons.mp hinner).2.2) question
      · exact fun ident hm => Span.subset_trans (ConcretePath.idents_subset hpath ident hm)
          (Span.subset_hull_left _ _)
      · intro a hm
        obtain ⟨tokens, hsub, hspans⟩ := arguments.spans a hm
        exact hspans.subset_hull (List.subset_cons_of_subset _ hsub) path.spans hbody

theorem ConcreteTypes.nested_erase (types : ConcreteTypes) (h : InOrder types.yield) :
    ∀ a ∈ types.erase, a.Nested := by
  match types with
  | .last type =>
      intro a hm
      rw [ConcreteTypes.erase, List.mem_singleton] at hm
      exact hm ▸ type.nested_erase h
  | .more type comma rest =>
      obtain ⟨htype, hmore, -⟩ := inOrder_append.mp h
      rw [ConcreteTypes.erase]
      exact List.forall_mem_cons.mpr
        ⟨type.nested_erase htype, rest.nested_erase (inOrder_cons.mp hmore).2.2⟩

end

mutual

theorem ConcreteExpr.spans (e : ConcreteExpr) : Spans e.erase.span e.yield := by
  match e with
  | .literal value span => exact Spans.single ⟨value.kind, span⟩
  | .name ident => exact Spans.single ident.token
  | .paren opened inner closed =>
      rw [ConcreteExpr.erase, Expr.span_withSpan]
      exact (Spans.single (Symbol.lparen.token opened)).hull_token
        (Symbol.rparen.token closed) (by simp [ConcreteExpr.yield])
        (by simp [ConcreteExpr.yield])
  | .member target dot name =>
      exact target.spans.hull_token name.token (by simp [ConcreteExpr.yield])
        (by simp [ConcreteExpr.yield])
  | .emptyCall callee opened closed =>
      exact callee.spans.hull_token (Symbol.rparen.token closed)
        (by simp [ConcreteExpr.yield]) (by simp [ConcreteExpr.yield])
  | .call callee opened arguments closed =>
      exact callee.spans.hull_token (Symbol.rparen.token closed)
        (by simp [ConcreteExpr.yield]) (by simp [ConcreteExpr.yield])
  | .index target opened arguments closed =>
      exact target.spans.hull_token (Symbol.rbracket.token closed)
        (by simp [ConcreteExpr.yield]) (by simp [ConcreteExpr.yield])
  | .unary op sign operand =>
      exact (Spans.single (op.sign.token sign)).hull operand.spans
        (by simp [ConcreteExpr.yield]) (by simp [ConcreteExpr.yield])
  | .binary op left sign right =>
      exact left.spans.hull right.spans (by simp [ConcreteExpr.yield])
        (by simp [ConcreteExpr.yield])
  | .cast opened type closed operand =>
      have hparens : Spans (opened.hull closed)
          (Symbol.lparen.token opened :: type.yield ++ [Symbol.rparen.token closed]) :=
        (Spans.single (Symbol.lparen.token opened)).hull_token
          (Symbol.rparen.token closed) (by simp) (by simp)
      refine hparens.hull operand.spans (by simp [ConcreteExpr.yield]) fun token hm => ?_
      simp [ConcreteExpr.yield, hm]
  | .asType operand word type =>
      exact operand.spans.hull type.spans (by simp [ConcreteExpr.yield])
        (by simp [ConcreteExpr.yield])
  | .guarded checked word opened inner closed =>
      exact (Spans.single ((scopeWord checked).token word)).hull_token
        (Symbol.rparen.token closed) (by simp [ConcreteExpr.yield])
        (by simp [ConcreteExpr.yield])

theorem ConcreteExprs.spans (es : ConcreteExprs) :
    ∀ a ∈ es.erase, ∃ tokens, tokens ⊆ es.yield ∧ Spans a.span tokens := by
  match es with
  | .last e =>
      intro a hm
      rw [ConcreteExprs.erase, List.mem_singleton] at hm
      exact ⟨e.yield, List.Subset.refl _, hm ▸ e.spans⟩
  | .more e comma rest =>
      intro a hm
      rw [ConcreteExprs.erase] at hm
      rcases List.mem_cons.mp hm with rfl | hm
      · exact ⟨e.yield, by simp [ConcreteExprs.yield], e.spans⟩
      · obtain ⟨tokens, hsub, hspans⟩ := rest.spans a hm
        refine ⟨tokens, List.Subset.trans hsub ?_, hspans⟩
        simp [ConcreteExprs.yield]

end

mutual

-- Signs that enclose a part stand before and behind it, and all other parts are at the ends of
-- what they are parts of.
theorem ConcreteExpr.nested_erase (e : ConcreteExpr) (h : InOrder e.yield) : e.erase.Nested := by
  match e with
  | .literal value span => exact .literal
  | .name ident => exact .name Span.subset_rfl
  | .paren opened inner closed =>
      have hinner := (inOrder_cons.mp (inOrder_append.mp h).1).2.2
      refine (inner.nested_erase hinner).withSpan ?_
      exact inner.spans.subset_hull (List.Subset.refl _)
        (Spans.single (Symbol.lparen.token opened)) h
  | .member target dot name =>
      exact .member (target.nested_erase (inOrder_append.mp h).1) (Span.subset_hull_left _ _)
        (Span.subset_hull_right _ _)
  | .emptyCall callee opened closed =>
      exact .call (callee.nested_erase (inOrder_append.mp h).1) (Span.subset_hull_left _ _)
        (by simp) (by simp)
  | .call callee opened arguments closed =>
      obtain ⟨hcallee, hinner, -⟩ := inOrder_append.mp (inOrder_append.mp h).1
      refine .call (callee.nested_erase hcallee) (Span.subset_hull_left _ _)
        (arguments.nested_erase (inOrder_cons.mp hinner).2.2) fun a hm => ?_
      obtain ⟨tokens, hsub, hspans⟩ := arguments.spans a hm
      exact hspans.subset_hull (List.subset_cons_of_subset _ hsub) callee.spans h
  | .index target opened arguments closed =>
      obtain ⟨htarget, hinner, -⟩ := inOrder_append.mp (inOrder_append.mp h).1
      refine .index (target.nested_erase htarget) (Span.subset_hull_left _ _)
        (arguments.nested_erase (inOrder_cons.mp hinner).2.2) fun a hm => ?_
      obtain ⟨tokens, hsub, hspans⟩ := arguments.spans a hm
      exact hspans.subset_hull (List.subset_cons_of_subset _ hsub) target.spans h
  | .unary op sign operand =>
      exact .unary (operand.nested_erase (inOrder_cons.mp h).2.2) (Span.subset_hull_right _ _)
  | .binary op left sign right =>
      obtain ⟨hleft, hright, -⟩ := inOrder_append.mp h
      exact .binary (left.nested_erase hleft) (Span.subset_hull_left _ _)
        (right.nested_erase (inOrder_cons.mp hright).2.2) (Span.subset_hull_right _ _)
  | .cast opened type closed operand =>
      have hyield : (ConcreteExpr.cast opened type closed operand).yield =
          Symbol.lparen.token opened :: type.yield ++ [Symbol.rparen.token closed] ++
            operand.yield := by
        simp [ConcreteExpr.yield]
      rw [hyield] at h
      obtain ⟨hparens, hoperand, -⟩ := inOrder_append.mp h
      have htype := (inOrder_cons.mp (inOrder_append.mp hparens).1).2.2
      refine .cast (type.nested_erase htype) ?_ (operand.nested_erase hoperand)
        (Span.subset_hull_right _ _)
      refine Span.subset_trans ?_ (Span.subset_hull_left _ _)
      exact type.spans.subset_hull (List.Subset.refl _)
        (Spans.single (Symbol.lparen.token opened)) hparens
  | .asType operand word type =>
      obtain ⟨hoperand, htype, -⟩ := inOrder_append.mp h
      exact .asType (operand.nested_erase hoperand) (Span.subset_hull_left _ _)
        (type.nested_erase (inOrder_cons.mp htype).2.2) (Span.subset_hull_right _ _)
  | .guarded checked word opened inner closed =>
      have hinner := (inOrder_cons.mp (inOrder_cons.mp (inOrder_append.mp h).1).2.2).2.2
      refine .guarded (inner.nested_erase hinner) ?_
      exact inner.spans.subset_hull (List.subset_cons_self (Symbol.lparen.token opened) _)
        (Spans.single ((scopeWord checked).token word)) h

theorem ConcreteExprs.nested_erase (es : ConcreteExprs) (h : InOrder es.yield) :
    ∀ a ∈ es.erase, a.Nested := by
  match es with
  | .last e =>
      intro a hm
      rw [ConcreteExprs.erase, List.mem_singleton] at hm
      exact hm ▸ e.nested_erase h
  | .more e comma rest =>
      obtain ⟨he, hmore, -⟩ := inOrder_append.mp h
      rw [ConcreteExprs.erase]
      exact List.forall_mem_cons.mpr
        ⟨e.nested_erase he, rest.nested_erase (inOrder_cons.mp hmore).2.2⟩

end

-- What is read from a source is nested as it is written.
theorem parseScript_nested {source : String} {script : Script}
    (h : parseScript source = .ok script) : script.body.Nested := by
  obtain ⟨tokens, ht, hs⟩ := Parser.bind_eq_ok.mp h
  obtain ⟨form, stop, left, rfl, rfl, -⟩ := Parser.script_sound hs
  have horder := tokenize_inOrder ht
  have hform := (inOrder_append.mp horder).1
  exact form.body.nested_erase (inOrder_append.mp hform).2.1

end EventScript
