import EventScript.Proofs.Expr.Layout
import EventScript.Proofs.Expr.Nested
import EventScript.Proofs.Expr.Shifting

namespace EventScript

open Lexer

-- The expressions right inside an expression.
def Expr.operands : Expr → List Expr
  | literal .. | name .. => []
  | member target _ _ => [target]
  | call target arguments _ | index target arguments _ => target :: arguments
  | unary _ operand _ | cast _ operand _ | asType operand _ _ | guarded _ operand _ => [operand]
  | binary _ left right _ => [left, right]

-- An expression itself, and what stands inside it at any depth.
inductive Expr.Contains : Expr → Expr → Prop
  | self {e : Expr} : Contains e e
  | inside {e operand inner : Expr} :
      operand ∈ e.operands → Contains operand inner → Contains e inner

@[simp] theorem Expr.operands_withSpan (span : Span) (e : Expr) :
    (e.withSpan span).operands = e.operands := by
  cases e <;> rfl

-- What can be read in front of some token can be read with nothing behind it.
theorem ConcreteExpr.Readable.atEnd {e : ConcreteExpr} {next : TokenKind}
    (h : e.Readable next) : e.Readable .eof := by
  match e with
  | .literal .. | .name _ => trivial
  | .paren .. => exact ⟨h.1, fun _ => rfl⟩
  | .member .. | .emptyCall .. | .call .. | .index .. | .guarded .. => exact h
  | .unary _ _ operand => exact Readable.atEnd (e := operand) h
  | .binary _ _ _ right => exact ⟨h.1, Readable.atEnd h.2.1, h.2.2⟩
  | .cast _ _ _ operand => exact ⟨Readable.atEnd h.1, h.2⟩
  | .asType _ _ type => exact ⟨h.1, type.endsBefore (by simp) (by simp) (by simp)⟩

-- Somewhere among the tokens there is a form of the expression, which can be read alone.
def WrittenIn (tokens : List Token) (e : Expr) : Prop :=
  ∃ (form : ConcreteExpr) (before after : List Token),
    tokens = before ++ form.yield ++ after ∧ form.erase = e ∧ form.Grouped ∧ form.Readable .eof

namespace WrittenIn

variable {tokens : List Token} {e inner : Expr}

theorem of_form {form : ConcreteExpr} {next : TokenKind} (hg : form.Grouped)
    (hr : form.Readable next) : WrittenIn form.yield form.erase :=
  ⟨form, [], [], (List.append_nil _).symm, rfl, hg, hr.atEnd⟩

theorem widen (h : WrittenIn tokens e) (front behind : List Token) :
    WrittenIn (front ++ tokens ++ behind) e := by
  obtain ⟨form, before, after, rfl, he, hg, hr⟩ := h
  exact ⟨form, front ++ before, after ++ behind, by simp only [List.append_assoc], he, hg, hr⟩

-- The form of an operation at the end of some tokens.
theorem of_last {form : ConcreteExpr} {next : TokenKind} (hg : form.Grouped)
    (hr : form.Readable next) (front : List Token) :
    WrittenIn (front ++ form.yield) form.erase := by
  have hwritten := (of_form hg hr).widen front []
  rwa [List.append_nil] at hwritten

-- What is called or indexed, or what stands in the brackets behind it.
theorem applied {target arguments : List Token} (opened closed : Token)
    (h : WrittenIn target e ∨ WrittenIn arguments e) :
    WrittenIn (target ++ opened :: arguments ++ [closed]) e := by
  rcases h with h | h
  · have hfront := h.widen [] (opened :: arguments ++ [closed])
    simpa using hfront
  · have hbehind := h.widen (target ++ [opened]) [closed]
    simpa using hbehind

end WrittenIn

mutual

-- What stands right inside an expression has a form inside its form.
theorem ConcreteExpr.writtenIn_operand (e : ConcreteExpr) {operand : Expr} {next : TokenKind}
    (hg : e.Grouped) (hr : e.Readable next) (h : operand ∈ e.erase.operands) :
    WrittenIn e.yield operand := by
  match e with
  | .literal .. | .name _ => simp [ConcreteExpr.erase, Expr.operands] at h
  | .paren opened inner closed =>
      rw [ConcreteExpr.erase, Expr.operands_withSpan] at h
      exact (inner.writtenIn_operand hg hr.1 h).widen [Symbol.lparen.token opened]
        [Symbol.rparen.token closed]
  | .member target dot ident =>
      obtain rfl := List.mem_singleton.mp h
      exact (WrittenIn.of_form hg.1 hr).widen [] [Symbol.dot.token dot, ident.token]
  | .emptyCall callee opened closed =>
      obtain rfl := List.mem_singleton.mp h
      exact (WrittenIn.of_form hg.1 hr).widen []
        [Symbol.lparen.token opened, Symbol.rparen.token closed]
  | .call callee opened arguments closed =>
      obtain ⟨hgc, -, -, hga⟩ := hg
      refine .applied (Symbol.lparen.token opened) (Symbol.rparen.token closed) ?_
      rcases List.mem_cons.mp h with rfl | h
      · exact .inl (.of_form hgc hr.1)
      · exact .inr (arguments.writtenIn_item hga hr.2 h)
  | .index target opened arguments closed =>
      obtain ⟨hgt, -, -, hga⟩ := hg
      refine .applied (Symbol.lbracket.token opened) (Symbol.rbracket.token closed) ?_
      rcases List.mem_cons.mp h with rfl | h
      · exact .inl (.of_form hgt hr.1)
      · exact .inr (arguments.writtenIn_item hga hr.2 h)
  | .unary op sign inner =>
      obtain rfl := List.mem_singleton.mp h
      exact .of_last hg.1 hr [op.sign.token sign]
  | .binary op left sign right =>
      rcases List.mem_cons.mp h with rfl | h
      · exact (WrittenIn.of_form hg.1 hr.1).widen [] (op.sign.token sign :: right.yield)
      · obtain rfl := List.mem_singleton.mp h
        have hright := WrittenIn.of_last hg.2.1 hr.2.1 (left.yield ++ [op.sign.token sign])
        simpa [ConcreteExpr.yield] using hright
  | .cast opened type closed inner =>
      obtain rfl := List.mem_singleton.mp h
      have hinner := WrittenIn.of_last hg.1 hr.1
        (Symbol.lparen.token opened :: type.yield ++ [Symbol.rparen.token closed])
      simpa [ConcreteExpr.yield] using hinner
  | .asType inner word type =>
      obtain rfl := List.mem_singleton.mp h
      exact (WrittenIn.of_form hg.1 hr.1).widen [] (Keyword.asWord.token word :: type.yield)
  | .guarded checked word opened inner closed =>
      obtain rfl := List.mem_singleton.mp h
      have hinner : WrittenIn inner.yield inner.erase := .of_form hg hr
      exact hinner.widen
        [(scopeWord checked).token word, Symbol.lparen.token opened] [Symbol.rparen.token closed]

theorem ConcreteExprs.writtenIn_item (es : ConcreteExprs) {item : Expr} {close : TokenKind}
    (hg : es.Grouped) (hr : es.Readable close) (h : item ∈ es.erase) :
    WrittenIn es.yield item := by
  match es with
  | .last e =>
      obtain rfl := List.mem_singleton.mp h
      exact .of_form hg hr
  | .more e comma rest =>
      rcases List.mem_cons.mp h with rfl | h
      · exact (WrittenIn.of_form hg.1 hr.1).widen [] (Symbol.comma.token comma :: rest.yield)
      · have hitem := (rest.writtenIn_item hg.2 hr.2 h).widen
          (e.yield ++ [Symbol.comma.token comma]) []
        simpa [ConcreteExprs.yield] using hitem

end

-- So does everything at any depth.
theorem WrittenIn.of_contains {tokens : List Token} {e inner : Expr} (h : e.Contains inner)
    (hw : WrittenIn tokens e) : WrittenIn tokens inner := by
  induction h with
  | self => exact hw
  | inside hmem _ ih =>
      obtain ⟨form, before, after, rfl, rfl, hg, hr⟩ := hw
      exact ih ((form.writtenIn_operand hg hr hmem).widen before after)

-- The place of an expression reaches from its first token to its last one.

theorem endOf_append (start : Nat) (tokens others : List Token) :
    endOf start (tokens ++ others) = endOf (endOf start tokens) others := by
  induction tokens generalizing start with
  | nil => rfl
  | cons token tokens ih => exact ih token.span.stop

theorem InOrder.stop_le_endOf {tokens : List Token} {start : Nat} (h : InOrder tokens)
    (hstart : ∀ token ∈ tokens, start ≤ token.span.start) :
    start ≤ endOf start tokens ∧ ∀ token ∈ tokens, token.span.stop ≤ endOf start tokens := by
  induction tokens generalizing start with
  | nil => exact ⟨Nat.le_refl _, nofun⟩
  | cons first tokens ih =>
      obtain ⟨hle, hlater, horder⟩ := inOrder_cons.mp h
      obtain ⟨hend, hstops⟩ := ih horder hlater
      have hfirst := hstart first List.mem_cons_self
      refine ⟨?_, List.forall_mem_cons.mpr ⟨hend, hstops⟩⟩
      rw [endOf]
      omega

theorem ConcretePath.endOf_le (path : ConcretePath) (start : Nat) :
    endOf start path.yield ≤ path.erase.span.stop := by
  obtain ⟨front, hfront⟩ := path.yield_eq_concat
  rw [hfront, endOf_append]
  exact Nat.le_max_right _ _

theorem ConcreteType.endOf_le (type : ConcreteType) (start : Nat) :
    endOf start type.yield ≤ type.erase.span.stop := by
  cases type with
  | simple path question =>
      rw [yield, endOf_append]
      cases question with
      | none => exact path.endOf_le start
      | some question => exact Nat.le_max_right _ _
  | generic path opened arguments closed question =>
      rw [yield, endOf_append]
      cases question with
      | none => exact Nat.le_max_right _ _
      | some question => exact Nat.le_max_right _ _

namespace ConcreteExpr

theorem endOf_le (e : ConcreteExpr) (start : Nat) : endOf start e.yield ≤ e.erase.span.stop := by
  match e with
  | literal .. | name _ => exact Nat.le_refl _
  | paren opened inner closed =>
      rw [erase, Expr.span_withSpan, yield, endOf_append]
      exact Nat.le_max_right _ _
  | member .. | emptyCall .. | call .. | index .. | guarded .. =>
      rw [yield, endOf_append]
      exact Nat.le_max_right _ _
  | unary op sign operand =>
      exact Nat.le_trans (operand.endOf_le _) (Nat.le_max_right _ _)
  | binary op left sign right =>
      rw [yield, endOf_append]
      exact Nat.le_trans (right.endOf_le _) (Nat.le_max_right _ _)
  | cast opened type closed operand =>
      rw [yield, endOf_append]
      exact Nat.le_trans (operand.endOf_le _) (Nat.le_max_right _ _)
  | asType operand word type =>
      rw [yield, endOf_append]
      exact Nat.le_trans (type.endOf_le _) (Nat.le_max_right _ _)

theorem start_le (e : ConcreteExpr) :
    e.erase.span.start ≤ (Parser.peek e.yield).span.start := by
  match e with
  | literal .. | name _ => exact Nat.le_refl _
  | paren opened inner closed =>
      rw [erase, Expr.span_withSpan]
      exact Nat.min_le_left _ _
  | member target .. | emptyCall target .. | binary _ target _ _ | asType target .. =>
      rw [yield, peek_yield_append]
      exact Nat.le_trans (Nat.min_le_left _ _) target.start_le
  | call target .. | index target .. =>
      rw [yield, List.append_assoc, peek_yield_append]
      exact Nat.le_trans (Nat.min_le_left _ _) target.start_le
  | unary .. | guarded .. => exact Nat.min_le_left _ _
  | cast .. => exact Nat.le_trans (Nat.min_le_left _ _) (Nat.min_le_left _ _)

-- No more and no less than the tokens take up.
theorem span_eq (e : ConcreteExpr) {first : Token} {more : List Token}
    (hyield : e.yield = first :: more) (h : InOrder e.yield) :
    e.erase.span = ⟨first.span.start, endOf 0 (first :: more)⟩ := by
  have hfirst := e.start_le
  have hlast := e.endOf_le 0
  rw [hyield] at hfirst hlast h
  obtain ⟨-, hlater, -⟩ := inOrder_cons.mp h
  have hstarts : ∀ token ∈ first :: more, first.span.start ≤ token.span.start := by
    refine List.forall_mem_cons.mpr ⟨Nat.le_refl _, fun token hmem => ?_⟩
    exact Nat.le_trans (h.start_le_stop first List.mem_cons_self) (hlater token hmem)
  have hzero : ∀ token ∈ first :: more, 0 ≤ token.span.start := fun _ _ => Nat.zero_le _
  have hstops := (h.stop_le_endOf hzero).2
  have hwithin : e.erase.span ⊆ ⟨first.span.start, endOf 0 (first :: more)⟩ := by
    refine e.spans.subset _ fun token hmem => ?_
    rw [hyield] at hmem
    exact ⟨hstarts token hmem, hstops token hmem⟩
  have hstart : e.erase.span.start = first.span.start := Nat.le_antisymm hfirst hwithin.1
  have hstop : e.erase.span.stop = endOf 0 (first :: more) := Nat.le_antisymm hwithin.2 hlast
  rw [← hstart, ← hstop]

end ConcreteExpr

-- Every part of what is read from a source can be read alone from the text at its place: it is
-- found again, as far in front as its place is behind the start of the source.
theorem parseExpression_part {source : String} {e part : Expr}
    (h : parseExpression source = .ok e) (hpart : e.Contains part) :
    ∃ text found, part.span.slice? source = some text ∧ parseExpression text = .ok found ∧
      found.shift part.span.start = part := by
  obtain ⟨tokens, htokens, he⟩ := Parser.bind_eq_ok.mp h
  obtain ⟨tree, stop, left, rfl, rfl, hg, hr⟩ := Parser.wholeExpression_reads he
  obtain ⟨form, before, after, hyield, rfl, hgf, hrf⟩ :=
    (WrittenIn.of_form hg hr).of_contains hpart
  obtain ⟨first, more, hform, -⟩ := form.yield_eq_cons
  rw [hyield, List.append_assoc _ after, hform] at htokens
  have horder := (inOrder_append.mp (inOrder_append.mp (tokenize_inOrder htokens)).1).2.1
  obtain ⟨text, others, hslice, htext, hothers⟩ := tokenize_slice htokens (by simp)
  have hspan := form.span_eq hform (hform ▸ horder)
  rw [← hform] at hothers
  have hmoved : (others ++ [endMark 0 text.toList]).map (·.shift first.span.start) =
      form.yield ++ [(endMark 0 text.toList).shift first.span.start] := by
    rw [List.map_append, ← hothers]
    rfl
  have hkinds : kinds (others ++ [endMark 0 text.toList]) =
      kinds (form.yield ++ [(endMark 0 text.toList).shift first.span.start]) := by
    rw [← hmoved, kinds_shift]
  have hwhole : Parser.wholeExpression (form.yield ++
      [(endMark 0 text.toList).shift first.span.start]) = .ok form.erase :=
    Parser.wholeExpression_complete hgf hrf _ []
  have halike := Parser.alike_wholeExpression hkinds
  rw [hwhole] at halike
  obtain ⟨found, hfound, -⟩ := halike.exists_ok
  have hshift := Parser.wholeExpression_shift hfound first.span.start
  rw [hmoved, hwhole] at hshift
  refine ⟨text, found, hspan ▸ hslice, ?_, ?_⟩
  · exact Parser.bind_eq_ok.mpr ⟨_, htext, hfound⟩
  · rw [hspan]
    exact (Except.ok.inj hshift).symm

-- In `-(a + b)` the operand has its parentheses with it.
theorem parseExpression_part_negated :
    ∃ e part, parseExpression "-(a + b)" = .ok e ∧ e.Contains part ∧ part.span = ⟨1, 8⟩ ∧
      ∃ text found, part.span.slice? "-(a + b)" = some text ∧ parseExpression text = .ok found ∧
        found.shift part.span.start = part := by
  have hok : (parseExpression "-(a + b)").toOption.any (fun e =>
      e.operands.any fun part => part.span = ⟨1, 8⟩) = true := by decide +kernel
  obtain ⟨e, h, hany⟩ := Parser.exists_ok_of_any hok
  obtain ⟨part, hmem, hspan⟩ := List.any_eq_true.mp hany
  have hpart : e.Contains part := .inside hmem .self
  exact ⟨e, part, h, hpart, of_decide_eq_true hspan, parseExpression_part h hpart⟩

end EventScript
