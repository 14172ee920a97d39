import EventScript.Proofs.Expr.Completeness
import EventScript.Proofs.Token.Tiling

namespace EventScript

-- Forms that are moved on with the text they were read from

theorem Span.hull_shift (a b : Span) (offset : Nat) :
    (a.shift offset).hull (b.shift offset) = (a.hull b).shift offset := by
  simp only [hull, shift, Nat.add_min_add_right, Nat.add_max_add_right]

def Ident.shift (offset : Nat) (ident : Ident) : Ident := ⟨ident.name, ident.span.shift offset⟩

def DottedName.shift (offset : Nat) (path : DottedName) : DottedName :=
  ⟨path.first.shift offset, path.rest.map (Ident.shift offset)⟩

def TypeName.shift (offset : Nat) : TypeName → TypeName
  | mk path arguments nullable span =>
    mk (path.shift offset) (arguments.map (shift offset)) nullable (span.shift offset)

def Expr.shift (offset : Nat) : Expr → Expr
  | literal value span => literal value (span.shift offset)
  | name ident span => name (ident.shift offset) (span.shift offset)
  | member target ident span =>
    member (target.shift offset) (ident.shift offset) (span.shift offset)
  | call callee arguments span =>
    call (callee.shift offset) (arguments.map (shift offset)) (span.shift offset)
  | index target arguments span =>
    index (target.shift offset) (arguments.map (shift offset)) (span.shift offset)
  | unary op operand span => unary op (operand.shift offset) (span.shift offset)
  | binary op left right span =>
    binary op (left.shift offset) (right.shift offset) (span.shift offset)
  | cast type operand span =>
    cast (type.shift offset) (operand.shift offset) (span.shift offset)
  | asType operand type span =>
    asType (operand.shift offset) (type.shift offset) (span.shift offset)
  | guarded checked operand span => guarded checked (operand.shift offset) (span.shift offset)

@[simp] theorem TypeName.span_shift (offset : Nat) (type : TypeName) :
    (type.shift offset).span = type.span.shift offset := by
  cases type
  simp only [shift, span]

@[simp] theorem Expr.span_shift (offset : Nat) (e : Expr) :
    (e.shift offset).span = e.span.shift offset := by
  cases e <;> simp only [shift, span]

@[simp] theorem Expr.shift_withSpan (offset : Nat) (span : Span) (e : Expr) :
    (e.withSpan span).shift offset = (e.shift offset).withSpan (span.shift offset) := by
  cases e <;> simp only [withSpan, shift]

@[simp] theorem DottedName.span_shift (offset : Nat) (path : DottedName) :
    (path.shift offset).span = path.span.shift offset := by
  have hlast : (path.shift offset).last = path.last.shift offset := by
    rw [last, last, shift, List.getLast?_map, Option.getD_map]
  rw [span, span, hlast]
  exact Span.hull_shift _ _ _

def ConcretePath.shift (offset : Nat) (path : ConcretePath) : ConcretePath :=
  ⟨path.first.shift offset,
    path.rest.map fun (dot, name) => (dot.shift offset, name.shift offset)⟩

mutual

def ConcreteType.shift (offset : Nat) : ConcreteType → ConcreteType
  | .simple path question => .simple (path.shift offset) (question.map (·.shift offset))
  | .generic path opened arguments closed question =>
    .generic (path.shift offset) (opened.shift offset) (arguments.shift offset)
      (closed.shift offset) (question.map (·.shift offset))

def ConcreteTypes.shift (offset : Nat) : ConcreteTypes → ConcreteTypes
  | .last type => .last (type.shift offset)
  | .more type comma rest => .more (type.shift offset) (comma.shift offset) (rest.shift offset)

end

mutual

def ConcreteExpr.shift (offset : Nat) : ConcreteExpr → ConcreteExpr
  | .literal value span => .literal value (span.shift offset)
  | .name ident => .name (ident.shift offset)
  | .paren opened inner closed =>
    .paren (opened.shift offset) (inner.shift offset) (closed.shift offset)
  | .member target dot name =>
    .member (target.shift offset) (dot.shift offset) (name.shift offset)
  | .emptyCall callee opened closed =>
    .emptyCall (callee.shift offset) (opened.shift offset) (closed.shift offset)
  | .call callee opened arguments closed =>
    .call (callee.shift offset) (opened.shift offset) (arguments.shift offset)
      (closed.shift offset)
  | .index target opened arguments closed =>
    .index (target.shift offset) (opened.shift offset) (arguments.shift offset)
      (closed.shift offset)
  | .unary op sign operand => .unary op (sign.shift offset) (operand.shift offset)
  | .binary op left sign right =>
    .binary op (left.shift offset) (sign.shift offset) (right.shift offset)
  | .cast opened type closed operand =>
    .cast (opened.shift offset) (type.shift offset) (closed.shift offset) (operand.shift offset)
  | .asType operand word type =>
    .asType (operand.shift offset) (word.shift offset) (type.shift offset)
  | .guarded checked word opened inner closed =>
    .guarded checked (word.shift offset) (opened.shift offset) (inner.shift offset)
      (closed.shift offset)

def ConcreteExprs.shift (offset : Nat) : ConcreteExprs → ConcreteExprs
  | .last e => .last (e.shift offset)
  | .more e comma rest => .more (e.shift offset) (comma.shift offset) (rest.shift offset)

end

-- The tokens of what is moved are the tokens, moved.

@[simp] theorem Symbol.shift_token (sign : Symbol) (span : Span) (offset : Nat) :
    (sign.token span).shift offset = sign.token (span.shift offset) := rfl

@[simp] theorem Keyword.shift_token (word : Keyword) (span : Span) (offset : Nat) :
    (word.token span).shift offset = word.token (span.shift offset) := rfl

@[simp] theorem Ident.shift_token (ident : Ident) (offset : Nat) :
    ident.token.shift offset = (ident.shift offset).token := rfl

@[simp] theorem ConcretePath.yield_shift (offset : Nat) (path : ConcretePath) :
    (path.shift offset).yield = path.yield.map (·.shift offset) := by
  simp [yield, yieldRest, shift, List.flatMap_map, List.map_flatMap]

@[simp] theorem questionYield_shift (offset : Nat) (question : Option Span) :
    questionYield (question.map (·.shift offset)) =
      (questionYield question).map (·.shift offset) := by
  cases question <;> rfl

mutual

@[simp] theorem ConcreteType.yield_shift (offset : Nat) (type : ConcreteType) :
    (type.shift offset).yield = type.yield.map (·.shift offset) := by
  match type with
  | .simple path question => simp [ConcreteType.shift, ConcreteType.yield]
  | .generic path _ arguments _ question =>
      simp [ConcreteType.shift, ConcreteType.yield, arguments.yield_shift offset]

@[simp] theorem ConcreteTypes.yield_shift (offset : Nat) (types : ConcreteTypes) :
    (types.shift offset).yield = types.yield.map (·.shift offset) := by
  match types with
  | .last type => simp [ConcreteTypes.shift, ConcreteTypes.yield, type.yield_shift offset]
  | .more type _ rest =>
      simp [ConcreteTypes.shift, ConcreteTypes.yield, type.yield_shift offset,
        rest.yield_shift offset]

end

mutual

@[simp] theorem ConcreteExpr.yield_shift (offset : Nat) (e : ConcreteExpr) :
    (e.shift offset).yield = e.yield.map (·.shift offset) := by
  match e with
  | .literal value span => rfl
  | .name _ => rfl
  | .paren _ inner _ | .guarded _ _ _ inner _ =>
      simp [ConcreteExpr.shift, ConcreteExpr.yield, inner.yield_shift offset]
  | .member target _ _ | .emptyCall target _ _ =>
      simp [ConcreteExpr.shift, ConcreteExpr.yield, target.yield_shift offset]
  | .call target _ arguments _ | .index target _ arguments _ =>
      simp [ConcreteExpr.shift, ConcreteExpr.yield, target.yield_shift offset,
        arguments.yield_shift offset]
  | .unary _ _ operand | .cast _ _ _ operand | .asType operand _ _ =>
      simp [ConcreteExpr.shift, ConcreteExpr.yield, operand.yield_shift offset]
  | .binary _ left _ right =>
      simp [ConcreteExpr.shift, ConcreteExpr.yield, left.yield_shift offset,
        right.yield_shift offset]

@[simp] theorem ConcreteExprs.yield_shift (offset : Nat) (es : ConcreteExprs) :
    (es.shift offset).yield = es.yield.map (·.shift offset) := by
  match es with
  | .last e => simp [ConcreteExprs.shift, ConcreteExprs.yield, e.yield_shift offset]
  | .more e _ rest =>
      simp [ConcreteExprs.shift, ConcreteExprs.yield, e.yield_shift offset,
        rest.yield_shift offset]

end

-- It is read as what it was read as, moved.

@[simp] theorem ConcretePath.erase_shift (offset : Nat) (path : ConcretePath) :
    (path.shift offset).erase = path.erase.shift offset := by
  simp [erase, shift, DottedName.shift]

theorem TypeName.marked_shift (offset : Nat) (path : DottedName) (arguments : List TypeName)
    (span : Span) (question : Option Span) :
    marked (path.shift offset) (arguments.map (TypeName.shift offset)) (span.shift offset)
        (question.map (·.shift offset)) =
      (marked path arguments span question).shift offset := by
  cases question <;> simp [marked, shift, Span.hull_shift]

mutual

@[simp] theorem ConcreteType.erase_shift (offset : Nat) (type : ConcreteType) :
    (type.shift offset).erase = type.erase.shift offset := by
  match type with
  | .simple path question =>
      have hmarked := TypeName.marked_shift offset path.erase [] path.erase.span question
      simpa [ConcreteType.shift, ConcreteType.erase] using hmarked
  | .generic path _ arguments closed question =>
      have hmarked := TypeName.marked_shift offset path.erase arguments.erase
        (path.erase.span.hull closed) question
      simpa [ConcreteType.shift, ConcreteType.erase, arguments.erase_shift offset,
        Span.hull_shift] using hmarked

@[simp] theorem ConcreteTypes.erase_shift (offset : Nat) (types : ConcreteTypes) :
    (types.shift offset).erase = types.erase.map (TypeName.shift offset) := by
  match types with
  | .last type => simp [ConcreteTypes.shift, ConcreteTypes.erase, type.erase_shift offset]
  | .more type _ rest =>
      simp [ConcreteTypes.shift, ConcreteTypes.erase, type.erase_shift offset,
        rest.erase_shift offset]

end

mutual

@[simp] theorem ConcreteExpr.erase_shift (offset : Nat) (e : ConcreteExpr) :
    (e.shift offset).erase = e.erase.shift offset := by
  match e with
  | .literal _ _ | .name _ =>
      simp [ConcreteExpr.shift, ConcreteExpr.erase, Expr.shift, Ident.shift]
  | .paren _ inner _ | .guarded _ _ _ inner _ =>
      simp [ConcreteExpr.shift, ConcreteExpr.erase, Expr.shift, inner.erase_shift offset,
        Span.hull_shift]
  | .member target _ _ =>
      simp [ConcreteExpr.shift, ConcreteExpr.erase, Expr.shift, target.erase_shift offset,
        Span.hull_shift, Ident.shift]
  | .emptyCall target _ _ =>
      simp [ConcreteExpr.shift, ConcreteExpr.erase, Expr.shift, target.erase_shift offset,
        Span.hull_shift]
  | .call target _ arguments _ | .index target _ arguments _ =>
      simp [ConcreteExpr.shift, ConcreteExpr.erase, Expr.shift, target.erase_shift offset,
        arguments.erase_shift offset, Span.hull_shift]
  | .unary _ _ operand | .cast _ _ _ operand | .asType operand _ _ =>
      simp [ConcreteExpr.shift, ConcreteExpr.erase, Expr.shift, operand.erase_shift offset,
        Span.hull_shift]
  | .binary _ left _ right =>
      simp [ConcreteExpr.shift, ConcreteExpr.erase, Expr.shift, left.erase_shift offset,
        right.erase_shift offset, Span.hull_shift]

@[simp] theorem ConcreteExprs.erase_shift (offset : Nat) (es : ConcreteExprs) :
    (es.shift offset).erase = es.erase.map (Expr.shift offset) := by
  match es with
  | .last e => simp [ConcreteExprs.shift, ConcreteExprs.erase, e.erase_shift offset]
  | .more e _ rest =>
      simp [ConcreteExprs.shift, ConcreteExprs.erase, e.erase_shift offset,
        rest.erase_shift offset]

end

-- It is grouped and read as before, since neither asks for a place.

namespace ConcreteExpr

variable (offset : Nat) (e : ConcreteExpr)

@[simp] theorem isOperation_shift : (e.shift offset).isOperation = e.isOperation := by
  cases e <;> rfl

@[simp] theorem isAs_shift : (e.shift offset).isAs = e.isAs := by
  cases e <;> rfl

@[simp] theorem isPrefixed_shift : (e.shift offset).isPrefixed = e.isPrefixed := by
  cases e <;> rfl

@[simp] theorem bindsAtLeast_shift (least : Nat) :
    (e.shift offset).BindsAtLeast least ↔ e.BindsAtLeast least := by
  cases e <;> exact Iff.rfl

@[simp] theorem isDottedName_shift (e : ConcreteExpr) :
    (e.shift offset).isDottedName = e.isDottedName := by
  match e with
  | member target _ _ => exact target.isDottedName_shift
  | literal .. | name .. | paren .. | emptyCall .. | call .. | index .. | unary .. | binary ..
  | cast .. | asType .. | guarded .. => rfl

@[simp] theorem readAt_shift (e : ConcreteExpr) (least : Nat) :
    (e.shift offset).ReadAt least ↔ e.ReadAt least := by
  match e with
  | binary _ left _ _ => exact and_congr_right' (left.readAt_shift least)
  | asType operand _ _ => exact and_congr_right' (operand.readAt_shift least)
  | literal .. | name .. | paren .. | member .. | emptyCall .. | call .. | index .. | unary ..
  | cast .. | guarded .. => exact Iff.rfl

end ConcreteExpr

@[simp] theorem ConcreteType.endsBefore_shift (offset : Nat) (type : ConcreteType)
    {next : TokenKind} :
    (type.shift offset).EndsBefore next ↔ type.EndsBefore next := by
  cases type with
  | simple _ question => cases question <;> exact Iff.rfl
  | generic _ _ _ _ question => cases question <;> exact Iff.rfl

mutual

@[simp] theorem ConcreteExpr.grouped_shift (offset : Nat) (e : ConcreteExpr) :
    (e.shift offset).Grouped ↔ e.Grouped := by
  match e with
  | .literal .. | .name _ => exact Iff.rfl
  | .paren _ inner _ | .guarded _ _ _ inner _ => exact inner.grouped_shift offset
  | .member target _ _ | .emptyCall target _ _ =>
      simp [ConcreteExpr.shift, ConcreteExpr.Grouped, target.grouped_shift offset]
  | .call target _ arguments _ | .index target _ arguments _ =>
      simp [ConcreteExpr.shift, ConcreteExpr.Grouped, target.grouped_shift offset,
        arguments.grouped_shift offset]
  | .unary _ _ operand | .cast _ _ _ operand | .asType operand _ _ =>
      simp [ConcreteExpr.shift, ConcreteExpr.Grouped, operand.grouped_shift offset]
  | .binary _ left _ right =>
      simp [ConcreteExpr.shift, ConcreteExpr.Grouped, left.grouped_shift offset,
        right.grouped_shift offset]

@[simp] theorem ConcreteExprs.grouped_shift (offset : Nat) (es : ConcreteExprs) :
    (es.shift offset).Grouped ↔ es.Grouped := by
  match es with
  | .last e => exact e.grouped_shift offset
  | .more e _ rest => exact and_congr (e.grouped_shift offset) (rest.grouped_shift offset)

end

theorem Parser.peek_shift (tokens : List Token) (offset : Nat) :
    (peek (tokens.map (·.shift offset))).kind = (peek tokens).kind := by
  cases tokens <;> rfl

mutual

@[simp] theorem ConcreteExpr.readable_shift (offset : Nat) (e : ConcreteExpr)
    {next : TokenKind} :
    (e.shift offset).Readable next ↔ e.Readable next := by
  match e with
  | .literal .. | .name _ => exact Iff.rfl
  | .paren _ inner _ =>
      simp [ConcreteExpr.shift, ConcreteExpr.Readable, inner.readable_shift offset]
  | .guarded _ _ _ inner _ => exact inner.readable_shift offset
  | .member target _ _ | .emptyCall target _ _ => exact target.readable_shift offset
  | .call target _ arguments _ | .index target _ arguments _ =>
      exact and_congr (target.readable_shift offset) (arguments.readable_shift offset)
  | .unary _ _ operand => exact operand.readable_shift offset
  | .cast _ _ _ operand =>
      simp [ConcreteExpr.shift, ConcreteExpr.Readable, operand.readable_shift offset,
        Parser.peek_shift]
  | .asType operand _ _ =>
      simp [ConcreteExpr.shift, ConcreteExpr.Readable, operand.readable_shift offset]
  | .binary _ left _ right =>
      simp [ConcreteExpr.shift, ConcreteExpr.Readable, left.readable_shift offset,
        right.readable_shift offset]

@[simp] theorem ConcreteExprs.readable_shift (offset : Nat) (es : ConcreteExprs)
    {next : TokenKind} :
    (es.shift offset).Readable next ↔ es.Readable next := by
  match es with
  | .last e => exact e.readable_shift offset
  | .more e _ rest => exact and_congr (e.readable_shift offset) (rest.readable_shift offset)

end

-- Tokens that have been moved are read as what they are read as, moved.
theorem Parser.wholeExpression_shift {tokens : List Token} {e : Expr}
    (h : wholeExpression tokens = .ok e) (offset : Nat) :
    wholeExpression (tokens.map (·.shift offset)) = .ok (e.shift offset) := by
  obtain ⟨tree, stop, left, rfl, rfl, hg, hr⟩ := wholeExpression_reads h
  have hwhole := wholeExpression_complete ((tree.grouped_shift offset).mpr hg)
    ((tree.readable_shift offset).mpr hr) (stop.shift offset) (left.map (·.shift offset))
  rw [tree.erase_shift] at hwhole
  rw [← hwhole, List.map_append, tree.yield_shift]
  rfl

end EventScript
