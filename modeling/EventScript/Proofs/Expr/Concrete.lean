import EventScript.Proofs.Expr.Reading

namespace EventScript

def Ident.token (ident : Ident) : Token := ⟨.ident ident.name, ident.span⟩

def Symbol.token (sign : Symbol) (span : Span) : Token := ⟨.symbol sign, span⟩

def Keyword.token (word : Keyword) (span : Span) : Token := ⟨.keyword word, span⟩

namespace Literal

def kind : Literal → TokenKind
  | int value suffix => .int value suffix
  | real value suffix => .real value suffix
  | str text => .str text
  | bool true => .keyword .trueWord
  | bool false => .keyword .falseWord
  | null => .keyword .nullWord

@[simp] theorem literal?_kind (value : Literal) : Parser.literal? value.kind = some value := by
  cases value with
  | bool value => cases value <;> rfl
  | _ => rfl

theorem kind_of_literal? {kind : TokenKind} {value : Literal}
    (h : Parser.literal? kind = some value) : kind = value.kind := by
  unfold Parser.literal? at h
  split at h <;> cases h <;> rfl

end Literal

namespace BinaryOperator

def sign : BinaryOperator → Symbol
  | add => .plus
  | subtract => .minus
  | multiply => .star
  | divide => .slash
  | modulo => .percent
  | equal => .eqEq
  | notEqual => .notEq
  | lessThan => .lt
  | lessThanOrEqual => .ltEq
  | greaterThan => .gt
  | greaterThanOrEqual => .gtEq
  | andAlso => .andAnd
  | orElse => .orOr

@[simp] theorem binaryOperator?_sign (op : BinaryOperator) :
    Parser.binaryOperator? (.symbol op.sign) = some op := by
  cases op <;> rfl

theorem kind_of_binaryOperator? {kind : TokenKind} {op : BinaryOperator}
    (h : Parser.binaryOperator? kind = some op) : kind = .symbol op.sign := by
  unfold Parser.binaryOperator? at h
  split at h <;> cases h <;> rfl

end BinaryOperator

namespace UnaryOperator

def sign : UnaryOperator → Symbol
  | negate => .minus
  | plus => .plus
  | not => .bang

@[simp] theorem unaryOperator?_sign (op : UnaryOperator) :
    Parser.unaryOperator? (.symbol op.sign) = some op := by
  cases op <;> rfl

theorem kind_of_unaryOperator? {kind : TokenKind} {op : UnaryOperator}
    (h : Parser.unaryOperator? kind = some op) : kind = .symbol op.sign := by
  unfold Parser.unaryOperator? at h
  split at h <;> cases h <;> rfl

end UnaryOperator

-- A dotted name with the place of each point.
structure ConcretePath where
  first : Ident
  rest : List (Span × Ident)

namespace ConcretePath

def erase (path : ConcretePath) : DottedName := ⟨path.first, path.rest.map (·.2)⟩

def yieldRest (rest : List (Span × Ident)) : List Token :=
  rest.flatMap fun (dot, name) => [Symbol.dot.token dot, name.token]

def yield (path : ConcretePath) : List Token := path.first.token :: yieldRest path.rest

end ConcretePath

mutual

-- A type as it is written, with the place of every sign.
inductive ConcreteType where
  | simple (path : ConcretePath) (question : Option Span)
  | generic (path : ConcretePath) (opened : Span) (arguments : ConcreteTypes) (closed : Span)
      (question : Option Span)

inductive ConcreteTypes where
  | last (type : ConcreteType)
  | more (type : ConcreteType) (comma : Span) (rest : ConcreteTypes)

end

-- A type with the question mark behind it, if there is one.
def TypeName.marked (path : DottedName) (arguments : List TypeName) (span : Span)
    (question : Option Span) : TypeName :=
  .mk path arguments question.isSome (question.elim span span.hull)

def questionYield (question : Option Span) : List Token :=
  question.toList.map Symbol.question.token

mutual

def ConcreteType.erase : ConcreteType → TypeName
  | .simple path question => .marked path.erase [] path.erase.span question
  | .generic path _ arguments closed question =>
    .marked path.erase arguments.erase (path.erase.span.hull closed) question

def ConcreteTypes.erase : ConcreteTypes → List TypeName
  | .last type => [type.erase]
  | .more type _ rest => type.erase :: rest.erase

end

mutual

-- The tokens of a type, from left to right.
def ConcreteType.yield : ConcreteType → List Token
  | .simple path question => path.yield ++ questionYield question
  | .generic path opened arguments closed question =>
    path.yield ++ Symbol.lt.token opened :: arguments.yield ++
      Symbol.gt.token closed :: questionYield question

def ConcreteTypes.yield : ConcreteTypes → List Token
  | .last type => type.yield
  | .more type comma rest => type.yield ++ Symbol.comma.token comma :: rest.yield

end

mutual

-- An expression as it is written: with its parentheses, and with the place of every sign.
inductive ConcreteExpr where
  | literal (value : Literal) (span : Span)
  | name (ident : Ident)
  | paren (opened : Span) (inner : ConcreteExpr) (closed : Span)
  | member (target : ConcreteExpr) (dot : Span) (name : Ident)
  | emptyCall (callee : ConcreteExpr) (opened closed : Span)
  | call (callee : ConcreteExpr) (opened : Span) (arguments : ConcreteExprs) (closed : Span)
  | index (target : ConcreteExpr) (opened : Span) (arguments : ConcreteExprs) (closed : Span)
  | unary (op : UnaryOperator) (sign : Span) (operand : ConcreteExpr)
  | binary (op : BinaryOperator) (left : ConcreteExpr) (sign : Span) (right : ConcreteExpr)
  | cast (opened : Span) (type : ConcreteType) (closed : Span) (operand : ConcreteExpr)
  | asType (operand : ConcreteExpr) (word : Span) (type : ConcreteType)
  | guarded (checked : Bool) (word opened : Span) (inner : ConcreteExpr) (closed : Span)

inductive ConcreteExprs where
  | last (e : ConcreteExpr)
  | more (e : ConcreteExpr) (comma : Span) (rest : ConcreteExprs)

end

-- The word in front of an arithmetic scope.
def scopeWord (checked : Bool) : Keyword := if checked then .checkedWord else .uncheckedWord

mutual

-- The expression without its parentheses; the span of what they enclose grows by them.
def ConcreteExpr.erase : ConcreteExpr → Expr
  | .literal value span => .literal value span
  | .name ident => .name ident ident.span
  | .paren opened inner closed => inner.erase.withSpan (opened.hull closed)
  | .member target _ name => .member target.erase name (target.erase.span.hull name.span)
  | .emptyCall callee _ closed => .call callee.erase [] (callee.erase.span.hull closed)
  | .call callee _ arguments closed =>
    .call callee.erase arguments.erase (callee.erase.span.hull closed)
  | .index target _ arguments closed =>
    .index target.erase arguments.erase (target.erase.span.hull closed)
  | .unary op sign operand => .unary op operand.erase (sign.hull operand.erase.span)
  | .binary op left _ right =>
    .binary op left.erase right.erase (left.erase.span.hull right.erase.span)
  | .cast opened type closed operand =>
    .cast type.erase operand.erase ((opened.hull closed).hull operand.erase.span)
  | .asType operand _ type =>
    .asType operand.erase type.erase (operand.erase.span.hull type.erase.span)
  | .guarded checked word _ inner closed => .guarded checked inner.erase (word.hull closed)

def ConcreteExprs.erase : ConcreteExprs → List Expr
  | .last e => [e.erase]
  | .more e _ rest => e.erase :: rest.erase

end

mutual

-- The tokens of an expression, from left to right.
def ConcreteExpr.yield : ConcreteExpr → List Token
  | .literal value span => [⟨value.kind, span⟩]
  | .name ident => [ident.token]
  | .paren opened inner closed =>
    Symbol.lparen.token opened :: inner.yield ++ [Symbol.rparen.token closed]
  | .member target dot name => target.yield ++ [Symbol.dot.token dot, name.token]
  | .emptyCall callee opened closed =>
    callee.yield ++ [Symbol.lparen.token opened, Symbol.rparen.token closed]
  | .call callee opened arguments closed =>
    callee.yield ++ Symbol.lparen.token opened :: arguments.yield ++ [Symbol.rparen.token closed]
  | .index target opened arguments closed =>
    target.yield ++ Symbol.lbracket.token opened :: arguments.yield ++
      [Symbol.rbracket.token closed]
  | .unary op sign operand => op.sign.token sign :: operand.yield
  | .binary op left sign right => left.yield ++ op.sign.token sign :: right.yield
  | .cast opened type closed operand =>
    Symbol.lparen.token opened :: type.yield ++ Symbol.rparen.token closed :: operand.yield
  | .asType operand word type => operand.yield ++ Keyword.asWord.token word :: type.yield
  | .guarded checked word opened inner closed =>
    (scopeWord checked).token word :: Symbol.lparen.token opened :: inner.yield ++
      [Symbol.rparen.token closed]

def ConcreteExprs.yield : ConcreteExprs → List Token
  | .last e => e.yield
  | .more e comma rest => e.yield ++ Symbol.comma.token comma :: rest.yield

end

-- No token marks the end of the input.
def EndFree (tokens : List Token) : Prop := ∀ token ∈ tokens, token.kind ≠ .eof

@[simp] theorem endFree_nil : EndFree [] := by simp [EndFree]

@[simp] theorem endFree_cons {token : Token} {tokens : List Token} :
    EndFree (token :: tokens) ↔ token.kind ≠ .eof ∧ EndFree tokens :=
  List.forall_mem_cons

@[simp] theorem endFree_append {tokens others : List Token} :
    EndFree (tokens ++ others) ↔ EndFree tokens ∧ EndFree others :=
  List.forall_mem_append

theorem Literal.kind_ne_eof (value : Literal) : value.kind ≠ .eof := by
  cases value with
  | bool value => cases value <;> exact nofun
  | _ => exact nofun

theorem ConcretePath.endFree_yield (path : ConcretePath) : EndFree path.yield := by
  obtain ⟨first, rest⟩ := path
  simp only [yield, yieldRest, endFree_cons]
  refine ⟨nofun, fun token ht => ?_⟩
  simp only [List.mem_flatMap, List.mem_cons, List.not_mem_nil, or_false] at ht
  obtain ⟨_, _, rfl | rfl⟩ := ht <;> exact nofun

theorem endFree_questionYield (question : Option Span) : EndFree (questionYield question) := by
  cases question <;> simp [questionYield, Symbol.token]

mutual

theorem ConcreteType.endFree_yield (type : ConcreteType) : EndFree type.yield := by
  match type with
  | .simple path question =>
      simp [ConcreteType.yield, path.endFree_yield, endFree_questionYield]
  | .generic path _ arguments _ question =>
      simp [ConcreteType.yield, Symbol.token, path.endFree_yield, arguments.endFree_yield,
        endFree_questionYield]

theorem ConcreteTypes.endFree_yield (types : ConcreteTypes) : EndFree types.yield := by
  match types with
  | .last type => exact type.endFree_yield
  | .more type _ rest =>
      simp [ConcreteTypes.yield, Symbol.token, type.endFree_yield, rest.endFree_yield]

end

mutual

theorem ConcreteExpr.endFree_yield (e : ConcreteExpr) : EndFree e.yield := by
  match e with
  | .literal value _ => simp [ConcreteExpr.yield, value.kind_ne_eof]
  | .name _ => simp [ConcreteExpr.yield, Ident.token]
  | .paren _ inner _ => simp [ConcreteExpr.yield, Symbol.token, inner.endFree_yield]
  | .member target _ _ => simp [ConcreteExpr.yield, Symbol.token, Ident.token, target.endFree_yield]
  | .emptyCall callee _ _ => simp [ConcreteExpr.yield, Symbol.token, callee.endFree_yield]
  | .call target _ arguments _ | .index target _ arguments _ =>
      simp [ConcreteExpr.yield, Symbol.token, target.endFree_yield, arguments.endFree_yield]
  | .unary _ _ operand => simp [ConcreteExpr.yield, Symbol.token, operand.endFree_yield]
  | .binary _ left _ right =>
      simp [ConcreteExpr.yield, Symbol.token, left.endFree_yield, right.endFree_yield]
  | .cast _ type _ operand =>
      simp [ConcreteExpr.yield, Symbol.token, type.endFree_yield, operand.endFree_yield]
  | .asType operand _ type =>
      simp [ConcreteExpr.yield, Keyword.token, type.endFree_yield, operand.endFree_yield]
  | .guarded _ _ _ inner _ =>
      simp [ConcreteExpr.yield, Symbol.token, Keyword.token, inner.endFree_yield]

theorem ConcreteExprs.endFree_yield (es : ConcreteExprs) : EndFree es.yield := by
  match es with
  | .last e => exact e.endFree_yield
  | .more e _ rest => simp [ConcreteExprs.yield, Symbol.token, e.endFree_yield, rest.endFree_yield]

end

namespace ConcreteExpr

-- Whether the expression is an operation between operands that no parentheses enclose.
def isOperation : ConcreteExpr → Bool
  | binary .. | asType .. => true
  | _ => false

def isAs : ConcreteExpr → Bool
  | asType .. => true
  | _ => false

-- Whether the expression starts with an operator or a cast that applies to all that follows.
def isPrefixed : ConcreteExpr → Bool
  | unary .. | cast .. => true
  | _ => false

-- A binary operation has at least this precedence. Everything else has.
def BindsAtLeast (least : Nat) : ConcreteExpr → Prop
  | binary op .. => least ≤ op.precedence
  | _ => True

end ConcreteExpr

mutual

-- Operations are grouped by precedence and to the left, wherever parentheses do not group them.
def ConcreteExpr.Grouped : ConcreteExpr → Prop
  | .literal _ _ | .name _ => True
  | .paren _ inner _ | .guarded _ _ _ inner _ => inner.Grouped
  | .member target _ _ | .emptyCall target _ _ =>
    target.Grouped ∧ target.isOperation = false ∧ target.isPrefixed = false
  | .call target _ arguments _ | .index target _ arguments _ =>
    target.Grouped ∧ target.isOperation = false ∧ target.isPrefixed = false ∧ arguments.Grouped
  | .unary _ _ operand | .cast _ _ _ operand => operand.Grouped ∧ operand.isOperation = false
  | .binary op left _ right =>
    left.Grouped ∧ right.Grouped ∧ left.BindsAtLeast op.precedence ∧
      right.BindsAtLeast (op.precedence + 1) ∧
      (Parser.asPrecedence ≤ op.precedence → right.isAs = false)
  | .asType operand _ _ => operand.Grouped ∧ operand.BindsAtLeast Parser.asPrecedence

def ConcreteExprs.Grouped : ConcreteExprs → Prop
  | .last e => e.Grouped
  | .more e _ rest => e.Grouped ∧ rest.Grouped

end

end EventScript
