import EventScript.Proofs.Expr.Concrete

namespace EventScript

-- What the parser would take for a part of the type does not follow it.
def ConcreteType.EndsBefore (next : TokenKind) : ConcreteType → Prop
  | .simple _ none =>
    next ≠ .symbol .dot ∧ next ≠ .symbol .lt ∧ next ≠ .symbol .question
  | .generic _ _ _ _ none => next ≠ .symbol .question
  | _ => True

theorem ConcreteType.endsBefore {next : TokenKind} (type : ConcreteType)
    (hdot : next ≠ .symbol .dot) (hopen : next ≠ .symbol .lt)
    (hquestion : next ≠ .symbol .question) : type.EndsBefore next := by
  cases type with
  | simple _ question =>
      cases question with
      | none => exact ⟨hdot, hopen, hquestion⟩
      | some _ => trivial
  | generic _ _ _ _ question =>
      cases question with
      | none => exact hquestion
      | some _ => trivial

namespace ConcreteExpr

def isDottedName : ConcreteExpr → Bool
  | name _ => true
  | member target _ _ => target.isDottedName
  | _ => false

theorem exists_path (e : ConcreteExpr) (h : e.isDottedName = true) :
    ∃ path : ConcretePath, e.yield = path.yield := by
  match e with
  | name ident => exact ⟨⟨ident, []⟩, rfl⟩
  | member target dot ident =>
      obtain ⟨⟨first, rest⟩, htarget⟩ := target.exists_path h
      refine ⟨⟨first, rest ++ [(dot, ident)]⟩, ?_⟩
      simp [yield, htarget, ConcretePath.yield, ConcretePath.yieldRest]
  | literal .. | paren .. | emptyCall .. | call .. | index .. | unary .. | binary .. | cast ..
  | asType .. | guarded .. => cases h

-- Every operation on the way to the first operand is one that is taken at this level.
def ReadAt (least : Nat) : ConcreteExpr → Prop
  | binary op left _ _ => least ≤ op.precedence ∧ left.ReadAt least
  | asType operand _ _ => least ≤ Parser.asPrecedence ∧ operand.ReadAt least
  | _ => True

theorem readAt_one (e : ConcreteExpr) : e.ReadAt 1 := by
  match e with
  | binary op left _ _ => exact ⟨by cases op <;> decide, left.readAt_one⟩
  | asType operand _ _ => exact ⟨by decide, operand.readAt_one⟩
  | literal .. | name .. | paren .. | member .. | emptyCall .. | call .. | index .. | unary ..
  | cast .. | guarded .. => trivial

theorem ReadAt.bindsAtLeast {e : ConcreteExpr} {least : Nat} (h : e.ReadAt least) :
    e.BindsAtLeast least := by
  cases e with
  | binary => exact h.1
  | _ => trivial

theorem ReadAt.le_of_isAs {e : ConcreteExpr} {least : Nat} (h : e.ReadAt least)
    (has : e.isAs = true) : least ≤ Parser.asPrecedence := by
  cases e with
  | asType => exact h.1
  | _ => cases has

theorem readAt_of_isOperation {e : ConcreteExpr} (least : Nat) (h : e.isOperation = false) :
    e.ReadAt least := by
  cases e with
  | binary | asType => cases h
  | _ => trivial

end ConcreteExpr

mutual

-- In front of such a token the parser takes no part of the expression for anything else: a dotted
-- name in parentheses is no cast, and a type ends where it ends.
def ConcreteExpr.Readable (next : TokenKind) : ConcreteExpr → Prop
  | .literal _ _ | .name _ => True
  | .paren _ inner _ =>
    inner.Readable (.symbol .rparen) ∧
      (inner.isDottedName = true → Parser.startsCastOperand next = false)
  | .member target _ _ => target.Readable (.symbol .dot)
  | .emptyCall callee _ _ => callee.Readable (.symbol .lparen)
  | .call callee _ arguments _ =>
    callee.Readable (.symbol .lparen) ∧ arguments.Readable (.symbol .rparen)
  | .index target _ arguments _ =>
    target.Readable (.symbol .lbracket) ∧ arguments.Readable (.symbol .rbracket)
  | .unary _ _ operand => operand.Readable next
  | .binary op left _ right =>
    left.Readable (.symbol op.sign) ∧ right.Readable next ∧ right.ReadAt (op.precedence + 1)
  | .cast _ _ _ operand =>
    operand.Readable next ∧ Parser.startsCastOperand (Parser.peek operand.yield).kind = true
  | .asType operand _ type => operand.Readable (.keyword .asWord) ∧ type.EndsBefore next
  | .guarded _ _ _ inner _ => inner.Readable (.symbol .rparen)

def ConcreteExprs.Readable (close : TokenKind) : ConcreteExprs → Prop
  | .last e => e.Readable close
  | .more e _ rest => e.Readable (.symbol .comma) ∧ rest.Readable close

end

-- The tokens that expressions start with: signs, and what a cast can stand in front of.
def opensExpression : TokenKind → Bool
  | .symbol .minus | .symbol .plus => true
  | kind => Parser.startsCastOperand kind

namespace ConcreteExpr

theorem yield_eq_cons (e : ConcreteExpr) :
    ∃ token rest, e.yield = token :: rest ∧ opensExpression token.kind = true := by
  match e with
  | literal value _ =>
      cases value with
      | bool value => cases value <;> exact ⟨_, _, rfl, rfl⟩
      | _ => exact ⟨_, _, rfl, rfl⟩
  | name _ | paren .. | cast .. => exact ⟨_, _, rfl, rfl⟩
  | unary op _ _ => cases op <;> exact ⟨_, _, rfl, rfl⟩
  | guarded checked _ _ _ _ => cases checked <;> exact ⟨_, _, rfl, rfl⟩
  | member target _ _ | emptyCall target _ _ | asType target _ _ | binary _ target _ _ =>
      obtain ⟨token, rest, hyield, hkind⟩ := target.yield_eq_cons
      exact ⟨token, _, by rw [yield, hyield, List.cons_append], hkind⟩
  | call target _ _ _ | index target _ _ _ =>
      obtain ⟨token, rest, hyield, hkind⟩ := target.yield_eq_cons
      exact ⟨token, _, by rw [yield, hyield, List.cons_append, List.cons_append], hkind⟩

theorem peek_yield_append (e : ConcreteExpr) (rest : List Token) :
    Parser.peek (e.yield ++ rest) = Parser.peek e.yield := by
  obtain ⟨token, left, hyield, -⟩ := e.yield_eq_cons
  rw [hyield]
  rfl

theorem peek_yield_ne (e : ConcreteExpr) {kind : TokenKind} (h : opensExpression kind = false) :
    (Parser.peek e.yield).kind ≠ kind := by
  obtain ⟨token, left, hyield, hkind⟩ := e.yield_eq_cons
  rintro rfl
  rw [hyield] at h
  rw [Parser.peek, hkind] at h
  cases h

end ConcreteExpr

-- The tokens that types consist of.
def isTypeToken : TokenKind → Bool
  | .ident _ => true
  | .symbol .dot | .symbol .comma | .symbol .question | .symbol .lt | .symbol .gt => true
  | _ => false

-- The tokens that dotted names consist of.
def isPathToken : TokenKind → Bool
  | .ident _ | .symbol .dot => true
  | _ => false

def ConsistsOf (p : TokenKind → Bool) (tokens : List Token) : Prop :=
  ∀ token ∈ tokens, p token.kind = true

section

variable {p : TokenKind → Bool}

@[simp] theorem consistsOf_nil : ConsistsOf p [] := by simp [ConsistsOf]

@[simp] theorem consistsOf_cons {token : Token} {tokens : List Token} :
    ConsistsOf p (token :: tokens) ↔ p token.kind = true ∧ ConsistsOf p tokens :=
  List.forall_mem_cons

@[simp] theorem consistsOf_append {tokens others : List Token} :
    ConsistsOf p (tokens ++ others) ↔ ConsistsOf p tokens ∧ ConsistsOf p others :=
  List.forall_mem_append

end

theorem ConcretePath.consistsOf_yield (path : ConcretePath) :
    ConsistsOf isPathToken path.yield := by
  intro token ht
  simp only [yield, yieldRest, List.mem_cons, List.mem_flatMap, List.not_mem_nil, or_false] at ht
  obtain rfl | ⟨_, _, rfl | rfl⟩ := ht <;> rfl

theorem isTypeToken_of_isPathToken {kind : TokenKind} (h : isPathToken kind = true) :
    isTypeToken kind = true := by
  unfold isPathToken at h
  split at h <;> first | rfl | cases h

theorem ConcretePath.typeTokens_yield (path : ConcretePath) : ConsistsOf isTypeToken path.yield :=
  fun token ht => isTypeToken_of_isPathToken (path.consistsOf_yield token ht)

theorem consistsOf_questionYield (question : Option Span) :
    ConsistsOf isTypeToken (questionYield question) := by
  cases question <;> simp [questionYield, Symbol.token, isTypeToken]

mutual

theorem ConcreteType.consistsOf_yield (type : ConcreteType) :
    ConsistsOf isTypeToken type.yield := by
  match type with
  | .simple path question =>
      simp [ConcreteType.yield, path.typeTokens_yield, consistsOf_questionYield]
  | .generic path _ arguments _ question =>
      simp [ConcreteType.yield, Symbol.token, isTypeToken, path.typeTokens_yield,
        arguments.consistsOf_yield, consistsOf_questionYield]

theorem ConcreteTypes.consistsOf_yield (types : ConcreteTypes) :
    ConsistsOf isTypeToken types.yield := by
  match types with
  | .last type => exact type.consistsOf_yield
  | .more type _ rest =>
      simp [ConcreteTypes.yield, Symbol.token, isTypeToken, type.consistsOf_yield,
        rest.consistsOf_yield]

end

-- The first token that no type contains.
def firstOther (tokens : List Token) : TokenKind :=
  (Parser.peek (tokens.dropWhile fun token => isTypeToken token.kind)).kind

theorem dropWhile_of_consistsOf {tokens : List Token} (h : ConsistsOf isTypeToken tokens)
    (rest : List Token) :
    (tokens ++ rest).dropWhile (fun token => isTypeToken token.kind) =
      rest.dropWhile fun token => isTypeToken token.kind :=
  List.dropWhile_append_of_pos h

theorem firstOther_append {tokens : List Token} (h : ¬ ConsistsOf isTypeToken tokens)
    (rest : List Token) : firstOther (tokens ++ rest) = firstOther tokens := by
  induction tokens with
  | nil => exact absurd consistsOf_nil h
  | cons token tokens ih =>
      by_cases htoken : isTypeToken token.kind = true
      · have htail : ¬ ConsistsOf isTypeToken tokens :=
          fun hall => h (consistsOf_cons.mpr ⟨htoken, hall⟩)
        simpa only [firstOther, List.cons_append, List.dropWhile_cons, htoken, ↓reduceIte] using
          ih htail
      · simp only [firstOther, List.cons_append, List.dropWhile_cons, htoken, Bool.false_eq_true,
          ↓reduceIte, Parser.peek]

theorem firstOther_append_ne {kind : TokenKind} {tokens others : List Token}
    (h : firstOther tokens ≠ kind) (hothers : firstOther others ≠ kind) :
    firstOther (tokens ++ others) ≠ kind := by
  by_cases hall : ConsistsOf isTypeToken tokens
  · rwa [firstOther, dropWhile_of_consistsOf hall]
  · rwa [firstOther_append hall]

namespace ConcreteExpr

-- No expression starts with something that a closing parenthesis makes a type.
theorem firstOther_yield (e : ConcreteExpr) : firstOther e.yield ≠ .symbol .rparen := by
  match e with
  | literal value _ =>
      cases value with
      | bool value => cases value <;> exact nofun
      | _ => exact nofun
  | name _ => exact nofun
  | paren .. | cast .. => exact nofun
  | unary op _ _ => cases op <;> exact nofun
  | guarded checked _ _ _ _ => cases checked <;> exact nofun
  | member target _ _ => exact firstOther_append_ne target.firstOther_yield nofun
  | emptyCall callee _ _ => exact firstOther_append_ne callee.firstOther_yield nofun
  | call target _ arguments _ | index target _ arguments _ =>
      simp only [yield, List.append_assoc]
      exact firstOther_append_ne target.firstOther_yield nofun
  | binary op left sign right =>
      have hsign : firstOther [op.sign.token sign] ≠ .symbol .rparen := by
        cases op <;> exact nofun
      exact firstOther_append_ne left.firstOther_yield
        (firstOther_append_ne hsign right.firstOther_yield)
  | asType operand _ _ => exact firstOther_append_ne operand.firstOther_yield nofun

theorem ends_with_ident (e : ConcreteExpr) (h : ConsistsOf isTypeToken e.yield) :
    ∃ front last, e.yield = front ++ [Ident.token last] := by
  match e with
  | name ident => exact ⟨[], ident, rfl⟩
  | member target dot ident =>
      exact ⟨target.yield ++ [Symbol.dot.token dot], ident, by simp [yield]⟩
  | binary op left sign right =>
      simp only [yield, consistsOf_append, consistsOf_cons] at h
      obtain ⟨front, last, hright⟩ := right.ends_with_ident h.2.2
      exact ⟨left.yield ++ op.sign.token sign :: front, last, by simp [yield, hright]⟩
  | literal value _ =>
      cases value with
      | bool value => cases value <;> simp [yield, Literal.kind, isTypeToken] at h
      | _ => simp [yield, Literal.kind, isTypeToken] at h
  | paren .. | emptyCall .. | call .. | index .. | cast .. =>
      simp [yield, Symbol.token, isTypeToken] at h
  | asType .. | guarded .. => simp [yield, Keyword.token, isTypeToken] at h
  | unary op _ _ => cases op <;> simp [yield, Symbol.token, UnaryOperator.sign, isTypeToken] at h

theorem isDottedName_of_yield (e : ConcreteExpr)
    (h : ConsistsOf isPathToken e.yield) : e.isDottedName = true := by
  match e with
  | name _ => rfl
  | member target _ _ =>
      exact target.isDottedName_of_yield (consistsOf_append.mp h).1
  | binary op _ _ _ =>
      cases op <;> simp [yield, Symbol.token, BinaryOperator.sign, isPathToken] at h
  | literal value _ =>
      cases value with
      | bool value => cases value <;> simp [yield, Literal.kind, isPathToken] at h
      | _ => simp [yield, Literal.kind, isPathToken] at h
  | paren .. | emptyCall .. | call .. | index .. | cast .. =>
      simp [yield, Symbol.token, isPathToken] at h
  | asType .. | guarded .. => simp [yield, Keyword.token, isPathToken] at h
  | unary op _ _ => cases op <;> simp [yield, Symbol.token, UnaryOperator.sign, isPathToken] at h

-- An expression that could be read as a type is a dotted name.
theorem isDottedName_of_yield_eq {e : ConcreteExpr} {type : ConcreteType}
    (h : e.yield = type.yield) : e.isDottedName = true := by
  obtain ⟨front, last, hlast⟩ := e.ends_with_ident (h ▸ type.consistsOf_yield)
  have hend : type.yield.getLast? = some last.token := by rw [← h, hlast]; simp
  cases type with
  | simple path question =>
      cases question with
      | none =>
          have hpath : e.yield = path.yield := by simpa [ConcreteType.yield, questionYield] using h
          exact e.isDottedName_of_yield (hpath ▸ path.consistsOf_yield)
      | some question =>
          simp [ConcreteType.yield, questionYield, Symbol.token, Ident.token] at hend
  | generic path opened arguments closed question =>
      cases question <;>
        simp [ConcreteType.yield, questionYield, Symbol.token, Ident.token, List.getLast?_append,
          List.getLast?_cons] at hend

end ConcreteExpr

-- In front of two closing parentheses, one behind an expression and one behind a type, both have
-- been read to the same place, or the expression holds what no type does.
theorem yield_eq_of_closed {e : ConcreteExpr} {type : ConcreteType} {closed place : Span}
    {rest left : List Token}
    (h : e.yield ++ Symbol.rparen.token closed :: rest =
      type.yield ++ Symbol.rparen.token place :: left) :
    e.yield = type.yield ∧ rest = left := by
  have hdrop := congrArg (List.dropWhile fun token => isTypeToken token.kind) h
  rw [dropWhile_of_consistsOf type.consistsOf_yield] at hdrop
  by_cases hall : ConsistsOf isTypeToken e.yield
  · rw [dropWhile_of_consistsOf hall] at hdrop
    have htail : Symbol.rparen.token closed :: rest = Symbol.rparen.token place :: left := hdrop
    rw [htail] at h
    exact ⟨List.append_cancel_right h, (List.cons.inj htail).2⟩
  · have hfirst := congrArg (fun tokens => (Parser.peek tokens).kind) hdrop
    have hexpr : firstOther e.yield = .symbol .rparen := by
      rw [← firstOther_append hall]
      exact hfirst
    exact absurd hexpr e.firstOther_yield

end EventScript
