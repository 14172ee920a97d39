import EventScript.Proofs.Expr.Soundness

namespace EventScript.Parser

variable {rest : List Token}

theorem cast?_stay {tokens : List Token} (h : (peek tokens).kind ≠ .symbol .lparen) :
    cast? tokens = none := by
  rw [cast?_eq]
  split
  · exact absurd rfl h
  · rfl

-- The cast that is tried at an opening parenthesis is given up, unless a dotted name stands in the
-- parentheses and an operand behind them.
theorem cast?_paren {inner : ConcreteExpr} {opened closed : Span}
    (h : inner.isDottedName = true → startsCastOperand (peek rest).kind = false) :
    cast? (Symbol.lparen.token opened :: (inner.yield ++ Symbol.rparen.token closed :: rest)) =
      none := by
  rw [Option.eq_none_iff_forall_ne_some]
  rintro ⟨type, span, left⟩ hc
  obtain ⟨_, form, place, -, -, hyield, hstarts⟩ := cast?_sound hc
  have hclosed := yield_eq_of_closed (List.cons.inj hyield).2
  obtain ⟨hsame, rfl⟩ := hclosed
  have hdotted := ConcreteExpr.isDottedName_of_yield_eq hsame
  rw [h hdotted] at hstarts
  cases hstarts

-- A chain starts with neither an operator nor a cast.
theorem opens_chain (e : ConcreteExpr) (hg : e.Grouped) (hop : e.isOperation = false)
    (hpre : e.isPrefixed = false) (rest : List Token) (h : e.Readable (peek rest).kind) :
    unaryOperator? (peek (e.yield ++ rest)).kind = none ∧ cast? (e.yield ++ rest) = none := by
  match e with
  | .literal value _ =>
      cases value with
      | bool value => cases value <;> exact ⟨rfl, cast?_stay nofun⟩
      | _ => exact ⟨rfl, cast?_stay nofun⟩
  | .name _ => exact ⟨rfl, cast?_stay nofun⟩
  | .guarded checked _ _ _ _ => cases checked <;> exact ⟨rfl, cast?_stay nofun⟩
  | .paren opened inner closed =>
      refine ⟨rfl, ?_⟩
      have hyield : (ConcreteExpr.paren opened inner closed).yield ++ rest =
          Symbol.lparen.token opened :: (inner.yield ++ Symbol.rparen.token closed :: rest) := by
        simp [ConcreteExpr.yield]
      rw [hyield]
      exact cast?_paren h.2
  | .member target dot name =>
      obtain ⟨hg, hop, hpre⟩ := hg
      rw [ConcreteExpr.yield, List.append_assoc]
      exact opens_chain target hg hop hpre _ h
  | .emptyCall callee _ _ =>
      obtain ⟨hg, hop, hpre⟩ := hg
      rw [ConcreteExpr.yield, List.append_assoc]
      exact opens_chain callee hg hop hpre _ h
  | .call callee _ _ _ =>
      obtain ⟨hg, hop, hpre, -⟩ := hg
      rw [ConcreteExpr.yield, List.append_assoc, List.append_assoc]
      exact opens_chain callee hg hop hpre _ h.1
  | .index target _ _ _ =>
      obtain ⟨hg, hop, hpre, -⟩ := hg
      rw [ConcreteExpr.yield, List.append_assoc, List.append_assoc]
      exact opens_chain target hg hop hpre _ h.1
  | .unary .. | .cast .. => cases hpre
  | .binary .. | .asType .. => cases hop

theorem moreOperations_stay {least : Nat} {e : Expr} {tokens : List Token}
    (h : Stops least tokens) : (moreOperations least e tokens).plain = .ok (e, tokens) := by
  rw [moreOperations_plain]
  cases tokens with
  | nil => rfl
  | cons token rest =>
      obtain ⟨kind, span⟩ := token
      dsimp only
      split_ifs with has hle
      · exact absurd has (h.1 hle)
      · rfl
      · cases hop : binaryOperator? kind with
        | none => rfl
        | some op =>
            have hlt : ¬ least ≤ op.precedence := Nat.not_le.mpr (h.2 op hop)
            dsimp only
            rw [if_neg hlt]

theorem Stops.mono {least more : Nat} (h : Stops least rest) (hle : least ≤ more) :
    Stops more rest :=
  ⟨fun has => h.1 (Nat.le_trans hle has), fun op hop => Nat.lt_of_lt_of_le (h.2 op hop) hle⟩

theorem closedBefore_of_bindsAtLeast {e : ConcreteExpr} {least : Nat} (h : e.BindsAtLeast least)
    (hs : Stops (least + 1) rest) : ClosedBefore e rest := by
  cases e with
  | binary op => exact hs.mono (Nat.succ_le_succ h)
  | _ => trivial

-- Nothing that follows goes on with the expression.
def Ends (tokens : List Token) : Prop :=
  startsLink (peek tokens).kind = false ∧ ∀ least, Stops least tokens

theorem ends_of_kind {kind : TokenKind} (h : (peek rest).kind = kind)
    (hlink : startsLink kind = false) (has : kind ≠ .keyword .asWord)
    (hop : binaryOperator? kind = none) : Ends rest := by
  subst h
  refine ⟨hlink, fun least => ⟨fun _ => has, fun op hsome => ?_⟩⟩
  rw [hop] at hsome
  cases hsome

-- The signs behind arguments.
def isClosing : Symbol → Bool
  | .rparen | .rbracket => true
  | _ => false

theorem ends_closing {close : Symbol} (h : isClosing close = true) (stop : Span)
    (rest : List Token) : Ends (close.token stop :: rest) := by
  cases close with
  | rparen | rbracket => exact ends_of_kind rfl rfl nofun rfl
  | _ => cases h

theorem stops_sign (op : BinaryOperator) (sign : Span) (rest : List Token) :
    Stops (op.precedence + 1) (op.sign.token sign :: rest) := by
  refine ⟨fun _ => nofun, fun other hother => ?_⟩
  have hsame : some op = some other := op.binaryOperator?_sign.symm.trans hother
  rw [Option.some.inj hsame]
  exact Nat.lt_succ_self _

theorem stops_as (word : Span) (rest : List Token) :
    Stops (asPrecedence + 1) (Keyword.asWord.token word :: rest) :=
  ⟨fun hle => absurd hle (Nat.not_succ_le_self _), fun _ => nofun⟩

-- The tokens of a chain are read as a first operand with links behind it.
def ReadsChain (e : ConcreteExpr) : Prop :=
  ∀ rest, e.Readable (peek rest).kind →
    (atomChain (e.yield ++ rest)).plain = (moreLinks e.erase rest).plain

def ReadsOperand (e : ConcreteExpr) : Prop :=
  ∀ rest, e.Readable (peek rest).kind → startsLink (peek rest).kind = false →
    (operand (e.yield ++ rest)).plain = .ok (e.erase, rest)

-- The tokens of an operation are read as a first operand with operators behind it.
def ReadsOperation (e : ConcreteExpr) : Prop :=
  ∀ least rest, e.Readable (peek rest).kind → startsLink (peek rest).kind = false →
    e.ReadAt least → ClosedBefore e rest →
    (operation least (e.yield ++ rest)).plain = (moreOperations least e.erase rest).plain

structure Complete (e : ConcreteExpr) : Prop where
  chain : e.isOperation = false → e.isPrefixed = false → ReadsChain e
  operand : e.isOperation = false → ReadsOperand e
  operation : ReadsOperation e

theorem ReadsOperand.operation {e : ConcreteExpr} (h : ReadsOperand e) : ReadsOperation e := by
  intro least rest hread hlink _ _
  rw [operation_plain, h rest hread hlink, ok_bind]

theorem ReadsChain.operand {e : ConcreteExpr} (h : ReadsChain e) (hg : e.Grouped)
    (hop : e.isOperation = false) (hpre : e.isPrefixed = false) : ReadsOperand e := by
  intro rest hread hlink
  obtain ⟨hsign, hcast⟩ := opens_chain e hg hop hpre rest hread
  rw [operand_plain, hsign]
  dsimp only
  rw [hcast]
  dsimp only
  rw [h rest hread, moreLinks_stay hlink]

theorem complete_of_chain {e : ConcreteExpr} (hg : e.Grouped) (hop : e.isOperation = false)
    (hpre : e.isPrefixed = false) (h : ReadsChain e) : Complete e :=
  ⟨fun _ _ => h, fun _ => h.operand hg hop hpre, (h.operand hg hop hpre).operation⟩

theorem complete_of_operand {e : ConcreteExpr} (hpre : e.isPrefixed = true)
    (h : ReadsOperand e) : Complete e :=
  ⟨fun _ hno => absurd hno (by simp [hpre]), fun _ => h, h.operation⟩

theorem complete_of_operation {e : ConcreteExpr} (hop : e.isOperation = true)
    (h : ReadsOperation e) : Complete e :=
  ⟨fun hno => absurd hno (by simp [hop]), fun hno => absurd hno (by simp [hop]), h⟩

theorem Complete.whole {e : ConcreteExpr} (h : Complete e) (hread : e.Readable (peek rest).kind)
    (hends : Ends rest) : (Parser.operation 1 (e.yield ++ rest)).plain = .ok (e.erase, rest) := by
  have hclosed : ClosedBefore e rest := by
    cases e with
    | binary op => exact hends.2 _
    | _ => trivial
  rw [h.operation 1 rest hread hends.1 e.readAt_one hclosed, moreOperations_stay (hends.2 1)]

theorem atom_literal (value : Literal) (span : Span) :
    (atom (⟨value.kind, span⟩ :: rest)).plain = .ok (.literal value span, rest) := by
  have hident : ∀ name, value.kind = .ident name → False := by
    cases value with
    | bool value => cases value <;> exact fun _ => nofun
    | _ => exact fun _ => nofun
  have hparen : value.kind = .symbol .lparen → False := by
    cases value with
    | bool value => cases value <;> exact nofun
    | _ => exact nofun
  rw [atom_other hident hparen, Literal.literal?_kind]

theorem atom_paren {inner : ConcreteExpr} (h : Complete inner)
    (hread : inner.Readable (.symbol .rparen)) (opened closed : Span) :
    (atom (Symbol.lparen.token opened :: (inner.yield ++
      Symbol.rparen.token closed :: rest))).plain =
      .ok (inner.erase.withSpan (opened.hull closed), rest) := by
  have hinner : (operation 1 (inner.yield ++ Symbol.rparen.token closed :: rest)).plain =
      .ok (inner.erase, Symbol.rparen.token closed :: rest) :=
    h.whole hread (ends_of_kind rfl rfl nofun rfl)
  have hclose : (expectSymbol .rparen (Symbol.rparen.token closed :: rest)).plain =
      .ok (closed, rest) := expect_plain_iff.mpr rfl
  rw [atom_plain]
  simp only [Symbol.token] at hinner hclose ⊢
  rw [hinner, ok_bind, hclose, ok_bind]

theorem atom_guarded_of {e : Expr} {inner : List Token} {closed : Span}
    (hinner : (operation 1 (inner ++ Symbol.rparen.token closed :: rest)).plain =
      .ok (e, Symbol.rparen.token closed :: rest)) (checked : Bool) (word opened : Span) :
    (atom ((scopeWord checked).token word :: Symbol.lparen.token opened :: (inner ++
      Symbol.rparen.token closed :: rest))).plain =
      .ok (.guarded checked e (word.hull closed), rest) := by
  have hopen : (expectSymbol .lparen (Symbol.lparen.token opened :: (inner ++
      Symbol.rparen.token closed :: rest))).plain =
      .ok (opened, inner ++ Symbol.rparen.token closed :: rest) := expect_plain_iff.mpr rfl
  have hclose : (expectSymbol .rparen (Symbol.rparen.token closed :: rest)).plain =
      .ok (closed, rest) := expect_plain_iff.mpr rfl
  have hword : literal? (.keyword (scopeWord checked)) = none := by cases checked <;> rfl
  have hscope : TokenKind.keyword (scopeWord checked) = .keyword .checkedWord ∨
      TokenKind.keyword (scopeWord checked) = .keyword .uncheckedWord := by
    cases checked <;> simp [scopeWord]
  have hchecked : decide (TokenKind.keyword (scopeWord checked) = .keyword .checkedWord) =
      checked := by
    cases checked <;> rfl
  have hident : ∀ name, TokenKind.keyword (scopeWord checked) = .ident name → False := by
    intro _ h
    cases h
  have hparen : TokenKind.keyword (scopeWord checked) = .symbol .lparen → False := by
    intro h
    cases h
  rw [Keyword.token, atom_other hident hparen, hword]
  dsimp only
  rw [if_pos hscope, hopen, ok_bind]
  dsimp only
  rw [hinner, ok_bind]
  dsimp only
  rw [hclose, ok_bind, hchecked]

theorem atom_guarded {inner : ConcreteExpr} (h : Complete inner)
    (hread : inner.Readable (.symbol .rparen)) (checked : Bool) (word opened closed : Span) :
    (atom ((scopeWord checked).token word :: Symbol.lparen.token opened :: (inner.yield ++
      Symbol.rparen.token closed :: rest))).plain =
      .ok (.guarded checked inner.erase (word.hull closed), rest) :=
  atom_guarded_of (h.whole hread (ends_of_kind rfl rfl nofun rfl)) checked word opened

-- The tokens of arguments are read up to the closing sign.
def ReadsArguments (arguments : ConcreteExprs) : Prop :=
  ∀ close stop rest, isClosing close = true → arguments.Readable (.symbol close) →
    (argumentList (arguments.yield ++ close.token stop :: rest)).plain =
      .ok (arguments.erase, close.token stop :: rest)

theorem ReadsArguments.enclosed {arguments : ConcreteExprs} (h : ReadsArguments arguments)
    {close : Symbol} (stop : Span) (hclosing : isClosing close = true)
    (hread : arguments.Readable (.symbol close)) :
    enclosed close (arguments.yield ++ close.token stop :: rest) =
      .ok ((arguments.erase, stop), rest) := by
  have hopens : opensExpression (.symbol close) = false := by
    cases close <;> first | rfl | cases hclosing
  have hfirst : (peek (arguments.yield ++ close.token stop :: rest)).kind ≠ .symbol close := by
    cases arguments with
    | last e =>
        rw [ConcreteExprs.yield, e.peek_yield_append]
        exact e.peek_yield_ne hopens
    | more e _ _ =>
        rw [ConcreteExprs.yield, List.append_assoc, e.peek_yield_append]
        exact e.peek_yield_ne hopens
  have hstop : (expectSymbol close (close.token stop :: rest)).plain = .ok (stop, rest) :=
    expect_plain_iff.mpr rfl
  rw [enclosed_eq, if_neg hfirst, h close stop rest hclosing hread, ok_bind]
  dsimp only
  rw [hstop, ok_bind]

theorem enclosed_empty (close : Symbol) (stop : Span) :
    enclosed close (close.token stop :: rest) = .ok (([], stop), rest) := by
  have hstop : (expectSymbol close (close.token stop :: rest)).plain = .ok (stop, rest) :=
    expect_plain_iff.mpr rfl
  have hfirst : (peek (close.token stop :: rest)).kind = .symbol close := rfl
  rw [enclosed_eq, if_pos hfirst, hstop, ok_bind]

-- Each form is read if its parts are.

theorem readsChain_literal (value : Literal) (span : Span) : ReadsChain (.literal value span) := by
  intro rest _
  rw [atomChain_plain, ConcreteExpr.yield, List.singleton_append, atom_literal, ok_bind]
  rfl

theorem readsChain_name (ident : Ident) : ReadsChain (.name ident) := by
  intro rest _
  rw [atomChain_plain, ConcreteExpr.yield, List.singleton_append, atom_plain, Ident.token]
  rfl

theorem Complete.paren {inner : ConcreteExpr} (h : Complete inner) (opened closed : Span) :
    ReadsChain (.paren opened inner closed) := by
  intro rest hread
  have hyield : (ConcreteExpr.paren opened inner closed).yield ++ rest =
      Symbol.lparen.token opened :: (inner.yield ++ Symbol.rparen.token closed :: rest) := by
    simp [ConcreteExpr.yield]
  rw [hyield, atomChain_plain, atom_paren h hread.1, ok_bind]
  rfl

theorem Complete.guarded {inner : ConcreteExpr} (h : Complete inner) (checked : Bool)
    (word opened closed : Span) : ReadsChain (.guarded checked word opened inner closed) := by
  intro rest hread
  have hyield : (ConcreteExpr.guarded checked word opened inner closed).yield ++ rest =
      (scopeWord checked).token word :: Symbol.lparen.token opened ::
        (inner.yield ++ Symbol.rparen.token closed :: rest) := by
    simp [ConcreteExpr.yield]
  rw [hyield, atomChain_plain, atom_guarded h hread, ok_bind]
  rfl

namespace ReadsChain

variable {target : ConcreteExpr} {arguments : ConcreteExprs}

theorem member (h : ReadsChain target) (dot : Span) (name : Ident) :
    ReadsChain (.member target dot name) := by
  intro rest hread
  have hyield : (ConcreteExpr.member target dot name).yield ++ rest =
      target.yield ++ Symbol.dot.token dot :: name.token :: rest := by
    simp [ConcreteExpr.yield]
  have hident : (ident (name.token :: rest)).plain = .ok (name, rest) := ident_plain_iff.mpr rfl
  rw [hyield, h _ hread, moreLinks_plain, Symbol.token]
  dsimp only
  rw [hident, ok_bind]
  rfl

theorem emptyCall (h : ReadsChain target) (opened closed : Span) :
    ReadsChain (.emptyCall target opened closed) := by
  intro rest hread
  have hyield : (ConcreteExpr.emptyCall target opened closed).yield ++ rest =
      target.yield ++ Symbol.lparen.token opened :: Symbol.rparen.token closed :: rest := by
    simp [ConcreteExpr.yield]
  rw [hyield, h _ hread, moreLinks_plain, Symbol.token]
  dsimp only
  rw [enclosed_empty, ok_bind]
  rfl

theorem call (h : ReadsChain target) (harguments : ReadsArguments arguments)
    (opened closed : Span) : ReadsChain (.call target opened arguments closed) := by
  intro rest hread
  have hyield : (ConcreteExpr.call target opened arguments closed).yield ++ rest =
      target.yield ++ Symbol.lparen.token opened ::
        (arguments.yield ++ Symbol.rparen.token closed :: rest) := by
    simp [ConcreteExpr.yield]
  have htarget := h (Symbol.lparen.token opened ::
    (arguments.yield ++ Symbol.rparen.token closed :: rest)) hread.1
  rw [hyield, htarget, moreLinks_plain, Symbol.token]
  dsimp only
  rw [harguments.enclosed closed rfl hread.2, ok_bind]
  rfl

theorem index (h : ReadsChain target) (harguments : ReadsArguments arguments)
    (opened closed : Span) : ReadsChain (.index target opened arguments closed) := by
  intro rest hread
  have hyield : (ConcreteExpr.index target opened arguments closed).yield ++ rest =
      target.yield ++ Symbol.lbracket.token opened ::
        (arguments.yield ++ Symbol.rbracket.token closed :: rest) := by
    simp [ConcreteExpr.yield]
  have hsome : arguments.erase.isEmpty = false := by cases arguments <;> rfl
  have htarget := h (Symbol.lbracket.token opened ::
    (arguments.yield ++ Symbol.rbracket.token closed :: rest)) hread.1
  rw [hyield, htarget, moreLinks_plain, Symbol.token]
  dsimp only
  rw [harguments.enclosed closed rfl hread.2, ok_bind]
  dsimp only
  rw [hsome]
  rfl

end ReadsChain

namespace ReadsOperand

variable {inner : ConcreteExpr}

theorem unary (h : ReadsOperand inner) (op : UnaryOperator) (sign : Span) :
    ReadsOperand (.unary op sign inner) := by
  intro rest hread hlink
  have hsign : unaryOperator? (peek ((ConcreteExpr.unary op sign inner).yield ++ rest)).kind =
      some op := op.unaryOperator?_sign
  have htail : ((ConcreteExpr.unary op sign inner).yield ++ rest).tail = inner.yield ++ rest := rfl
  rw [operand_plain, hsign, htail]
  dsimp only
  rw [h rest hread hlink, ok_bind]
  rfl

theorem cast (h : ReadsOperand inner) (type : ConcreteType) (opened closed : Span) :
    ReadsOperand (.cast opened type closed inner) := by
  intro rest hread hlink
  have hyield : (ConcreteExpr.cast opened type closed inner).yield ++ rest =
      Symbol.lparen.token opened :: (type.yield ++
        Symbol.rparen.token closed :: (inner.yield ++ rest)) := by
    simp [ConcreteExpr.yield]
  have hcast : cast? (Symbol.lparen.token opened :: (type.yield ++
      Symbol.rparen.token closed :: (inner.yield ++ rest))) =
      some (type.erase, opened.hull closed, inner.yield ++ rest) :=
    cast?_complete type (by rw [inner.peek_yield_append]; exact hread.2)
  have hsign : unaryOperator? (peek (Symbol.lparen.token opened :: (type.yield ++
      Symbol.rparen.token closed :: (inner.yield ++ rest)))).kind = none := rfl
  rw [hyield, operand_plain, hsign]
  dsimp only
  rw [hcast]
  dsimp only
  rw [h rest hread.1 hlink, ok_bind]
  rfl

end ReadsOperand

theorem ReadsOperation.binary {op : BinaryOperator} {left right : ConcreteExpr}
    (hleft : ReadsOperation left) (hright : ReadsOperation right)
    (hbl : left.BindsAtLeast op.precedence) (hbr : right.BindsAtLeast (op.precedence + 1))
    (sign : Span) : ReadsOperation (.binary op left sign right) := by
  intro least rest hread hlink hat hclosed
  obtain ⟨hreadl, hreadr, hatr⟩ := hread
  have hyield : (ConcreteExpr.binary op left sign right).yield ++ rest =
      left.yield ++ op.sign.token sign :: (right.yield ++ rest) := by
    simp [ConcreteExpr.yield]
  have hstops : Stops (op.precedence + 1) rest := hclosed
  have hfirst : (operation least (left.yield ++ op.sign.token sign ::
      (right.yield ++ rest))).plain =
      (moreOperations least left.erase (op.sign.token sign :: (right.yield ++ rest))).plain :=
    hleft least _ hreadl (by cases op <;> rfl) hat.2
      (closedBefore_of_bindsAtLeast hbl (stops_sign op sign _))
  have hsecond : (operation (op.precedence + 1) (right.yield ++ rest)).plain =
      .ok (right.erase, rest) := by
    rw [hright _ rest hreadr hlink hatr
      (closedBefore_of_bindsAtLeast hbr (hstops.mono (Nat.le_succ _))),
      moreOperations_stay hstops]
  rw [hyield, hfirst, moreOperations_plain, Symbol.token]
  dsimp only
  rw [if_neg nofun, op.binaryOperator?_sign]
  dsimp only
  rw [if_pos hat.1, hsecond, ok_bind]
  rfl

theorem ReadsOperation.asType {inner : ConcreteExpr} (h : ReadsOperation inner)
    (hbinds : inner.BindsAtLeast asPrecedence) (word : Span) (type : ConcreteType) :
    ReadsOperation (.asType inner word type) := by
  intro least rest hread hlink hat _
  have hyield : (ConcreteExpr.asType inner word type).yield ++ rest =
      inner.yield ++ Keyword.asWord.token word :: (type.yield ++ rest) := by
    simp [ConcreteExpr.yield]
  have hinner : (operation least (inner.yield ++ Keyword.asWord.token word ::
      (type.yield ++ rest))).plain = (moreOperations least inner.erase
        (Keyword.asWord.token word :: (type.yield ++ rest))).plain :=
    h least _ hread.1 rfl hat.2 (closedBefore_of_bindsAtLeast hbinds (stops_as word _))
  rw [hyield, hinner, moreOperations_plain, Keyword.token]
  dsimp only
  rw [if_pos rfl, if_pos hat.1, typeName_complete type rest hread.2, ok_bind]
  rfl

theorem readsArguments_last {e : ConcreteExpr} (h : Complete e) : ReadsArguments (.last e) := by
  intro close stop rest hclosing hread
  have hitem : (operation 1 (e.yield ++ close.token stop :: rest)).plain =
      .ok (e.erase, close.token stop :: rest) :=
    h.whole hread (ends_closing hclosing stop rest)
  rw [argumentList_plain, ConcreteExprs.yield, hitem, ok_bind]
  cases close <;> first | rfl | cases hclosing

theorem ReadsArguments.more {e : ConcreteExpr} {arguments : ConcreteExprs}
    (h : ReadsArguments arguments) (he : Complete e) (comma : Span) :
    ReadsArguments (.more e comma arguments) := by
  intro close stop rest hclosing hread
  have hitem : (operation 1 (e.yield ++ Symbol.comma.token comma :: (arguments.yield ++
      close.token stop :: rest))).plain = .ok (e.erase, Symbol.comma.token comma ::
        (arguments.yield ++ close.token stop :: rest)) :=
    he.whole hread.1 (ends_of_kind rfl rfl nofun rfl)
  have hitems := h close stop rest hclosing hread.2
  rw [argumentList_plain, ConcreteExprs.yield, List.append_assoc, List.cons_append, hitem,
    ok_bind, Symbol.token]
  dsimp only
  rw [hitems, ok_bind]
  rfl

mutual

theorem complete (e : ConcreteExpr) (hg : e.Grouped) : Complete e := by
  match e with
  | .literal value span => exact complete_of_chain hg rfl rfl (readsChain_literal value span)
  | .name ident => exact complete_of_chain hg rfl rfl (readsChain_name ident)
  | .paren opened inner closed =>
      exact complete_of_chain hg rfl rfl ((complete inner hg).paren opened closed)
  | .guarded checked word opened inner closed =>
      exact complete_of_chain hg rfl rfl ((complete inner hg).guarded checked word opened closed)
  | .member target dot name =>
      have htarget := (complete target hg.1).chain hg.2.1 hg.2.2
      exact complete_of_chain hg rfl rfl (htarget.member dot name)
  | .emptyCall callee opened closed =>
      have hcallee := (complete callee hg.1).chain hg.2.1 hg.2.2
      exact complete_of_chain hg rfl rfl (hcallee.emptyCall opened closed)
  | .call callee opened arguments closed =>
      obtain ⟨hgt, hop, hpre, hga⟩ := hg
      have hcallee := (complete callee hgt).chain hop hpre
      have harguments := argumentList_complete arguments hga
      exact complete_of_chain ⟨hgt, hop, hpre, hga⟩ rfl rfl (hcallee.call harguments opened closed)
  | .index target opened arguments closed =>
      obtain ⟨hgt, hop, hpre, hga⟩ := hg
      have htarget := (complete target hgt).chain hop hpre
      have harguments := argumentList_complete arguments hga
      exact complete_of_chain ⟨hgt, hop, hpre, hga⟩ rfl rfl (htarget.index harguments opened closed)
  | .unary op sign inner =>
      have hinner := (complete inner hg.1).operand hg.2
      exact complete_of_operand rfl (hinner.unary op sign)
  | .cast opened type closed inner =>
      have hinner := (complete inner hg.1).operand hg.2
      exact complete_of_operand rfl (hinner.cast type opened closed)
  | .binary op left sign right =>
      obtain ⟨hgl, hgr, hbl, hbr, -⟩ := hg
      have hleft := (complete left hgl).operation
      have hright := (complete right hgr).operation
      exact complete_of_operation rfl (hleft.binary hright hbl hbr sign)
  | .asType inner word type =>
      have hinner := (complete inner hg.1).operation
      exact complete_of_operation rfl (hinner.asType hg.2 word type)

theorem argumentList_complete (arguments : ConcreteExprs) (hg : arguments.Grouped) :
    ReadsArguments arguments := by
  match arguments with
  | .last e => exact readsArguments_last (complete e hg)
  | .more e comma arguments =>
      exact (argumentList_complete arguments hg.2).more (complete e hg.1) comma

end

-- Every grouped form that can be read in front of the end is read.
theorem wholeExpression_complete {e : ConcreteExpr} (hg : e.Grouped) (hread : e.Readable .eof)
    (stop : Span) (rest : List Token) :
    wholeExpression (e.yield ++ ⟨.eof, stop⟩ :: rest) = .ok e.erase := by
  have hwhole : (operation 1 (e.yield ++ ⟨.eof, stop⟩ :: rest)).plain =
      .ok (e.erase, ⟨.eof, stop⟩ :: rest) :=
    (complete e hg).whole hread (ends_of_kind rfl rfl nofun rfl)
  have hend : (expect .eof (⟨.eof, stop⟩ :: rest)).plain = .ok (stop, rest) :=
    expect_plain_iff.mpr rfl
  rw [wholeExpression_eq, hwhole, ok_bind]
  dsimp only
  rw [hend, ok_bind]

end EventScript.Parser
