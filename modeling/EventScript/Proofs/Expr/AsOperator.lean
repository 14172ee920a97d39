import EventScript.Proofs.Expr.Closing

namespace EventScript

namespace ConcreteExpr

-- Of operands only the ones that end with a name in parentheses depend on what follows.
theorem Readable.before {e : ConcreteExpr} {next other : TokenKind} (h : e.Readable next)
    (hg : e.Grouped) (hop : e.isOperation = false)
    (hother : Parser.startsCastOperand other = false) : e.Readable other := by
  match e with
  | literal .. | name _ => trivial
  | paren .. => exact ⟨h.1, fun _ => hother⟩
  | member .. | emptyCall .. | call .. | index .. | guarded .. => exact h
  | unary _ _ operand => exact Readable.before (e := operand) h hg.1 hg.2 hother
  | cast _ _ _ operand => exact ⟨Readable.before h.1 hg.1 hg.2 hother, h.2⟩
  | binary .. | asType .. => cases hop

end ConcreteExpr

-- The first token that no dotted name contains.
def behindPath (tokens : List Token) : TokenKind :=
  (Parser.peek (tokens.dropWhile fun token => isPathToken token.kind)).kind

theorem behindPath_cons {token : Token} (h : isPathToken token.kind = false)
    (tokens : List Token) : behindPath (token :: tokens) = token.kind := by
  simp [behindPath, h, Parser.peek]

theorem behindPath_cons_path {token : Token} (h : isPathToken token.kind = true)
    (tokens : List Token) : behindPath (token :: tokens) = behindPath tokens := by
  simp [behindPath, h]

theorem isPathToken_of_isTypeToken {kind : TokenKind} (h : isTypeToken kind = false) :
    isPathToken kind = false :=
  Bool.eq_false_iff.mpr fun hpath => Bool.eq_false_iff.mp h (isTypeToken_of_isPathToken hpath)

theorem behindPath_other {token : Token} (h : isTypeToken token.kind = false)
    (tokens : List Token) : isTypeToken (behindPath (token :: tokens)) = false := by
  rwa [behindPath_cons (isPathToken_of_isTypeToken h)]

-- Up to a `>` there is nothing but types, ...
theorem isTypeToken_behindPath {tokens : List Token} (h : ConsistsOf isTypeToken tokens)
    (closed : Span) (rest : List Token) :
    isTypeToken (behindPath (tokens ++ Symbol.gt.token closed :: rest)) = true := by
  induction tokens with
  | nil => rfl
  | cons token tokens ih =>
      obtain ⟨htoken, htokens⟩ := consistsOf_cons.mp h
      rw [List.cons_append]
      by_cases hpath : isPathToken token.kind = true
      · rw [behindPath_cons_path hpath]
        exact ih htokens
      · rw [behindPath_cons (Bool.eq_false_iff.mpr hpath)]
        exact htoken

-- ... but behind the dotted name that an operand starts with there is something else.
theorem ConcreteExpr.behindPath_yield (e : ConcreteExpr) (hg : e.Grouped)
    (hop : e.isOperation = false) {rest : List Token}
    (h : isTypeToken (behindPath rest) = false) :
    isTypeToken (behindPath (e.yield ++ rest)) = false := by
  match e with
  | literal value _ =>
      cases value with
      | bool value => cases value <;> exact behindPath_other rfl _
      | _ => exact behindPath_other rfl _
  | name ident => rwa [yield, List.singleton_append, behindPath_cons_path rfl]
  | paren .. | cast .. => exact behindPath_other rfl _
  | unary op _ _ => cases op <;> exact behindPath_other rfl _
  | guarded checked _ _ _ _ => cases checked <;> exact behindPath_other rfl _
  | member target dot ident =>
      rw [yield, List.append_assoc]
      refine behindPath_yield target hg.1 hg.2.1 ?_
      rwa [List.cons_append, behindPath_cons_path rfl, List.cons_append, behindPath_cons_path rfl]
  | emptyCall callee _ _ =>
      rw [yield, List.append_assoc]
      exact behindPath_yield callee hg.1 hg.2.1 (behindPath_other rfl _)
  | call target _ _ _ | index target _ _ _ =>
      rw [yield, List.append_assoc, List.append_assoc]
      exact behindPath_yield target hg.1 hg.2.1 (behindPath_other rfl _)
  | binary .. | asType .. => cases hop

theorem ConcreteTypes.erase_ne_nil (types : ConcreteTypes) : types.erase ≠ [] := by
  cases types <;> exact List.cons_ne_nil _ _

namespace Parser

variable {front named behind : List Token} {left right : Expr} {type : TypeName} {stop : Span}

-- An operand with nothing behind it has a form that consists of its tokens.
theorem exists_operandForm
    (h : (operand (front ++ ending stop)).plain = .ok (left, ending stop)) :
    ∃ form : ConcreteExpr, form.erase = left ∧ front = form.yield ∧ form.Grouped ∧
      form.Readable .eof ∧ form.isOperation = false := by
  obtain ⟨form, ⟨herase, hyield, hg, hr⟩, hop⟩ :=
    operand_sound (fun tokens _ => operation_sound tokens) (Nat.le_refl _) h
  exact ⟨form, herase, List.append_cancel_right hyield, hg, hr, hop⟩

-- So has a type, and without arguments it is a dotted name, with or without a question mark.
theorem exists_typeForm (h : (typeName (named ++ ending stop)).plain = .ok (type, ending stop))
    (hplain : type.arguments = []) :
    ∃ path question, (ConcreteType.simple path question).erase = type ∧
      named = (ConcreteType.simple path question).yield := by
  obtain ⟨form, rfl, hyield, -⟩ := typeName_sound h
  cases form with
  | simple path question => exact ⟨path, question, rfl, List.append_cancel_right hyield⟩
  | generic path opened arguments closed question =>
      exact absurd hplain arguments.erase_ne_nil

-- A `<` behind a dotted name opens type arguments, and no operand with nothing behind it is a list
-- of types that a `>` closes.
theorem typeName_lessThan {form : ConcreteExpr} (hg : form.Grouped)
    (hop : form.isOperation = false) (path : ConcretePath) (sign place : Span) :
    ∃ error, (typeName (path.yield ++ Symbol.lt.token sign ::
      (form.yield ++ ending place))).plain = .error error := by
  have hdot : (peek (Symbol.lt.token sign :: (form.yield ++ ending place))).kind ≠
      .symbol .dot := nofun
  rw [typeName_plain, dottedName_complete path hdot, ok_bind, Symbol.token]
  dsimp only
  cases harguments : (typeArguments (form.yield ++ ending place)).plain with
  | error error => exact ⟨error, rfl⟩
  | ok read =>
      obtain ⟨types, rest⟩ := read
      rw [ok_bind]
      dsimp only
      cases hclose : (expectSymbol .gt rest).plain with
      | error error => exact ⟨error, rfl⟩
      | ok closed =>
          obtain ⟨forms, -, hyield⟩ := typeArguments_sound harguments
          obtain rfl := expect_plain_iff.mp hclose
          have hoperand : isTypeToken (behindPath (form.yield ++ ending place)) = false :=
            form.behindPath_yield hg hop rfl
          have htypes := isTypeToken_behindPath forms.consistsOf_yield closed.1 closed.2
          rw [Symbol.token, ← hyield, hoperand] at htypes
          cases htypes

theorem endsBefore_sign {op : BinaryOperator} {question : Option Span} (path : ConcretePath)
    (h : op = .lessThan → question ≠ none) :
    (ConcreteType.simple path question).EndsBefore (.symbol op.sign) := by
  cases question with
  | none =>
      have hop : op ≠ .lessThan := fun heq => h heq rfl
      cases op <;> first | exact absurd rfl hop | exact ⟨nofun, nofun, nofun⟩
  | some _ => trivial

section

variable {operandForm rightForm : ConcreteExpr} (hgl : operandForm.Grouped)
  (hrl : operandForm.Readable .eof) (hopl : operandForm.isOperation = false)
include hgl hrl hopl

-- What has been read when the type behind `as` starts.
theorem wholeExpression_upToType (word : Span) (rest : List Token) :
    wholeExpression (operandForm.yield ++ Keyword.asWord.token word :: rest) = (do
      let (type, behind) ← (typeName rest).plain
      let (e, left) ← (moreOperations 1 (.asType operandForm.erase type
        (operandForm.erase.span.hull type.span)) behind).plain
      let _ ← (expect .eof left).plain
      .ok e) := by
  have hoperand : (operand (operandForm.yield ++ Keyword.asWord.token word :: rest)).plain =
      .ok (operandForm.erase, Keyword.asWord.token word :: rest) :=
    (complete operandForm hgl).operand hopl _ (hrl.before hgl hopl rfl) rfl
  rw [wholeExpression_eq, operation_plain, hoperand, ok_bind]
  dsimp only
  rw [moreOperations_plain, Keyword.token]
  dsimp only
  rw [if_pos rfl, if_pos (by decide), bind_assoc]

-- The grouping asks nothing of an `as` to the left of an operator, however tight that binds.
theorem wholeExpression_asType {op : BinaryOperator} {type : ConcreteType}
    (hends : type.EndsBefore (.symbol op.sign)) (hgr : rightForm.Grouped)
    (hrr : rightForm.Readable .eof) (hopr : rightForm.isOperation = false)
    (word sign place : Span) :
    wholeExpression (operandForm.yield ++ Keyword.asWord.token word ::
      (type.yield ++ op.sign.token sign :: (rightForm.yield ++ ending place))) =
      .ok (ConcreteExpr.binary op (.asType operandForm word type) sign rightForm).erase := by
  have hat (least : Nat) {e : ConcreteExpr} (h : e.isOperation = false) : e.ReadAt least :=
    ConcreteExpr.readAt_of_isOperation least h
  have has : rightForm.isAs = false := by
    cases rightForm with
    | asType => cases hopr
    | _ => rfl
  have hgroup : (ConcreteExpr.binary op (.asType operandForm word type) sign rightForm).Grouped :=
    ⟨⟨hgl, (hat _ hopl).bindsAtLeast⟩, hgr, trivial, (hat _ hopr).bindsAtLeast, fun _ => has⟩
  have hread : (ConcreteExpr.binary op (.asType operandForm word type) sign rightForm).Readable
      .eof :=
    ⟨⟨hrl.before hgl hopl rfl, hends⟩, hrr, hat _ hopr⟩
  have hwhole := wholeExpression_complete hgroup hread place []
  simpa [ConcreteExpr.yield] using hwhole

end

-- An operand, `as` with a type that has no arguments, an operator and another operand: whatever
-- the precedence of the operator is, what stands in front of it becomes its left operand. Only a
-- `<` behind a type without a question mark is taken for the opening of type arguments, and then
-- there is no reading.
theorem wholeExpression_asType_operator
    (hleft : (operand (front ++ ending stop)).plain = .ok (left, ending stop))
    (htype : (typeName (named ++ ending stop)).plain = .ok (type, ending stop))
    (hplain : type.arguments = [])
    (hright : (operand (behind ++ ending stop)).plain = .ok (right, ending stop))
    (op : BinaryOperator) (word sign place : Span) :
    let tokens := front ++ Keyword.asWord.token word ::
      (named ++ op.sign.token sign :: (behind ++ ending place))
    let target := Expr.asType left type (left.span.hull type.span)
    (op = .lessThan ∧ type.nullable = false → ∃ error, wholeExpression tokens = .error error) ∧
      (¬ (op = .lessThan ∧ type.nullable = false) → wholeExpression tokens =
        .ok (.binary op target right (target.span.hull right.span))) := by
  intro tokens target
  obtain ⟨leftForm, rfl, rfl, hgl, hrl, hopl⟩ := exists_operandForm hleft
  obtain ⟨rightForm, rfl, rfl, hgr, hrr, hopr⟩ := exists_operandForm hright
  obtain ⟨path, question, rfl, rfl⟩ := exists_typeForm htype hplain
  constructor
  · rintro ⟨rfl, hnullable⟩
    have hsome : ¬ question.isSome = true := Bool.eq_false_iff.mp hnullable
    obtain rfl := Option.not_isSome_iff_eq_none.mp hsome
    obtain ⟨error, herror⟩ := typeName_lessThan hgr hopr path sign place
    have hyield : (ConcreteType.simple path none).yield = path.yield := List.append_nil _
    refine ⟨error, ?_⟩
    rw [wholeExpression_upToType hgl hrl hopl, hyield]
    exact congrArg (· >>= _) herror
  · intro hends
    refine wholeExpression_asType hgl hrl hopl (endsBefore_sign path fun hlt hnone => ?_) hgr hrr
      hopr word sign place
    exact hends ⟨hlt, congrArg Option.isSome hnone⟩

-- `x as T + 1` and `x as T < 1`.
theorem wholeExpression_asType_operator_one :
    let front : List Token := [⟨.ident "x", ⟨0, 1⟩⟩]
    let named : List Token := [⟨.ident "T", ⟨5, 6⟩⟩]
    let behind : List Token := [⟨.int 1 .none, ⟨9, 10⟩⟩]
    let left : Expr := .name ⟨"x", ⟨0, 1⟩⟩ ⟨0, 1⟩
    let type : TypeName := .mk ⟨⟨"T", ⟨5, 6⟩⟩, []⟩ [] false ⟨5, 6⟩
    let right : Expr := .literal (.int 1 .none) ⟨9, 10⟩
    let tokens (op : BinaryOperator) := front ++ Keyword.asWord.token ⟨2, 4⟩ ::
      (named ++ op.sign.token ⟨7, 8⟩ :: (behind ++ ending ⟨10, 10⟩))
    ((operand (front ++ ending ⟨10, 10⟩)).plain = .ok (left, ending ⟨10, 10⟩) ∧
      (typeName (named ++ ending ⟨10, 10⟩)).plain = .ok (type, ending ⟨10, 10⟩) ∧
      type.arguments = [] ∧
      (operand (behind ++ ending ⟨10, 10⟩)).plain = .ok (right, ending ⟨10, 10⟩)) ∧
    wholeExpression (tokens .add) = .ok (.binary .add (.asType left type ⟨0, 6⟩) right ⟨0, 10⟩) ∧
      ∃ error, wholeExpression (tokens .lessThan) = .error error := by
  intro front named behind left type right tokens
  have hleft : (operand (front ++ ending ⟨10, 10⟩)).plain = .ok (left, ending ⟨10, 10⟩) :=
    (complete (.name ⟨"x", ⟨0, 1⟩⟩) trivial).operand rfl _ trivial rfl
  have htype : (typeName (named ++ ending ⟨10, 10⟩)).plain = .ok (type, ending ⟨10, 10⟩) :=
    typeName_complete (.simple ⟨⟨"T", ⟨5, 6⟩⟩, []⟩ none) _ ⟨nofun, nofun, nofun⟩
  have hright : (operand (behind ++ ending ⟨10, 10⟩)).plain = .ok (right, ending ⟨10, 10⟩) :=
    (complete (.literal (.int 1 .none) ⟨9, 10⟩) trivial).operand rfl _ trivial rfl
  refine ⟨⟨hleft, htype, rfl, hright⟩, ?_, ?_⟩
  · exact (wholeExpression_asType_operator hleft htype rfl hright .add ⟨2, 4⟩ ⟨7, 8⟩ ⟨10, 10⟩).2
      (by decide)
  · exact (wholeExpression_asType_operator hleft htype rfl hright .lessThan ⟨2, 4⟩ ⟨7, 8⟩
      ⟨10, 10⟩).1 ⟨rfl, rfl⟩

-- An operator of the relational level would be no left operand of `+`, and one of `<`.
theorem as_beside_tighter_and_equal :
    (BinaryOperator.precedence .add = 5 ∧
      (parseExpression "x as T + 1").toOption.isSome = true) ∧
    BinaryOperator.precedence .lessThan = 4 ∧
      (parseExpression "x as T < 1").toOption.isNone = true := by
  decide +kernel

end Parser

end EventScript
