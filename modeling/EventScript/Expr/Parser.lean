import EventScript.Expr
import EventScript.Rest
import EventScript.SyntaxError
import EventScript.Token.Lexer

namespace EventScript.Parser

-- The result of reading an `α` from fewer than `bound` tokens.
abbrev Parsed (α : Type) (bound : Nat) := Except SyntaxError (α × Rest Token bound)

-- The token at the front; behind the last token there is only the end.
def peek : List Token → Token
  | [] => ⟨.eof, .none⟩
  | token :: _ => token

-- The error at a token that is not the expected one.
def unexpected (expected : Expected) (tokens : List Token) : SyntaxError :=
  let found := peek tokens
  ⟨.unexpectedToken expected found.kind, found.span⟩

def expect (kind : TokenKind) : (tokens : List Token) → Parsed Span tokens.length
  | [] => .error (unexpected (.token kind) [])
  | token :: rest =>
    if token.kind = kind then .ok (token.span, ⟨rest, by simp⟩)
    else .error (unexpected (.token kind) (token :: rest))

def expectSymbol (sign : Symbol) (tokens : List Token) : Parsed Span tokens.length :=
  expect (.symbol sign) tokens

def ident : (tokens : List Token) → Parsed Ident tokens.length
  | ⟨.ident name, span⟩ :: rest => .ok (⟨name, span⟩, ⟨rest, by simp⟩)
  | tokens => .error (unexpected .identifier tokens)

-- Types

-- The names that points join to a name before.
def moreNames : (tokens : List Token) → Parsed (List Ident) (tokens.length + 1)
  | ⟨.symbol .dot, _⟩ :: rest => do
    let (name, behind) ← ident rest
    let (names, left) ← moreNames behind.items
    .ok (name :: names, left.weaken (by
      have := behind.length_lt
      simp only [List.length_cons]
      omega))
  | tokens => .ok ([], ⟨tokens, Nat.lt_succ_self _⟩)
termination_by tokens => tokens.length
decreasing_by
  have := behind.length_lt
  simp only [List.length_cons]
  omega

def dottedName (tokens : List Token) : Parsed DottedName tokens.length := do
  let (first, behind) ← ident tokens
  let (rest, left) ← moreNames behind.items
  .ok (⟨first, rest⟩, left.weaken behind.length_lt)

-- Ends a type: a question mark behind it makes it nullable and belongs to its span.
def endType (path : DottedName) (arguments : List TypeName) (span : Span) {bound : Nat}
    (left : Rest Token bound) : TypeName × Rest Token bound :=
  match hl : left.items with
  | ⟨.symbol .question, stop⟩ :: rest =>
    (.mk path arguments true (span.hull stop), ⟨rest, by
      have := left.length_lt
      simp only [hl, List.length_cons] at this
      omega⟩)
  | _ => (.mk path arguments false span, left)

mutual

-- A type: a dotted name, arguments in angle brackets, and a mark for nullable types.
def typeName (tokens : List Token) : Parsed TypeName tokens.length := do
  let (path, behind) ← dottedName tokens
  match hb : behind.items with
  | ⟨.symbol .lt, _⟩ :: rest =>
    have := behind.length_lt
    let (arguments, behindArguments) ← typeArguments rest
    let (stop, left) ← expectSymbol .gt behindArguments.items
    .ok (endType path arguments (path.span.hull stop) (left.weaken (by
      have := behindArguments.length_lt
      simp only [hb, List.length_cons] at *
      omega)))
  | _ => .ok (endType path [] path.span behind)
termination_by 2 * tokens.length
decreasing_by
  simp only [hb, List.length_cons] at this
  omega

-- Types with commas between them, at least one.
def typeArguments (tokens : List Token) : Parsed (List TypeName) tokens.length := do
  let (argument, behind) ← typeName tokens
  match hb : behind.items with
  | ⟨.symbol .comma, _⟩ :: rest =>
    have := behind.length_lt
    let (arguments, left) ← typeArguments rest
    .ok (argument :: arguments, left.weaken (by
      simp only [hb, List.length_cons] at this
      omega))
  | _ => .ok ([argument], behind)
termination_by 2 * tokens.length + 1
decreasing_by
  · omega
  · simp only [hb, List.length_cons] at this
    omega

end

-- Expressions

-- The operator that a token stands for between two operands.
def binaryOperator? : TokenKind → Option BinaryOperator
  | .symbol .plus => some .add
  | .symbol .minus => some .subtract
  | .symbol .star => some .multiply
  | .symbol .slash => some .divide
  | .symbol .percent => some .modulo
  | .symbol .eqEq => some .equal
  | .symbol .notEq => some .notEqual
  | .symbol .lt => some .lessThan
  | .symbol .ltEq => some .lessThanOrEqual
  | .symbol .gt => some .greaterThan
  | .symbol .gtEq => some .greaterThanOrEqual
  | .symbol .andAnd => some .andAlso
  | .symbol .orOr => some .orElse
  | _ => none

-- The operator that a token stands for before an operand.
def unaryOperator? : TokenKind → Option UnaryOperator
  | .symbol .minus => some .negate
  | .symbol .plus => some .plus
  | .symbol .bang => some .not
  | _ => none

-- How tightly `as` binds: like the relational operators.
def asPrecedence : Nat := 4

-- Tokens that make a type in parentheses before them a cast. Signs are left out: `(a) - b` is a
-- subtraction.
def startsCastOperand : TokenKind → Bool
  | .ident _ | .int _ _ | .real _ _ | .str _ => true
  | .keyword word => word ≠ .usingWord && word ≠ .asWord
  | .symbol sign => sign = .lparen || sign = .bang
  | .eof => false

-- A type in parentheses with an operand behind it.
def castType? (tokens : List Token) : Option (TypeName × Span × Rest Token tokens.length) :=
  match tokens with
  | ⟨.symbol .lparen, start⟩ :: rest =>
    match typeName rest with
    | .error _ => none
    | .ok (type, behind) =>
      match hb : behind.items with
      | ⟨.symbol .rparen, stop⟩ :: left =>
        if startsCastOperand (peek left).kind then
          some (type, start.hull stop, ⟨left, by
            have := behind.length_lt
            simp only [hb, List.length_cons] at *
            omega⟩)
        else none
      | _ => none
  | _ => none

def literal? : TokenKind → Option Literal
  | .int value suffix => some (.int value suffix)
  | .real value suffix => some (.real value suffix)
  | .str text => some (.str text)
  | .keyword .trueWord => some (.bool true)
  | .keyword .falseWord => some (.bool false)
  | .keyword .nullWord => some .null
  | _ => none

mutual

-- An operand and the operators behind it that bind at least as tightly as `least`.
def operation (least : Nat) (tokens : List Token) : Parsed Expr tokens.length := do
  let (left, behind) ← operand tokens
  have := behind.length_lt
  let (whole, rest) ← moreOperations least left behind.items
  .ok (whole, rest.weaken this)
termination_by 8 * tokens.length + 4
decreasing_by all_goals omega

def moreOperations (least : Nat) (left : Expr) (tokens : List Token) :
    Parsed Expr (tokens.length + 1) :=
  match tokens with
  | [] => .ok (left, ⟨[], Nat.lt_succ_self _⟩)
  | ⟨kind, span⟩ :: rest =>
    let stay : Parsed Expr ((⟨kind, span⟩ :: rest : List Token).length + 1) :=
      .ok (left, ⟨⟨kind, span⟩ :: rest, Nat.lt_succ_self _⟩)
    if kind = .keyword .asWord then
      if least ≤ asPrecedence then do
        let (type, behind) ← typeName rest
        have := behind.length_lt
        let (whole, left) ← moreOperations least (.asType left type (left.span.hull type.span))
          behind.items
        .ok (whole, left.weaken (by simp only [List.length_cons]; omega))
      else stay
    else
      match binaryOperator? kind with
      | none => stay
      | some op =>
        if least ≤ op.precedence then do
          let (right, behind) ← operation (op.precedence + 1) rest
          have := behind.length_lt
          let (whole, left) ← moreOperations least
            (.binary op left right (left.span.hull right.span)) behind.items
          .ok (whole, left.weaken (by simp only [List.length_cons]; omega))
        else stay
termination_by 8 * tokens.length
decreasing_by all_goals (simp only [List.length_cons]; omega)

-- Operators and casts before an operand bind tighter than those between operands.
def operand (tokens : List Token) : Parsed Expr tokens.length :=
  match tokens with
  | [] => atomChain []
  | ⟨kind, span⟩ :: rest =>
    match unaryOperator? kind with
    | some op => do
      let (inner, behind) ← operand rest
      .ok (.unary op inner (span.hull inner.span), behind.weaken (by simp))
    | none =>
      match castType? (⟨kind, span⟩ :: rest) with
      | some (type, start, behind) => do
        have := behind.length_lt
        let (inner, left) ← operand behind.items
        .ok (.cast type inner (start.hull inner.span), left.weaken (by omega))
      | none => atomChain (⟨kind, span⟩ :: rest)
termination_by 8 * tokens.length + 3
decreasing_by all_goals (simp only [List.length_cons, List.length_nil] at *; omega)

-- An atom and the member accesses, calls and indexings behind it.
def atomChain (tokens : List Token) : Parsed Expr tokens.length := do
  let (first, behind) ← atom tokens
  have := behind.length_lt
  let (whole, rest) ← moreLinks first behind.items
  .ok (whole, rest.weaken this)
termination_by 8 * tokens.length + 2
decreasing_by all_goals omega

-- The member accesses, calls and indexings behind `target`.
def moreLinks (target : Expr) (tokens : List Token) : Parsed Expr (tokens.length + 1) :=
  match tokens with
  | ⟨.symbol .dot, _⟩ :: rest => do
    let (name, behind) ← ident rest
    have := behind.length_lt
    let (whole, left) ← moreLinks (.member target name (target.span.hull name.span)) behind.items
    .ok (whole, left.weaken (by simp only [List.length_cons]; omega))
  | ⟨.symbol .lparen, _⟩ :: rest => do
    let (arguments, stop, behind) ← arguments .rparen rest
    have := behind.length_lt
    let (whole, left) ← moreLinks (.call target arguments (target.span.hull stop)) behind.items
    .ok (whole, left.weaken (by simp only [List.length_cons]; omega))
  | ⟨.symbol .lbracket, _⟩ :: rest => do
    let (arguments, stop, behind) ← arguments .rbracket rest
    if arguments.isEmpty then .error ⟨.emptyIndex, stop⟩
    else
      have := behind.length_lt
      let (whole, left) ← moreLinks (.index target arguments (target.span.hull stop)) behind.items
      .ok (whole, left.weaken (by simp only [List.length_cons]; omega))
  | tokens => .ok (target, ⟨tokens, Nat.lt_succ_self _⟩)
termination_by 8 * tokens.length
decreasing_by all_goals (simp only [List.length_cons]; omega)

-- Arguments up to the closing sign, whose span is returned with them.
def arguments (close : Symbol) (tokens : List Token) :
    Except SyntaxError (List Expr × Span × Rest Token tokens.length) := do
  if (peek tokens).kind = .symbol close then
    let (stop, left) ← expectSymbol close tokens
    .ok ([], stop, left)
  else
    let (items, behind) ← argumentList tokens
    have := behind.length_lt
    let (stop, left) ← expectSymbol close behind.items
    .ok (items, stop, left.weaken (by omega))
termination_by 8 * tokens.length + 6
decreasing_by omega

-- Expressions with commas between them, at least one.
def argumentList (tokens : List Token) : Parsed (List Expr) tokens.length := do
  let (item, behind) ← operation 1 tokens
  match hb : behind.items with
  | ⟨.symbol .comma, _⟩ :: rest =>
    have := behind.length_lt
    let (items, left) ← argumentList rest
    .ok (item :: items, left.weaken (by
      simp only [hb, List.length_cons] at this
      omega))
  | _ => .ok ([item], behind)
termination_by 8 * tokens.length + 5
decreasing_by
  · omega
  · simp only [hb, List.length_cons] at this
    omega

-- A constant, a name, an expression in parentheses or one in an arithmetic scope.
def atom (tokens : List Token) : Parsed Expr tokens.length :=
  match tokens with
  | [] => .error (unexpected .expression [])
  | ⟨.ident name, span⟩ :: rest => .ok (.name ⟨name, span⟩ span, ⟨rest, by simp⟩)
  | ⟨.symbol .lparen, start⟩ :: rest => do
    let (inner, behind) ← operation 1 rest
    let (stop, left) ← expectSymbol .rparen behind.items
    .ok (inner.withSpan (start.hull stop), left.weaken (by
      have := behind.length_lt
      simp only [List.length_cons]
      omega))
  | ⟨kind, start⟩ :: rest =>
    match literal? kind with
    | some value => .ok (.literal value start, ⟨rest, by simp⟩)
    | none =>
      if kind = .keyword .checkedWord ∨ kind = .keyword .uncheckedWord then do
        let (_, opened) ← expectSymbol .lparen rest
        have := opened.length_lt
        let (inner, behind) ← operation 1 opened.items
        let (stop, left) ← expectSymbol .rparen behind.items
        .ok (.guarded (kind = .keyword .checkedWord) inner (start.hull stop), left.weaken (by
          have := behind.length_lt
          simp only [List.length_cons]
          omega))
      else .error (unexpected .expression (⟨kind, start⟩ :: rest))
termination_by 8 * tokens.length + 1
decreasing_by all_goals (simp only [List.length_cons]; omega)

end

def expression (tokens : List Token) : Parsed Expr tokens.length := operation 1 tokens

-- An expression with nothing behind it.
def wholeExpression (tokens : List Token) : Except SyntaxError Expr := do
  let (e, left) ← expression tokens
  let _ ← expect .eof left.items
  .ok e

-- Scripts

def usingDirective (start : Span) (tokens : List Token) : Parsed UsingDirective tokens.length := do
  let (first, behind) ← ident tokens
  match hb : behind.items with
  | ⟨.symbol .assign, _⟩ :: rest =>
    let (path, behindPath) ← dottedName rest
    let (stop, left) ← expectSymbol .semicolon behindPath.items
    .ok (⟨some first, path, start.hull stop⟩, left.weaken (by
      have := behind.length_lt
      have := behindPath.length_lt
      simp only [hb, List.length_cons] at *
      omega))
  | afterFirst =>
    let (names, behindPath) ← moreNames afterFirst
    let (stop, left) ← expectSymbol .semicolon behindPath.items
    .ok (⟨none, ⟨first, names⟩, start.hull stop⟩, left.weaken (by
      have := behind.length_lt
      have := behindPath.length_lt
      simp only [hb] at *
      omega))

def usingDirectives : (tokens : List Token) → Parsed (List UsingDirective) (tokens.length + 1)
  | ⟨.keyword .usingWord, start⟩ :: rest => do
    let (directive, behind) ← usingDirective start rest
    have := behind.length_lt
    let (directives, left) ← usingDirectives behind.items
    .ok (directive :: directives, left.weaken (by simp only [List.length_cons]; omega))
  | tokens => .ok ([], ⟨tokens, Nat.lt_succ_self _⟩)
termination_by tokens => tokens.length
decreasing_by
  simp only [List.length_cons]
  omega

def script (tokens : List Token) : Except SyntaxError Script := do
  let (usings, behind) ← usingDirectives tokens
  let body ← wholeExpression behind.items
  .ok ⟨usings, body⟩

end EventScript.Parser

namespace EventScript

-- Reads an expression that stands alone.
def parseExpression (source : String) : Except SyntaxError Expr := do
  Parser.wholeExpression (← tokenize source)

-- Reads a script: its directives, then one expression.
def parseScript (source : String) : Except SyntaxError Script := do
  Parser.script (← tokenize source)

end EventScript
