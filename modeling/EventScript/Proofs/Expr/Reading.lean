import EventScript.Expr.Parser
import Mathlib.Tactic.SplitIfs

namespace EventScript.Parser

variable {α β : Type} {m n : Nat}

-- What has been read and the tokens behind it, without the bound on their number.
def Parsed.plain : Parsed α n → Except SyntaxError (α × List Token)
  | .error e => .error e
  | .ok (a, left) => .ok (a, left.items)

@[simp] theorem plain_ok (a : α) (left : Rest Token n) :
    Parsed.plain (.ok (a, left)) = .ok (a, left.items) := rfl

@[simp] theorem plain_error (e : SyntaxError) : Parsed.plain (.error e : Parsed α n) = .error e :=
  rfl

@[simp] theorem items_weaken (left : Rest Token m) (h : m ≤ n) :
    (left.weaken h).items = left.items := rfl

theorem bind_eq_ok {x : Except SyntaxError α} {f : α → Except SyntaxError β} {b : β} :
    x >>= f = .ok b ↔ ∃ a, x = .ok a ∧ f a = .ok b := by
  cases x with
  | error e => simp [bind, Except.bind]
  | ok a => simp [bind, Except.bind]

theorem read_bind_eq_ok {x : Except SyntaxError (α × List Token)}
    {f : α × List Token → Except SyntaxError β} {b : β} :
    x >>= f = .ok b ↔ ∃ a left, x = .ok (a, left) ∧ f (a, left) = .ok b := by
  rw [bind_eq_ok, Prod.exists]

@[simp] theorem ok_bind (a : α) (f : α → Except SyntaxError β) : Except.ok a >>= f = f a := rfl

@[simp] theorem error_bind (e : SyntaxError) (f : α → Except SyntaxError β) :
    Except.error e >>= f = .error e := rfl

theorem exists_ok_of_any {x : Except SyntaxError α} {p : α → Bool}
    (h : x.toOption.any p = true) : ∃ a, x = .ok a ∧ p a = true := by
  cases x with
  | error e => cases h
  | ok a => exact ⟨a, rfl, h⟩

theorem length_lt_of_plain {p : Parsed α n} {a : α} {left : List Token}
    (h : p.plain = .ok (a, left)) : left.length < n := by
  cases p with
  | error e => cases h
  | ok result =>
      obtain ⟨a', left'⟩ := result
      obtain ⟨rfl, rfl⟩ := Prod.mk.inj (Except.ok.inj h)
      exact left'.length_lt

theorem plain_bind {p : Parsed α m} {f : α × Rest Token m → Parsed β n}
    {g : α × List Token → Except SyntaxError (β × List Token)}
    (h : ∀ a left, (f (a, left)).plain = g (a, left.items)) :
    Parsed.plain (p >>= f) = p.plain >>= g := by
  cases p with
  | error e => rfl
  | ok result => exact h result.1 result.2

-- A last step that only weakens the bound changes nothing.
theorem plain_bind_same {p : Parsed α m} {f : α × Rest Token m → Parsed α n}
    (h : ∀ a left, (f (a, left)).plain = .ok (a, left.items)) :
    Parsed.plain (p >>= f) = p.plain := by
  cases p with
  | error e => rfl
  | ok result => exact h result.1 result.2

theorem expect_plain_iff {kind : TokenKind} {tokens left : List Token} {span : Span} :
    (expect kind tokens).plain = .ok (span, left) ↔ tokens = ⟨kind, span⟩ :: left := by
  cases tokens with
  | nil => simp [expect]
  | cons token rest =>
      obtain ⟨found, place⟩ := token
      by_cases hk : found = kind
      · simp [expect, hk, eq_comm]
      · simp [expect, hk]

theorem ident_plain_iff {tokens left : List Token} {name : Ident} :
    (ident tokens).plain = .ok (name, left) ↔ tokens = ⟨.ident name.name, name.span⟩ :: left := by
  unfold ident
  split
  · simp only [plain_ok, Except.ok.injEq, Prod.mk.injEq]
    constructor
    · rintro ⟨rfl, rfl⟩
      rfl
    · intro h
      simp_all
  · rename_i hne
    simp only [plain_error, reduceCtorEq, false_iff]
    exact fun h => hne _ _ _ h

theorem moreNames_plain (tokens : List Token) :
    (moreNames tokens).plain = match tokens with
      | ⟨.symbol .dot, _⟩ :: rest => do
        let (name, behind) ← (ident rest).plain
        let (names, left) ← (moreNames behind).plain
        .ok (name :: names, left)
      | tokens => .ok ([], tokens) := by
  split
  · rw [moreNames]
    refine plain_bind fun name behind => ?_
    exact plain_bind fun names left => rfl
  · rename_i hne
    rw [moreNames]
    · rfl
    · exact hne

theorem eq_cons_of_peek {kind : TokenKind} {tokens : List Token} (h : (peek tokens).kind = kind)
    (hkind : kind ≠ .eof) : ∃ span rest, tokens = ⟨kind, span⟩ :: rest := by
  cases tokens with
  | nil => exact absurd h.symm hkind
  | cons token rest => exact ⟨token.span, rest, by rw [← h]; rfl⟩

theorem moreNames_stay {tokens : List Token} (h : (peek tokens).kind ≠ .symbol .dot) :
    (moreNames tokens).plain = .ok ([], tokens) := by
  rw [moreNames_plain]
  split
  · exact absurd rfl h
  · rfl

theorem dottedName_plain (tokens : List Token) :
    (dottedName tokens).plain = (do
      let (first, behind) ← (ident tokens).plain
      let (rest, left) ← (moreNames behind).plain
      .ok (⟨first, rest⟩, left)) := by
  refine plain_bind fun first behind => ?_
  exact plain_bind fun rest left => rfl

-- The type that ends here, and what is left behind a question mark that belongs to it.
def ended (path : DottedName) (arguments : List TypeName) (span : Span) :
    List Token → TypeName × List Token
  | ⟨.symbol .question, stop⟩ :: rest => (.mk path arguments true (span.hull stop), rest)
  | tokens => (.mk path arguments false span, tokens)

theorem ended_stay {path : DottedName} {arguments : List TypeName} {span : Span}
    {tokens : List Token} (h : (peek tokens).kind ≠ .symbol .question) :
    ended path arguments span tokens = (.mk path arguments false span, tokens) := by
  unfold ended
  split
  · exact absurd rfl h
  · rfl

theorem endType_plain (path : DottedName) (arguments : List TypeName) (span : Span)
    (left : Rest Token n) :
    Parsed.plain (.ok (endType path arguments span left)) =
      .ok (ended path arguments span left.items) := by
  obtain ⟨items, hlt⟩ := left
  simp only [endType]
  split
  · rfl
  · rename_i hne
    rw [ended]
    · rfl
    · exact hne

theorem typeName_plain (tokens : List Token) :
    (typeName tokens).plain = (do
      let (path, behind) ← (dottedName tokens).plain
      match behind with
      | ⟨.symbol .lt, _⟩ :: rest =>
        let (arguments, behindArguments) ← (typeArguments rest).plain
        let (stop, left) ← (expectSymbol .gt behindArguments).plain
        .ok (ended path arguments (path.span.hull stop) left)
      | behind => .ok (ended path [] path.span behind)) := by
  rw [typeName]
  refine plain_bind fun path behind => ?_
  dsimp only
  split
  · rename_i hb
    simp only [hb]
    refine plain_bind fun arguments behindArguments => ?_
    refine plain_bind fun stop left => ?_
    exact endType_plain _ _ _ _
  · rename_i hne
    rw [endType_plain]
    split
    · rename_i hb
      exact absurd hb (hne _ _)
    · rfl

theorem typeArguments_plain (tokens : List Token) :
    (typeArguments tokens).plain = (do
      let (argument, behind) ← (typeName tokens).plain
      match behind with
      | ⟨.symbol .comma, _⟩ :: rest =>
        let (arguments, left) ← (typeArguments rest).plain
        .ok (argument :: arguments, left)
      | behind => .ok ([argument], behind)) := by
  rw [typeArguments]
  refine plain_bind fun argument behind => ?_
  dsimp only
  split
  · rename_i hb
    simp only [hb]
    exact plain_bind fun arguments left => rfl
  · rename_i hne
    split
    · rename_i hb
      exact absurd hb (hne _ _)
    · rfl

-- A type in parentheses with an operand behind it: the type, the span, and the tokens that follow.
def cast? (tokens : List Token) : Option (TypeName × Span × List Token) :=
  (castType? tokens).map fun (type, span, left) => (type, span, left.items)

theorem length_lt_of_cast? {tokens left : List Token} {type : TypeName} {span : Span}
    (h : cast? tokens = some (type, span, left)) : left.length < tokens.length := by
  obtain ⟨⟨_, _, rest⟩, -, hrest⟩ := Option.map_eq_some_iff.mp h
  cases hrest
  exact rest.length_lt

theorem operation_plain (least : Nat) (tokens : List Token) :
    (operation least tokens).plain = (do
      let (left, behind) ← (operand tokens).plain
      (moreOperations least left behind).plain) := by
  rw [operation]
  refine plain_bind fun left behind => ?_
  exact plain_bind_same fun whole rest => rfl

theorem moreOperations_plain (least : Nat) (left : Expr) (tokens : List Token) :
    (moreOperations least left tokens).plain = match tokens with
      | [] => .ok (left, [])
      | ⟨kind, span⟩ :: rest =>
        if kind = .keyword .asWord then
          if least ≤ asPrecedence then do
            let (type, behind) ← (typeName rest).plain
            (moreOperations least (.asType left type (left.span.hull type.span)) behind).plain
          else .ok (left, ⟨kind, span⟩ :: rest)
        else
          match binaryOperator? kind with
          | none => .ok (left, ⟨kind, span⟩ :: rest)
          | some op =>
            if least ≤ op.precedence then do
              let (right, behind) ← (operation (op.precedence + 1) rest).plain
              (moreOperations least (.binary op left right (left.span.hull right.span))
                behind).plain
            else .ok (left, ⟨kind, span⟩ :: rest) := by
  cases tokens with
  | nil =>
      rw [moreOperations]
      rfl
  | cons token rest =>
      obtain ⟨kind, span⟩ := token
      rw [moreOperations]
      dsimp only
      split_ifs
      · refine plain_bind fun type behind => ?_
        exact plain_bind_same fun whole left => rfl
      · rfl
      · cases binaryOperator? kind with
        | none => rfl
        | some op =>
            dsimp only
            split_ifs
            · refine plain_bind fun right behind => ?_
              exact plain_bind_same fun whole left => rfl
            · rfl

theorem operand_plain (tokens : List Token) :
    (operand tokens).plain =
      match unaryOperator? (peek tokens).kind with
      | some op => do
        let (inner, left) ← (operand tokens.tail).plain
        .ok (.unary op inner ((peek tokens).span.hull inner.span), left)
      | none =>
        match cast? tokens with
        | some (type, span, behind) => do
          let (inner, left) ← (operand behind).plain
          .ok (.cast type inner (span.hull inner.span), left)
        | none => (atomChain tokens).plain := by
  cases tokens with
  | nil =>
      rw [operand]
      rfl
  | cons token rest =>
      obtain ⟨kind, span⟩ := token
      rw [operand]
      simp only [peek, List.tail_cons]
      cases unaryOperator? kind with
      | some op => exact plain_bind fun inner left => rfl
      | none =>
          simp only [cast?]
          cases castType? (⟨kind, span⟩ :: rest) with
          | none => rfl
          | some found => exact plain_bind fun inner left => rfl

theorem atomChain_plain (tokens : List Token) :
    (atomChain tokens).plain = (do
      let (first, behind) ← (atom tokens).plain
      (moreLinks first behind).plain) := by
  rw [atomChain]
  refine plain_bind fun first behind => ?_
  exact plain_bind_same fun whole rest => rfl

-- Arguments with the span of the sign behind them.
def enclosed (close : Symbol) (tokens : List Token) :
    Except SyntaxError ((List Expr × Span) × List Token) :=
  (arguments close tokens).map fun (items, stop, left) => ((items, stop), left.items)

theorem enclosed_bind {close : Symbol} {tokens : List Token}
    {f : List Expr × Span × Rest Token tokens.length → Parsed α n}
    {g : (List Expr × Span) × List Token → Except SyntaxError (α × List Token)}
    (h : ∀ items stop left, (f (items, stop, left)).plain = g ((items, stop), left.items)) :
    Parsed.plain (arguments close tokens >>= f) = enclosed close tokens >>= g := by
  unfold enclosed
  cases arguments close tokens with
  | error e => rfl
  | ok result => exact h result.1 result.2.1 result.2.2

theorem length_lt_of_enclosed {close : Symbol} {tokens left : List Token}
    {read : List Expr × Span} (h : enclosed close tokens = .ok (read, left)) :
    left.length < tokens.length := by
  unfold enclosed at h
  cases ha : arguments close tokens with
  | error e => rw [ha] at h; cases h
  | ok result =>
      rw [ha] at h
      obtain ⟨items, stop, rest⟩ := result
      obtain ⟨-, rfl⟩ := Prod.mk.inj (Except.ok.inj h)
      exact rest.length_lt

theorem moreLinks_plain (target : Expr) (tokens : List Token) :
    (moreLinks target tokens).plain = match tokens with
      | ⟨.symbol .dot, _⟩ :: rest => do
        let (name, behind) ← (ident rest).plain
        (moreLinks (.member target name (target.span.hull name.span)) behind).plain
      | ⟨.symbol .lparen, _⟩ :: rest => do
        let ((items, stop), behind) ← enclosed .rparen rest
        (moreLinks (.call target items (target.span.hull stop)) behind).plain
      | ⟨.symbol .lbracket, _⟩ :: rest => do
        let ((items, stop), behind) ← enclosed .rbracket rest
        if items.isEmpty then .error ⟨.emptyIndex, stop⟩
        else (moreLinks (.index target items (target.span.hull stop)) behind).plain
      | tokens => .ok (target, tokens) := by
  split
  · rw [moreLinks]
    refine plain_bind fun name behind => ?_
    exact plain_bind_same fun whole left => rfl
  · rw [moreLinks]
    refine enclosed_bind fun items stop behind => ?_
    exact plain_bind_same fun whole left => rfl
  · rw [moreLinks]
    refine enclosed_bind fun items stop behind => ?_
    dsimp only
    split
    · rfl
    · exact plain_bind_same fun whole left => rfl
  · rename_i hdot hcall hindex
    rw [moreLinks]
    · rfl
    · exact hdot
    · exact hcall
    · exact hindex

-- The signs of member accesses, calls and indexings.
def startsLink : TokenKind → Bool
  | .symbol .dot | .symbol .lparen | .symbol .lbracket => true
  | _ => false

theorem moreLinks_stay {target : Expr} {tokens : List Token}
    (h : startsLink (peek tokens).kind = false) :
    (moreLinks target tokens).plain = .ok (target, tokens) := by
  rw [moreLinks_plain]
  split
  · cases h
  · cases h
  · cases h
  · rfl

theorem enclosed_eq (close : Symbol) (tokens : List Token) :
    enclosed close tokens =
      if (peek tokens).kind = .symbol close then (do
        let (stop, left) ← (expectSymbol close tokens).plain
        .ok (([], stop), left))
      else (do
        let (items, behind) ← (argumentList tokens).plain
        let (stop, left) ← (expectSymbol close behind).plain
        .ok ((items, stop), left)) := by
  unfold enclosed
  rw [arguments]
  split
  · cases expectSymbol close tokens <;> rfl
  · cases argumentList tokens with
    | error e => rfl
    | ok result =>
        obtain ⟨items, behind⟩ := result
        simp only [ok_bind, plain_ok]
        cases expectSymbol close behind.items <;> rfl

theorem argumentList_plain (tokens : List Token) :
    (argumentList tokens).plain = (do
      let (item, behind) ← (operation 1 tokens).plain
      match behind with
      | ⟨.symbol .comma, _⟩ :: rest =>
        let (items, left) ← (argumentList rest).plain
        .ok (item :: items, left)
      | behind => .ok ([item], behind)) := by
  rw [argumentList]
  refine plain_bind fun item behind => ?_
  dsimp only
  split
  · rename_i hb
    simp only [hb]
    exact plain_bind fun items left => rfl
  · rename_i hne
    split
    · rename_i hb
      exact absurd hb (hne _ _)
    · rfl

theorem atom_other {kind : TokenKind} {start : Span} {rest : List Token}
    (hident : ∀ name, kind = .ident name → False) (hparen : kind = .symbol .lparen → False) :
    (atom (⟨kind, start⟩ :: rest)).plain = match literal? kind with
      | some value => .ok (.literal value start, rest)
      | none =>
        if kind = .keyword .checkedWord ∨ kind = .keyword .uncheckedWord then do
          let (_, opened) ← (expectSymbol .lparen rest).plain
          let (inner, behind) ← (operation 1 opened).plain
          let (stop, left) ← (expectSymbol .rparen behind).plain
          .ok (.guarded (kind = .keyword .checkedWord) inner (start.hull stop), left)
        else .error (unexpected .expression (⟨kind, start⟩ :: rest)) := by
  rw [atom]
  · cases literal? kind with
    | some value => rfl
    | none =>
        dsimp only
        split_ifs
        · refine plain_bind fun place opened => ?_
          refine plain_bind fun inner behind => ?_
          exact plain_bind fun stop left => rfl
        · rfl
  · exact hident
  · exact hparen

theorem atom_plain (tokens : List Token) :
    (atom tokens).plain = match tokens with
      | [] => .error (unexpected .expression [])
      | ⟨.ident name, span⟩ :: rest => .ok (.name ⟨name, span⟩ span, rest)
      | ⟨.symbol .lparen, start⟩ :: rest => do
        let (inner, behind) ← (operation 1 rest).plain
        let (stop, left) ← (expectSymbol .rparen behind).plain
        .ok (inner.withSpan (start.hull stop), left)
      | ⟨kind, start⟩ :: rest =>
        match literal? kind with
        | some value => .ok (.literal value start, rest)
        | none =>
          if kind = .keyword .checkedWord ∨ kind = .keyword .uncheckedWord then do
            let (_, opened) ← (expectSymbol .lparen rest).plain
            let (inner, behind) ← (operation 1 opened).plain
            let (stop, left) ← (expectSymbol .rparen behind).plain
            .ok (.guarded (kind = .keyword .checkedWord) inner (start.hull stop), left)
          else .error (unexpected .expression (⟨kind, start⟩ :: rest)) := by
  split
  · rw [atom]
    rfl
  · rw [atom]
    rfl
  · rw [atom]
    refine plain_bind fun inner behind => ?_
    exact plain_bind fun stop left => rfl
  · rename_i kind start rest hident hparen
    exact atom_other hident hparen

theorem cast?_eq (tokens : List Token) :
    cast? tokens = match tokens with
      | ⟨.symbol .lparen, start⟩ :: rest =>
        match (typeName rest).plain with
        | .error _ => none
        | .ok (type, behind) =>
          match behind with
          | ⟨.symbol .rparen, stop⟩ :: left =>
            if startsCastOperand (peek left).kind then some (type, start.hull stop, left) else none
          | _ => none
      | _ => none := by
  unfold cast?
  split
  · simp only [castType?]
    cases typeName _ with
    | error e => rfl
    | ok result =>
        obtain ⟨type, behind⟩ := result
        simp only [plain_ok]
        split
        · rename_i hb
          simp only [hb]
          split <;> rfl
        · rename_i hne
          split
          · rename_i hb
            exact absurd hb (hne _ _)
          · rfl
  · rename_i hne
    rw [castType?]
    · rfl
    · exact hne

theorem cast?_eq_some {tokens left : List Token} {type : TypeName} {span : Span} :
    cast? tokens = some (type, span, left) ↔ ∃ opened closed rest,
      tokens = ⟨.symbol .lparen, opened⟩ :: rest ∧
        (typeName rest).plain = .ok (type, ⟨.symbol .rparen, closed⟩ :: left) ∧
        startsCastOperand (peek left).kind = true ∧ opened.hull closed = span := by
  rw [cast?_eq]
  constructor
  · intro h
    split at h
    · rename_i opened rest
      split at h
      · cases h
      · rename_i type behind hread
        split at h
        · rename_i closed left
          obtain ⟨hstarts, hfound⟩ := Option.ite_none_right_eq_some.mp h
          cases hfound
          exact ⟨opened, closed, rest, rfl, hread, hstarts, rfl⟩
        · cases h
    · cases h
  · rintro ⟨opened, closed, rest, rfl, hread, hstarts, rfl⟩
    dsimp only
    rw [hread]
    exact if_pos hstarts

theorem wholeExpression_eq (tokens : List Token) :
    wholeExpression tokens = (do
      let (e, left) ← (operation 1 tokens).plain
      let _ ← (expect .eof left).plain
      .ok e) := by
  unfold wholeExpression expression
  cases operation 1 tokens with
  | error e => rfl
  | ok result =>
      obtain ⟨e, left⟩ := result
      simp only [ok_bind, plain_ok]
      cases expect .eof left.items <;> rfl

theorem usingDirective_plain (start : Span) (tokens : List Token) :
    (usingDirective start tokens).plain = (do
      let (first, behind) ← (ident tokens).plain
      match behind with
      | ⟨.symbol .assign, _⟩ :: rest =>
        let (path, behindPath) ← (dottedName rest).plain
        let (stop, left) ← (expectSymbol .semicolon behindPath).plain
        .ok (⟨some first, path, start.hull stop⟩, left)
      | behind =>
        let (names, behindPath) ← (moreNames behind).plain
        let (stop, left) ← (expectSymbol .semicolon behindPath).plain
        .ok (⟨none, ⟨first, names⟩, start.hull stop⟩, left)) := by
  rw [usingDirective]
  refine plain_bind fun first behind => ?_
  dsimp only
  split
  · rename_i hb
    simp only [hb]
    refine plain_bind fun path behindPath => ?_
    exact plain_bind fun stop left => rfl
  · rename_i hne
    split
    · rename_i hb
      exact absurd hb (hne _ _)
    · refine plain_bind fun names behindPath => ?_
      exact plain_bind fun stop left => rfl

theorem usingDirectives_plain (tokens : List Token) :
    (usingDirectives tokens).plain = match tokens with
      | ⟨.keyword .usingWord, start⟩ :: rest => do
        let (directive, behind) ← (usingDirective start rest).plain
        let (directives, left) ← (usingDirectives behind).plain
        .ok (directive :: directives, left)
      | tokens => .ok ([], tokens) := by
  split
  · rw [usingDirectives]
    refine plain_bind fun directive behind => ?_
    exact plain_bind fun directives left => rfl
  · rename_i hne
    rw [usingDirectives]
    · rfl
    · exact hne

theorem usingDirectives_stay {tokens : List Token}
    (h : (peek tokens).kind ≠ .keyword .usingWord) :
    (usingDirectives tokens).plain = .ok ([], tokens) := by
  rw [usingDirectives_plain]
  split
  · exact absurd rfl h
  · rfl

theorem script_eq (tokens : List Token) :
    script tokens = (do
      let (usings, behind) ← (usingDirectives tokens).plain
      let body ← wholeExpression behind
      .ok ⟨usings, body⟩) := by
  unfold script
  cases usingDirectives tokens <;> rfl

end EventScript.Parser
