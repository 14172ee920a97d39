import EventScript.Proofs.Expr.Directives
import EventScript.Proofs.Expr.Layout
import EventScript.Proofs.Expr.Literals

namespace EventScript

open Lexer

-- A token whose written form is read as the token itself.
def Token.Printable (token : Token) : Prop :=
  WellSpelled token.kind ∧
    ∀ value, Parser.literal? token.kind = some value → value.LexesBack

def Printable (tokens : List Token) : Prop := ∀ token ∈ tokens, token.Printable

@[simp] theorem printable_cons {token : Token} {tokens : List Token} :
    Printable (token :: tokens) ↔ token.Printable ∧ Printable tokens :=
  List.forall_mem_cons

@[simp] theorem printable_append {tokens others : List Token} :
    Printable (tokens ++ others) ↔ Printable tokens ∧ Printable others :=
  List.forall_mem_append

theorem Symbol.printable_token (sign : Symbol) (span : Span) : (sign.token span).Printable :=
  ⟨trivial, fun _ hvalue => by cases hvalue⟩

-- Names and types

theorem spells_token {ident : Ident} (h : ident.token.Printable) :
    Spells ident.name.toList [.ident ident.name] := spells_ident h.1

namespace ConcretePath

theorem render_cons (first : Ident) (dot : Span) (second : Ident) (rest : List (Span × Ident)) :
    (ConcretePath.mk first ((dot, second) :: rest)).erase.render.toList =
      first.name.toList ++ (Symbol.dot.text.toList ++
        (ConcretePath.mk second rest).erase.render.toList) := by
  simp [erase, DottedName.render, DottedName.idents, Symbol.text]

theorem render_first (first : Ident) (rest : List (Span × Ident)) :
    ∃ text, (ConcretePath.mk first rest).erase.render.toList = first.name.toList ++ text := by
  cases rest with
  | nil => exact ⟨[], by simp [erase, DottedName.render, DottedName.idents]⟩
  | cons second rest => exact ⟨_, render_cons first second.1 second.2 rest⟩

theorem spells_render (path : ConcretePath) (h : Printable path.yield) :
    Spells path.erase.render.toList (kinds path.yield) := by
  obtain ⟨first, rest⟩ := path
  induction rest generalizing first with
  | nil =>
      have hfirst := spells_token (printable_cons.mp h).1
      simpa [erase, DottedName.render, DottedName.idents, yield, yieldRest, kinds, Ident.token]
        using hfirst
  | cons second rest ih =>
      obtain ⟨dot, second⟩ := second
      simp only [yield, yieldRest, List.flatMap_cons, printable_cons, printable_append] at h
      obtain ⟨hfirst, ⟨-, hsecond, -⟩, hrest⟩ := h
      have hspells := ih second (printable_cons.mpr ⟨hsecond, hrest⟩)
      obtain ⟨text, htext⟩ := render_first second rest
      have hoff : BreaksOff (Symbol.dot.text.toList ++
          (ConcretePath.mk second rest).erase.render.toList) := by
        rw [htext]
        show BreaksOff ('.' :: second.name.toList ++ text)
        exact breaksOff_point hsecond.1.1
      rw [render_cons]
      have hall := (spells_token hfirst).append (hspells.sign .dot rfl) hoff
      simpa [yield, yieldRest, kinds, Ident.token, Symbol.token] using hall

theorem printable (path : ConcretePath)
    (h : ∀ ident ∈ path.erase.idents, WellSpelled (.ident ident.name)) : Printable path.yield := by
  intro token ht
  simp only [yield, yieldRest, List.mem_cons, List.mem_flatMap, List.not_mem_nil, or_false] at ht
  obtain rfl | ⟨⟨dot, ident⟩, hident, rfl | rfl⟩ := ht
  · exact ⟨h _ List.mem_cons_self, fun _ hvalue => by cases hvalue⟩
  · exact Symbol.printable_token .dot dot
  · refine ⟨h ident (List.mem_cons_of_mem _ ?_), fun _ hvalue => by cases hvalue⟩
    exact List.mem_map.mpr ⟨(dot, ident), hident, rfl⟩

end ConcretePath

theorem TypeName.render_marked (path : DottedName) (arguments : List TypeName) (span : Span)
    (question : Option Span) :
    (TypeName.marked path arguments span question).render.toList =
      path.render.toList ++ ((if arguments.isEmpty then [] else
        Symbol.lt.text.toList ++ ((commaSeparated (arguments.map TypeName.render)).toList ++
          Symbol.gt.text.toList)) ++
        question.elim [] fun _ => Symbol.question.text.toList) := by
  rw [marked, render]
  cases question <;> cases arguments <;> simp [Symbol.text, commaSeparated]

theorem commaSeparated_singleton (item : String) : commaSeparated [item] = item :=
  String.intercalate_singleton

theorem commaSeparated_cons_cons (first second : String) (rest : List String) :
    (commaSeparated (first :: second :: rest)).toList =
      first.toList ++ (Symbol.comma.text.toList ++
        ' ' :: (commaSeparated (second :: rest)).toList) := by
  simp only [commaSeparated, String.intercalate_cons_cons, String.toList_append, List.append_assoc]
  rfl

-- Items with commas between them are split if each of them is.
theorem spells_commaSeparated {first : String} {rest : List String}
    {spelled others : List TokenKind}
    (hfirst : Spells first.toList spelled) (hne : rest ≠ [])
    (hrest : Spells (commaSeparated rest).toList others) :
    Spells (commaSeparated (first :: rest)).toList (spelled ++ .symbol .comma :: others) := by
  cases rest with
  | nil => exact absurd rfl hne
  | cons second rest =>
      rw [commaSeparated_cons_cons]
      exact hfirst.append (hrest.space.sign .comma rfl) (breaksOff_sign .comma rfl _)

mutual

theorem ConcreteType.spells_render (type : ConcreteType) (h : Printable type.yield) :
    Spells type.erase.render.toList (kinds type.yield) := by
  match type with
  | .simple path question =>
      have hpath := path.spells_render (printable_append.mp h).1
      cases question with
      | none =>
          simpa [ConcreteType.erase, ConcreteType.yield, TypeName.render_marked, questionYield]
            using hpath
      | some question =>
          have hall := hpath.append (spells_sign .question rfl) (breaksOff_text .question rfl)
          simpa [ConcreteType.erase, ConcreteType.yield, TypeName.render_marked, questionYield,
            Symbol.token] using hall
  | .generic path opened arguments closed question =>
      simp only [ConcreteType.yield, printable_append, printable_cons] at h
      obtain ⟨⟨hpath, -, harguments⟩, -, -⟩ := h
      have hsome : arguments.erase.isEmpty = false := by cases arguments <;> rfl
      have hpath := path.spells_render hpath
      have harguments := arguments.spells_render harguments
      rw [ConcreteType.erase, TypeName.render_marked, hsome, if_neg Bool.false_ne_true]
      cases question with
      | none =>
          have hinner := harguments.append (spells_sign .gt rfl) (breaksOff_text .gt rfl)
          have hall := hpath.append (hinner.sign .lt rfl) (breaksOff_sign .lt rfl _)
          simpa [ConcreteType.yield, questionYield, Symbol.token] using hall
      | some question =>
          have hend := (spells_sign .question rfl).sign .gt rfl
          have hinner := harguments.append hend (breaksOff_sign .gt rfl _)
          have hall := hpath.append (hinner.sign .lt rfl) (breaksOff_sign .lt rfl _)
          simpa [ConcreteType.yield, questionYield, Symbol.token] using hall

theorem ConcreteTypes.spells_render (types : ConcreteTypes) (h : Printable types.yield) :
    Spells (commaSeparated (types.erase.map TypeName.render)).toList (kinds types.yield) := by
  match types with
  | .last type =>
      show Spells (commaSeparated [type.erase.render]).toList (kinds type.yield)
      rw [commaSeparated_singleton]
      exact type.spells_render h
  | .more type comma rest =>
      simp only [ConcreteTypes.yield, printable_append, printable_cons] at h
      have hne : rest.erase.map TypeName.render ≠ [] := by cases rest <;> exact nofun
      have hkinds : kinds (ConcreteTypes.more type comma rest).yield =
          kinds type.yield ++ .symbol .comma :: kinds rest.yield := kinds_append _ _
      rw [hkinds]
      exact spells_commaSeparated (type.spells_render h.1) hne (rest.spells_render h.2.2)

end

-- Expressions

mutual

-- The form that is printed: every operator and cast in parentheses of its own, and no others.
def ConcreteExpr.bracketed : ConcreteExpr → ConcreteExpr
  | .literal value span => .literal value span
  | .name ident => .name ident
  | .paren _ inner _ => inner.bracketed
  | .member target dot name => .member target.bracketed dot name
  | .emptyCall callee opened closed => .emptyCall callee.bracketed opened closed
  | .call callee opened arguments closed => .call callee.bracketed opened arguments.bracketed closed
  | .index target opened arguments closed =>
    .index target.bracketed opened arguments.bracketed closed
  | .unary op sign operand => .paren .none (.unary op sign operand.bracketed) .none
  | .binary op left sign right =>
    .paren .none (.binary op left.bracketed sign right.bracketed) .none
  | .cast opened type closed operand =>
    .paren .none (.cast opened type closed operand.bracketed) .none
  | .asType operand word type => .paren .none (.asType operand.bracketed word type) .none
  | .guarded checked word opened inner closed => .guarded checked word opened inner.bracketed closed

def ConcreteExprs.bracketed : ConcreteExprs → ConcreteExprs
  | .last e => .last e.bracketed
  | .more e comma rest => .more e.bracketed comma rest.bracketed

end

namespace ConcreteExpr

theorem isAs_of_isOperation {e : ConcreteExpr} (h : e.isOperation = false) : e.isAs = false := by
  cases e <;> first | rfl | cases h

theorem isOperation_bracketed (e : ConcreteExpr) : e.bracketed.isOperation = false := by
  match e with
  | paren _ inner _ => exact inner.isOperation_bracketed
  | literal .. | name .. | member .. | emptyCall .. | call .. | index .. | unary .. | binary ..
  | cast .. | asType .. | guarded .. => rfl

theorem isPrefixed_bracketed (e : ConcreteExpr) : e.bracketed.isPrefixed = false := by
  match e with
  | paren _ inner _ => exact inner.isPrefixed_bracketed
  | literal .. | name .. | member .. | emptyCall .. | call .. | index .. | unary .. | binary ..
  | cast .. | asType .. | guarded .. => rfl

theorem startsCastOperand_bracketed (e : ConcreteExpr) :
    Parser.startsCastOperand (Parser.peek e.bracketed.yield).kind = true := by
  match e with
  | literal value _ =>
      cases value with
      | bool value => cases value <;> rfl
      | _ => rfl
  | name _ | unary .. | binary .. | cast .. | asType .. => rfl
  | guarded checked _ _ _ _ => cases checked <;> rfl
  | paren _ inner _ => exact inner.startsCastOperand_bracketed
  | member target _ _ | emptyCall target _ _ =>
      rw [bracketed, yield, target.bracketed.peek_yield_append]
      exact target.startsCastOperand_bracketed
  | call target _ _ _ | index target _ _ _ =>
      rw [bracketed, yield, List.append_assoc, target.bracketed.peek_yield_append]
      exact target.startsCastOperand_bracketed

end ConcreteExpr

mutual

theorem ConcreteExpr.grouped_bracketed (e : ConcreteExpr) : e.bracketed.Grouped := by
  match e with
  | .literal .. | .name .. => trivial
  | .paren _ inner _ | .guarded _ _ _ inner _ => exact inner.grouped_bracketed
  | .member target _ _ | .emptyCall target _ _ =>
      exact ⟨target.grouped_bracketed, target.isOperation_bracketed, target.isPrefixed_bracketed⟩
  | .call target _ arguments _ | .index target _ arguments _ =>
      exact ⟨target.grouped_bracketed, target.isOperation_bracketed, target.isPrefixed_bracketed,
        arguments.grouped_bracketed⟩
  | .unary _ _ operand | .cast _ _ _ operand =>
      exact ⟨operand.grouped_bracketed, operand.isOperation_bracketed⟩
  | .binary op left _ right =>
      have hleft := ConcreteExpr.readAt_of_isOperation op.precedence left.isOperation_bracketed
      have hright :=
        ConcreteExpr.readAt_of_isOperation (op.precedence + 1) right.isOperation_bracketed
      have has := ConcreteExpr.isAs_of_isOperation right.isOperation_bracketed
      exact ⟨left.grouped_bracketed, right.grouped_bracketed, hleft.bindsAtLeast,
        hright.bindsAtLeast, fun _ => has⟩
  | .asType operand _ _ =>
      have hat :=
        ConcreteExpr.readAt_of_isOperation Parser.asPrecedence operand.isOperation_bracketed
      exact ⟨operand.grouped_bracketed, hat.bindsAtLeast⟩

theorem ConcreteExprs.grouped_bracketed (es : ConcreteExprs) : es.bracketed.Grouped := by
  match es with
  | .last e => exact e.grouped_bracketed
  | .more e _ rest => exact ⟨e.grouped_bracketed, rest.grouped_bracketed⟩

end

mutual

-- Parentheses hold operators and casts alone, so none is taken for a cast.
theorem ConcreteExpr.readable_bracketed (e : ConcreteExpr) (next : TokenKind) :
    e.bracketed.Readable next := by
  match e with
  | .literal .. | .name .. => trivial
  | .paren _ inner _ => exact inner.readable_bracketed next
  | .guarded _ _ _ inner _ => exact inner.readable_bracketed _
  | .member target _ _ | .emptyCall target _ _ => exact target.readable_bracketed _
  | .call target _ arguments _ | .index target _ arguments _ =>
      exact ⟨target.readable_bracketed _, arguments.readable_bracketed _⟩
  | .unary _ _ operand => exact ⟨operand.readable_bracketed _, nofun⟩
  | .cast _ _ _ operand =>
      exact ⟨⟨operand.readable_bracketed _, operand.startsCastOperand_bracketed⟩, nofun⟩
  | .binary op left _ right =>
      exact ⟨⟨left.readable_bracketed _, right.readable_bracketed _,
        ConcreteExpr.readAt_of_isOperation _ right.isOperation_bracketed⟩, nofun⟩
  | .asType operand _ type =>
      exact ⟨⟨operand.readable_bracketed _, type.endsBefore nofun nofun nofun⟩, nofun⟩

theorem ConcreteExprs.readable_bracketed (es : ConcreteExprs) (close : TokenKind) :
    es.bracketed.Readable close := by
  match es with
  | .last e => exact e.readable_bracketed _
  | .more e _ rest => exact ⟨e.readable_bracketed _, rest.readable_bracketed _⟩

end

mutual

theorem ConcreteExpr.eraseSpans_bracketed (e : ConcreteExpr) :
    e.bracketed.erase.eraseSpans = e.erase.eraseSpans := by
  match e with
  | .literal .. | .name .. => rfl
  | .paren _ inner _ =>
      simp only [ConcreteExpr.bracketed, ConcreteExpr.erase, Expr.eraseSpans_withSpan,
        inner.eraseSpans_bracketed]
  | .member target _ _ | .emptyCall target _ _ =>
      simp only [ConcreteExpr.bracketed, ConcreteExpr.erase, Expr.eraseSpans,
        target.eraseSpans_bracketed]
  | .call target _ arguments _ | .index target _ arguments _ =>
      simp only [ConcreteExpr.bracketed, ConcreteExpr.erase, Expr.eraseSpans,
        target.eraseSpans_bracketed, arguments.eraseSpans_bracketed]
  | .unary _ _ operand | .cast _ _ _ operand | .asType operand _ _ =>
      simp only [ConcreteExpr.bracketed, ConcreteExpr.erase, Expr.eraseSpans_withSpan,
        Expr.eraseSpans, operand.eraseSpans_bracketed]
  | .binary _ left _ right =>
      simp only [ConcreteExpr.bracketed, ConcreteExpr.erase, Expr.eraseSpans_withSpan,
        Expr.eraseSpans, left.eraseSpans_bracketed, right.eraseSpans_bracketed]
  | .guarded _ _ _ inner _ =>
      simp only [ConcreteExpr.bracketed, ConcreteExpr.erase, Expr.eraseSpans,
        inner.eraseSpans_bracketed]

theorem ConcreteExprs.eraseSpans_bracketed (es : ConcreteExprs) :
    es.bracketed.erase.map Expr.eraseSpans = es.erase.map Expr.eraseSpans := by
  match es with
  | .last e =>
      simp only [ConcreteExprs.bracketed, ConcreteExprs.erase, List.map_cons, List.map_nil,
        e.eraseSpans_bracketed]
  | .more e _ rest =>
      simp only [ConcreteExprs.bracketed, ConcreteExprs.erase, List.map_cons,
        e.eraseSpans_bracketed, rest.eraseSpans_bracketed]

end

theorem Expr.render_withSpan (span : Span) (e : Expr) : (e.withSpan span).render = e.render := by
  cases e <;> simp only [withSpan, render]

theorem BinaryOperator.text_sign (op : BinaryOperator) : op.sign.text = op.symbol := by
  cases op <;> rfl

theorem UnaryOperator.text_sign (op : UnaryOperator) : op.sign.text = op.symbol := by
  cases op <;> rfl

theorem text_scopeWord (checked : Bool) :
    (scopeWord checked).text = if checked then "checked" else "unchecked" := by
  cases checked <;> rfl

namespace Lexer.Spells

variable {text : List Char} {spelled : List TokenKind}

-- Parentheses around a text.
theorem enclosed (h : Spells text spelled) (opened closed : Symbol)
    (hopened : opensAfterSign opened = true) (hclosed : opensAfterSign closed = true)
    (hbreaks : breaksSign closed = true) :
    Spells (opened.text.toList ++ (text ++ closed.text.toList))
      (.symbol opened :: (spelled ++ [.symbol closed])) :=
  (h.append (spells_sign closed hclosed) (breaksOff_text closed hbreaks)).sign opened hopened

theorem inParens (h : Spells text spelled) :
    Spells (Symbol.lparen.text.toList ++ (text ++ Symbol.rparen.text.toList))
      (.symbol .lparen :: (spelled ++ [.symbol .rparen])) :=
  h.enclosed .lparen .rparen rfl rfl rfl

theorem inBrackets (h : Spells text spelled) :
    Spells (Symbol.lbracket.text.toList ++ (text ++ Symbol.rbracket.text.toList))
      (.symbol .lbracket :: (spelled ++ [.symbol .rbracket])) :=
  h.enclosed .lbracket .rbracket rfl rfl rfl

end Lexer.Spells

mutual

theorem ConcreteExpr.spells_render (e : ConcreteExpr) (h : Printable e.yield) :
    Spells e.erase.render.toList (kinds e.bracketed.yield) := by
  match e with
  | .literal value span =>
      have htoken : Token.Printable ⟨value.kind, span⟩ := (printable_cons.mp h).1
      rw [ConcreteExpr.erase, Expr.render]
      exact spells_literal htoken.1 (htoken.2 value value.literal?_kind)
  | .name ident =>
      rw [ConcreteExpr.erase, Expr.render]
      exact spells_token (printable_cons.mp h).1
  | .paren _ inner _ =>
      simp only [ConcreteExpr.yield, printable_append, printable_cons] at h
      rw [ConcreteExpr.erase, Expr.render_withSpan]
      exact inner.spells_render h.1.2
  | .member target dot name =>
      simp only [ConcreteExpr.yield, printable_append, printable_cons] at h
      obtain ⟨htarget, -, hname, -⟩ := h
      have hoff : BreaksOff (Symbol.dot.text.toList ++ name.name.toList) := by
        have hpoint : BreaksOff ('.' :: name.name.toList ++ []) := breaksOff_point hname.1.1
        rwa [List.append_nil] at hpoint
      have hall := (target.spells_render htarget).append ((spells_token hname).sign .dot rfl) hoff
      simpa [ConcreteExpr.erase, Expr.render, ConcreteExpr.bracketed, ConcreteExpr.yield,
        Symbol.token, Ident.token, Symbol.text] using hall
  | .emptyCall callee _ _ =>
      simp only [ConcreteExpr.yield, printable_append] at h
      have hend := (spells_sign .rparen rfl).sign .lparen rfl
      have hall := (callee.spells_render h.1).append hend (breaksOff_sign .lparen rfl _)
      simpa [ConcreteExpr.erase, Expr.render, ConcreteExpr.bracketed, ConcreteExpr.yield,
        Symbol.token, Symbol.text, commaSeparated] using hall
  | .call callee _ arguments _ =>
      simp only [ConcreteExpr.yield, printable_append, printable_cons] at h
      obtain ⟨⟨hcallee, -, harguments⟩, -⟩ := h
      have hend := (arguments.spells_render harguments).inParens
      have hall := (callee.spells_render hcallee).append hend (breaksOff_sign .lparen rfl _)
      simpa [ConcreteExpr.erase, Expr.render, ConcreteExpr.bracketed, ConcreteExpr.yield,
        Symbol.token, Symbol.text] using hall
  | .index target _ arguments _ =>
      simp only [ConcreteExpr.yield, printable_append, printable_cons] at h
      obtain ⟨⟨htarget, -, harguments⟩, -⟩ := h
      have hend := (arguments.spells_render harguments).inBrackets
      have hall := (target.spells_render htarget).append hend (breaksOff_sign .lbracket rfl _)
      simpa [ConcreteExpr.erase, Expr.render, ConcreteExpr.bracketed, ConcreteExpr.yield,
        Symbol.token, Symbol.text] using hall
  | .unary op _ operand =>
      have hoperand := operand.spells_render (printable_cons.mp h).2
      have hall := (hoperand.sign op.sign (by cases op <;> rfl)).inParens
      rw [op.text_sign] at hall
      simpa [ConcreteExpr.erase, Expr.render, ConcreteExpr.bracketed, ConcreteExpr.yield,
        Symbol.token, Symbol.text] using hall
  | .binary op left _ right =>
      simp only [ConcreteExpr.yield, printable_append, printable_cons] at h
      have hright := (right.spells_render h.2.2).operator op.sign
      have hall := ((left.spells_render h.1).append hright
        (breaksOff_cons rfl (by decide))).inParens
      rw [op.text_sign] at hall
      simpa [ConcreteExpr.erase, Expr.render, ConcreteExpr.bracketed, ConcreteExpr.yield,
        Symbol.token, Symbol.text] using hall
  | .cast _ type _ operand =>
      simp only [ConcreteExpr.yield, printable_append, printable_cons] at h
      obtain ⟨⟨-, htype⟩, -, hoperand⟩ := h
      have htype := (type.spells_render htype).inParens
      have hoperand := (operand.spells_render hoperand).space
      have hall := (htype.append hoperand (breaksOff_cons rfl (by decide))).inParens
      simpa [ConcreteExpr.erase, Expr.render, ConcreteExpr.bracketed, ConcreteExpr.yield,
        Symbol.token, Symbol.text] using hall
  | .asType operand _ type =>
      simp only [ConcreteExpr.yield, printable_append, printable_cons] at h
      have htype := (type.spells_render h.2.2).space
      have hword := ((spells_keyword .asWord).append htype (breaksOff_cons rfl (by decide))).space
      have hall := ((operand.spells_render h.1).append hword
        (breaksOff_cons rfl (by decide))).inParens
      simpa [ConcreteExpr.erase, Expr.render, ConcreteExpr.bracketed, ConcreteExpr.yield,
        Symbol.token, Keyword.token, Symbol.text, Keyword.text] using hall
  | .guarded checked _ _ inner _ =>
      simp only [ConcreteExpr.yield, printable_append, printable_cons] at h
      obtain ⟨⟨-, -, hinner⟩, -⟩ := h
      have hinner := (inner.spells_render hinner).inParens
      have hall := (spells_keyword (scopeWord checked)).append hinner
        (breaksOff_sign .lparen rfl _)
      simpa [ConcreteExpr.erase, Expr.render, ConcreteExpr.bracketed, ConcreteExpr.yield,
        Symbol.token, Keyword.token, Symbol.text, text_scopeWord] using hall

theorem ConcreteExprs.spells_render (es : ConcreteExprs) (h : Printable es.yield) :
    Spells (commaSeparated (es.erase.map Expr.render)).toList (kinds es.bracketed.yield) := by
  match es with
  | .last e =>
      show Spells (commaSeparated [e.erase.render]).toList (kinds e.bracketed.yield)
      rw [commaSeparated_singleton]
      exact e.spells_render h
  | .more e comma rest =>
      simp only [ConcreteExprs.yield, printable_append, printable_cons] at h
      have hne : rest.erase.map Expr.render ≠ [] := by cases rest <;> exact nofun
      have hkinds : kinds (ConcreteExprs.more e comma rest).bracketed.yield =
          kinds e.bracketed.yield ++ .symbol .comma :: kinds rest.bracketed.yield :=
        kinds_append _ _
      rw [hkinds]
      exact spells_commaSeparated (e.spells_render h.1) hne (rest.spells_render h.2.2)

end

end EventScript
