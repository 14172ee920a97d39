import EventScript.Expr.Parser
import EventScript.Proofs.Expr.Printing

namespace EventScript

open Lexer EventScript.Parser

mutual

-- The constants of an expression, from left to right.
def Expr.literals : Expr → List Literal
  | .literal value _ => [value]
  | .name _ _ => []
  | .member target _ _ => target.literals
  | .call target arguments _ | .index target arguments _ =>
    target.literals ++ Expr.literalsOf arguments
  | .unary _ operand _ | .cast _ operand _ | .asType operand _ _ | .guarded _ operand _ =>
    operand.literals
  | .binary _ left right _ => left.literals ++ right.literals

def Expr.literalsOf : List Expr → List Literal
  | [] => []
  | e :: rest => e.literals ++ Expr.literalsOf rest

end

theorem Expr.literals_withSpan (span : Span) (e : Expr) :
    (e.withSpan span).literals = e.literals := by
  cases e <;> simp only [withSpan, literals]

-- A constant among these tokens is one of these.
def HoldsLiterals (values : List Literal) (tokens : List Token) : Prop :=
  ∀ token ∈ tokens, ∀ value, literal? token.kind = some value → value ∈ values

section

variable {values others : List Literal} {tokens rest : List Token} {token : Token}

@[simp] theorem holdsLiterals_nil : HoldsLiterals values [] := nofun

theorem holdsLiterals_cons :
    HoldsLiterals values (token :: tokens) ↔
      (∀ value, literal? token.kind = some value → value ∈ values) ∧ HoldsLiterals values tokens :=
  List.forall_mem_cons

@[simp] theorem holdsLiterals_append :
    HoldsLiterals values (tokens ++ rest) ↔
      HoldsLiterals values tokens ∧ HoldsLiterals values rest :=
  List.forall_mem_append

theorem holdsLiterals_tail (h : literal? token.kind = none) :
    HoldsLiterals values (token :: tokens) ↔ HoldsLiterals values tokens := by
  simp [holdsLiterals_cons, h]

@[simp] theorem holdsLiterals_sign (sign : Symbol) (span : Span) :
    HoldsLiterals values (sign.token span :: tokens) ↔ HoldsLiterals values tokens :=
  holdsLiterals_tail rfl

@[simp] theorem holdsLiterals_ident (ident : Ident) :
    HoldsLiterals values (ident.token :: tokens) ↔ HoldsLiterals values tokens :=
  holdsLiterals_tail rfl

theorem HoldsLiterals.mono (h : HoldsLiterals values tokens) (hsub : values ⊆ others) :
    HoldsLiterals others tokens :=
  fun token ht value hv => hsub (h token ht value hv)

theorem holdsLiterals_of_typeTokens (h : ConsistsOf isTypeToken tokens) :
    HoldsLiterals values tokens := by
  intro token ht value hv
  have htype := h token ht
  rw [Literal.kind_of_literal? hv] at htype
  cases value with
  | bool value => cases value <;> cases htype
  | _ => cases htype

end

mutual

-- The constants that stand in the text are those of what is read from it.
theorem ConcreteExpr.holdsLiterals (e : ConcreteExpr) :
    HoldsLiterals e.erase.literals e.yield := by
  match e with
  | .literal value span =>
      refine holdsLiterals_cons.mpr ⟨fun found hfound => ?_, holdsLiterals_nil⟩
      rw [value.literal?_kind] at hfound
      rw [ConcreteExpr.erase, Expr.literals, Option.some.inj hfound]
      exact List.mem_singleton_self found
  | .name ident => simp [ConcreteExpr.yield]
  | .paren _ inner _ =>
      simp [ConcreteExpr.yield, ConcreteExpr.erase, Expr.literals_withSpan, inner.holdsLiterals]
  | .member target _ _ | .emptyCall target _ _ =>
      have htarget := target.holdsLiterals
      simpa [ConcreteExpr.yield, ConcreteExpr.erase, Expr.literals, Expr.literalsOf] using htarget
  | .call target _ arguments _ | .index target _ arguments _ =>
      have htarget := target.holdsLiterals.mono
        (List.subset_append_left target.erase.literals (Expr.literalsOf arguments.erase))
      have harguments := arguments.holdsLiterals.mono
        (List.subset_append_right target.erase.literals (Expr.literalsOf arguments.erase))
      simp [ConcreteExpr.yield, ConcreteExpr.erase, Expr.literals, htarget, harguments]
  | .unary _ _ operand =>
      simp [ConcreteExpr.yield, ConcreteExpr.erase, Expr.literals, operand.holdsLiterals]
  | .binary _ left _ right =>
      have hleft := left.holdsLiterals.mono
        (List.subset_append_left left.erase.literals right.erase.literals)
      have hright := right.holdsLiterals.mono
        (List.subset_append_right left.erase.literals right.erase.literals)
      simp [ConcreteExpr.yield, ConcreteExpr.erase, Expr.literals, hleft, hright]
  | .cast _ type _ operand =>
      have htype : HoldsLiterals operand.erase.literals type.yield :=
        holdsLiterals_of_typeTokens type.consistsOf_yield
      simp [ConcreteExpr.yield, ConcreteExpr.erase, Expr.literals, htype, operand.holdsLiterals]
  | .asType operand word type =>
      have htype : HoldsLiterals operand.erase.literals type.yield :=
        holdsLiterals_of_typeTokens type.consistsOf_yield
      have hword : literal? (Keyword.asWord.token word).kind = none := rfl
      simp [ConcreteExpr.yield, ConcreteExpr.erase, Expr.literals, operand.holdsLiterals,
        holdsLiterals_tail hword, htype]
  | .guarded checked word _ inner _ =>
      have hword : literal? ((scopeWord checked).token word).kind = none := by
        cases checked <;> rfl
      simp [ConcreteExpr.yield, ConcreteExpr.erase, Expr.literals, holdsLiterals_tail hword,
        inner.holdsLiterals]

theorem ConcreteExprs.holdsLiterals (es : ConcreteExprs) :
    HoldsLiterals (Expr.literalsOf es.erase) es.yield := by
  match es with
  | .last e =>
      have he := e.holdsLiterals
      simpa [ConcreteExprs.yield, ConcreteExprs.erase, Expr.literalsOf] using he
  | .more e _ rest =>
      have he := e.holdsLiterals.mono
        (List.subset_append_left e.erase.literals (Expr.literalsOf rest.erase))
      have hrest := rest.holdsLiterals.mono
        (List.subset_append_right e.erase.literals (Expr.literalsOf rest.erase))
      simp [ConcreteExprs.yield, ConcreteExprs.erase, Expr.literalsOf, he, hrest]

end

theorem ConcreteUsing.holdsLiterals {values : List Literal} (directive : ConcreteUsing) :
    HoldsLiterals values directive.yield := by
  obtain ⟨word, nickname, path, semicolon⟩ := directive
  have hword : literal? (Keyword.usingWord.token word).kind = none := rfl
  have hpath : HoldsLiterals values path.yield := holdsLiterals_of_typeTokens path.typeTokens_yield
  cases nickname <;>
    simp [ConcreteUsing.yield, yieldNickname, holdsLiterals_tail hword, hpath]

theorem ConcreteScript.holdsLiterals (script : ConcreteScript) :
    HoldsLiterals script.body.erase.literals script.yield := by
  refine holdsLiterals_append.mpr ⟨fun token ht => ?_, script.body.holdsLiterals⟩
  obtain ⟨directive, -, ht⟩ := List.mem_flatMap.mp ht
  exact directive.holdsLiterals token ht

theorem HoldsLiterals.printable {values : List Literal} {tokens : List Token}
    (h : HoldsLiterals values tokens) (hspelled : ∀ token ∈ tokens, WellSpelled token.kind)
    (hvalues : ∀ value ∈ values, value.LexesBack) : Printable tokens :=
  fun token ht => ⟨hspelled token ht, fun value hv => hvalues value (h token ht value hv)⟩

-- Scripts

theorem ConcreteUsing.spells_render (directive : ConcreteUsing) (h : Printable directive.yield)
    {text : List Char} {spelled : List TokenKind} (hnext : Spells text spelled) :
    Spells (directive.erase.render.toList ++ text) (kinds directive.yield ++ spelled) := by
  obtain ⟨word, nickname, path, semicolon⟩ := directive
  simp only [ConcreteUsing.yield, printable_append, printable_cons] at h
  obtain ⟨⟨⟨-, hnickname⟩, hpath⟩, -⟩ := h
  have hline := (hnext.blank (by decide : Text.isBlank '\n' = true) (by decide)).sign
    .semicolon rfl
  have hpath := (path.spells_render hpath).append hline (breaksOff_sign .semicolon rfl _)
  have hword := spells_keyword .usingWord
  cases nickname with
  | none =>
      have hall := hword.append hpath.space (breaksOff_cons rfl (by decide))
      simpa [ConcreteUsing.erase, UsingDirective.render, ConcreteUsing.yield, yieldNickname,
        Keyword.token, Keyword.text, Symbol.token, Symbol.text] using hall
  | some name =>
      obtain ⟨name, assign⟩ := name
      have hname := (spells_token (printable_cons.mp hnickname).1).append
        (hpath.operator .assign) (breaksOff_cons rfl (by decide))
      have hall := hword.append hname.space (breaksOff_cons rfl (by decide))
      simpa [ConcreteUsing.erase, UsingDirective.render, ConcreteUsing.yield, yieldNickname,
        Keyword.token, Keyword.text, Symbol.token, Symbol.text, Ident.token] using hall

namespace ConcreteScript

def bracketed (script : ConcreteScript) : ConcreteScript :=
  { script with body := script.body.bracketed }

theorem eraseSpans_bracketed (script : ConcreteScript) :
    script.bracketed.erase.eraseSpans = script.erase.eraseSpans := by
  simp only [erase, bracketed, Script.eraseSpans, script.body.eraseSpans_bracketed]

theorem render_cons (directive : ConcreteUsing) (usings : List ConcreteUsing)
    (body : ConcreteExpr) :
    (mk (directive :: usings) body).erase.render.toList =
      directive.erase.render.toList ++ (mk usings body).erase.render.toList := by
  simp [erase, Script.render, String.toList_join]

theorem spells_render (script : ConcreteScript) (h : Printable script.yield) :
    Spells script.erase.render.toList (kinds script.bracketed.yield) := by
  obtain ⟨usings, body⟩ := script
  induction usings with
  | nil =>
      have hbody := body.spells_render h
      simpa [erase, Script.render, bracketed, yield] using hbody
  | cons directive usings ih =>
      simp only [yield, List.flatMap_cons, List.append_assoc, printable_append] at h
      have hrest := ih (printable_append.mpr h.2)
      have hall := directive.spells_render h.1 hrest
      rw [render_cons]
      simpa [bracketed, yield] using hall

end ConcreteScript

-- Reading what has been printed

theorem Lexer.Spells.tokenize_eq {text : String} {spelled : List TokenKind}
    (h : Spells text.toList spelled) :
    ∃ tokens stop, kinds tokens = spelled ∧ tokenize text = .ok (tokens ++ [⟨.eof, stop⟩]) := by
  obtain ⟨tokens, hkinds, hsplit⟩ := h.splits (byteLength text.toList) [] breaks_nil
  rw [List.append_nil, tokensFrom_eq _ [], skipTrivia] at hsplit
  exact ⟨tokens, _, hkinds, hsplit⟩

theorem kinds_end {tokens others : List Token} (h : kinds tokens = kinds others)
    (stop place : Span) :
    kinds (tokens ++ [⟨.eof, stop⟩]) = kinds (others ++ [⟨.eof, place⟩]) := by
  simp [h]

-- What spells an expression is read as it, up to the places.
theorem parseExpression_of_spells {tree : ConcreteExpr} {text : String} (hg : tree.Grouped)
    (hread : tree.Readable .eof) (h : Spells text.toList (kinds tree.yield)) :
    ∃ e, parseExpression text = .ok e ∧ e.eraseSpans = tree.erase.eraseSpans := by
  obtain ⟨tokens, place, hkinds, htokens⟩ := h.tokenize_eq
  have halike := alike_wholeExpression (kinds_end hkinds place place)
  rw [wholeExpression_complete hg hread] at halike
  obtain ⟨e, he, hsame⟩ := halike.exists_ok
  exact ⟨e, by rw [parseExpression, htokens, ok_bind, he], hsame⟩

theorem parseExpression_render {source : String} {e : Expr} (h : parseExpression source = .ok e)
    (hliterals : ∀ value ∈ e.literals, value.LexesBack) :
    ∃ again, parseExpression e.render = .ok again ∧ again.eraseSpans = e.eraseSpans := by
  obtain ⟨tokens, ht, hparse⟩ := bind_eq_ok.mp h
  obtain ⟨tree, stop, left, rfl, rfl, hg⟩ := wholeExpression_reads hparse
  have hspelled := wellSpelled_of_tokensFrom ht
  have hprintable := tree.holdsLiterals.printable
    (fun token hmem => hspelled token (List.mem_append_left _ hmem)) hliterals
  obtain ⟨again, hagain, hsame⟩ := parseExpression_of_spells tree.grouped_bracketed
    (tree.readable_bracketed _) (tree.spells_render hprintable)
  exact ⟨again, hagain, hsame.trans tree.eraseSpans_bracketed⟩

theorem parseScript_render {source : String} {script : Script}
    (h : parseScript source = .ok script)
    (hliterals : ∀ value ∈ script.body.literals, value.LexesBack) :
    ∃ again, parseScript script.render = .ok again ∧ again.eraseSpans = script.eraseSpans := by
  obtain ⟨tokens, ht, hparse⟩ := bind_eq_ok.mp h
  obtain ⟨form, stop, left, rfl, rfl, hg⟩ := script_sound hparse
  have hspelled := wellSpelled_of_tokensFrom ht
  have hprintable := form.holdsLiterals.printable
    (fun token hmem => hspelled token (List.mem_append_left _ hmem)) hliterals
  obtain ⟨others, place, hkinds, hothers⟩ := (form.spells_render hprintable).tokenize_eq
  have halike := alike_script (kinds_end hkinds place place)
  have hcomplete : Parser.script (form.bracketed.yield ++ [⟨.eof, place⟩]) =
      .ok form.bracketed.erase :=
    script_complete form.body.grouped_bracketed (form.body.readable_bracketed _) place []
  rw [hcomplete] at halike
  obtain ⟨again, hagain, hsame⟩ := halike.exists_ok
  refine ⟨again, ?_, hsame.trans form.eraseSpans_bracketed⟩
  rw [parseScript, hothers, ok_bind, hagain]

instance (value : Literal) : Decidable value.LexesBack :=
  match value with
  | .real value suffix =>
    let read := (tokenize (Literal.real value suffix).render).map kinds
    decidable_of_iff (read.toOption = some [.real value suffix, .eof]) (by
      show read.toOption = _ ↔ read = _
      cases read <;> simp [Except.toOption])
  | .str text =>
    List.decidableBAll (fun c => Text.quoteChar c ≠ Text.codePointEscape c) text.toList
  | .int _ _ | .bool _ | .null => inferInstanceAs (Decidable True)

-- What is printed is read as what was printed, up to the places it is read from.
theorem parse_render (source : String) :
    (∀ e, parseExpression source = .ok e → (∀ value ∈ e.literals, value.LexesBack) →
      ∃ again, parseExpression e.render = .ok again ∧ again.eraseSpans = e.eraseSpans) ∧
    (∀ script, parseScript source = .ok script →
      (∀ value ∈ script.body.literals, value.LexesBack) →
      ∃ again, parseScript script.render = .ok again ∧ again.eraseSpans = script.eraseSpans) :=
  ⟨fun _ h hliterals => parseExpression_render h hliterals,
    fun _ h hliterals => parseScript_render h hliterals⟩

theorem parse_render_directive :
    let text := "(L.Line<A>?)a.b(1 - -2.50f, \"x\\n\")[c] as B"
    (∃ e, parseExpression text = .ok e ∧ (∀ value ∈ e.literals, value.LexesBack) ∧
      ∃ again, parseExpression e.render = .ok again ∧ again.eraseSpans = e.eraseSpans) ∧
    ∃ script, parseScript ("using L = Lib.Text; " ++ text) = .ok script ∧
      (∀ value ∈ script.body.literals, value.LexesBack) ∧
      ∃ again, parseScript script.render = .ok again ∧ again.eraseSpans = script.eraseSpans := by
  intro text
  constructor
  · have hread : (parseExpression text).toOption.any
        (fun e => decide (∀ value ∈ e.literals, value.LexesBack)) = true := by
      decide +kernel
    obtain ⟨e, he, hliterals⟩ := exists_ok_of_any hread
    have hliterals := of_decide_eq_true hliterals
    exact ⟨e, he, hliterals, (parse_render _).1 e he hliterals⟩
  · have hread : (parseScript ("using L = Lib.Text; " ++ text)).toOption.any
        (fun script => decide (∀ value ∈ script.body.literals, value.LexesBack)) = true := by
      decide +kernel
    obtain ⟨script, hs, hliterals⟩ := exists_ok_of_any hread
    have hliterals := of_decide_eq_true hliterals
    exact ⟨script, hs, hliterals, (parse_render _).2 script hs hliterals⟩

end EventScript
