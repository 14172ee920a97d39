import EventScript.Proofs.Expr.Nested
import EventScript.Proofs.Expr.Reading
import EventScript.Proofs.Placement.Tokens

namespace EventScript

variable {P : Span → Prop}

-- Every place in the form satisfies a property.

def DottedName.Placed (P : Span → Prop) (path : DottedName) : Prop :=
  ∀ ident ∈ path.idents, P ident.span

inductive TypeName.Placed (P : Span → Prop) : TypeName → Prop
  | mk {path : DottedName} {arguments : List TypeName} {nullable : Bool} {span : Span} :
      path.Placed P → (∀ a ∈ arguments, Placed P a) → P span →
      Placed P (.mk path arguments nullable span)

inductive Expr.Placed (P : Span → Prop) : Expr → Prop
  | literal {value : Literal} {span : Span} : P span → Placed P (.literal value span)
  | name {ident : Ident} {span : Span} : P ident.span → P span → Placed P (.name ident span)
  | member {target : Expr} {name : Ident} {span : Span} :
      Placed P target → P name.span → P span → Placed P (.member target name span)
  | call {callee : Expr} {arguments : List Expr} {span : Span} :
      Placed P callee → (∀ a ∈ arguments, Placed P a) → P span →
      Placed P (.call callee arguments span)
  | index {target : Expr} {arguments : List Expr} {span : Span} :
      Placed P target → (∀ a ∈ arguments, Placed P a) → P span →
      Placed P (.index target arguments span)
  | unary {op : UnaryOperator} {operand : Expr} {span : Span} :
      Placed P operand → P span → Placed P (.unary op operand span)
  | binary {op : BinaryOperator} {left right : Expr} {span : Span} :
      Placed P left → Placed P right → P span → Placed P (.binary op left right span)
  | cast {type : TypeName} {operand : Expr} {span : Span} :
      type.Placed P → Placed P operand → P span → Placed P (.cast type operand span)
  | asType {type : TypeName} {operand : Expr} {span : Span} :
      Placed P operand → type.Placed P → P span → Placed P (.asType operand type span)
  | guarded {checked : Bool} {operand : Expr} {span : Span} :
      Placed P operand → P span → Placed P (.guarded checked operand span)

theorem TypeName.Placed.span {name : TypeName} (h : name.Placed P) : P name.span := by
  cases h with
  | mk _ _ hs => exact hs

theorem TypeName.Placed.path {name : TypeName} (h : name.Placed P) : name.path.Placed P := by
  cases h with
  | mk hp _ _ => exact hp

theorem Expr.Placed.span {e : Expr} (h : e.Placed P) : P e.span := by
  cases h <;> assumption

theorem Expr.Placed.withSpan {e : Expr} {span : Span} (h : e.Placed P) (hs : P span) :
    (e.withSpan span).Placed P := by
  cases h with
  | literal => exact .literal hs
  | name hi => exact .name hi hs
  | member ht hn => exact .member ht hn hs
  | call hc ha => exact .call hc ha hs
  | index ht ha => exact .index ht ha hs
  | unary ho => exact .unary ho hs
  | binary hl hr => exact .binary hl hr hs
  | cast ht ho => exact .cast ht ho hs
  | asType ho ht => exact .asType ho ht hs
  | guarded ho => exact .guarded ho hs

theorem DottedName.Placed.span (hP : Span.Closed P) {path : DottedName} (h : path.Placed P) :
    P path.span :=
  hP.hull (h _ List.mem_cons_self) (h _ (ConcretePath.last_mem_idents path))

structure UsingDirective.Placed (P : Span → Prop) (directive : UsingDirective) : Prop where
  path : directive.path.Placed P
  span : P directive.span

structure Script.Placed (P : Span → Prop) (script : Script) : Prop where
  usings : ∀ directive ∈ script.usings, directive.Placed P
  body : script.body.Placed P

namespace Parser

variable {α β : Type} {Q : α → Prop} {R : β → Prop} {tokens : List Token} {n : Nat}

def Held (P : Span → Prop) (tokens : List Token) : Prop := ∀ token ∈ tokens, P token.span

theorem held_cons {token : Token} :
    Held P (token :: tokens) ↔ P token.span ∧ Held P tokens := List.forall_mem_cons

-- The place of the error, or what has been read and the tokens behind it.
def Places (P : Span → Prop) (Q : α → Prop) : Except SyntaxError (α × List Token) → Prop
  | .error e => P e.span
  | .ok (a, left) => Q a ∧ Held P left

theorem Places.andThen {x : Except SyntaxError (α × List Token)}
    {f : α × List Token → Except SyntaxError (β × List Token)} (h : Places P Q x)
    (hf : ∀ a left, x = .ok (a, left) → Q a → Held P left → Places P R (f (a, left))) :
    Places P R (x >>= f) := by
  cases x with
  | error e => exact h
  | ok read => exact hf read.1 read.2 rfl h.1 h.2

section

variable (hP : Span.Closed P)
include hP

theorem peek_span (h : Held P tokens) : P (peek tokens).span := by
  cases tokens with
  | nil => exact hP.none
  | cons token rest => exact (held_cons.mp h).1

theorem places_expect (kind : TokenKind) (h : Held P tokens) :
    Places P P (expect kind tokens).plain := by
  cases tokens with
  | nil => exact hP.none
  | cons token rest =>
      obtain ⟨hfirst, hrest⟩ := held_cons.mp h
      by_cases hkind : token.kind = kind
      · simp only [expect, hkind, if_true]
        exact ⟨hfirst, hrest⟩
      · simp only [expect, hkind, if_false]
        exact hfirst

theorem places_ident (h : Held P tokens) :
    Places P (fun name : Ident => P name.span) (ident tokens).plain := by
  unfold ident
  split
  · exact held_cons.mp h
  · exact peek_span hP h

theorem places_moreNames (h : Held P tokens) :
    Places P (fun names : List Ident => ∀ name ∈ names, P name.span) (moreNames tokens).plain := by
  obtain ⟨n, hn⟩ : ∃ n, tokens.length = n := ⟨_, rfl⟩
  induction n using Nat.strongRecOn generalizing tokens with
  | _ n ih =>
      rw [moreNames_plain]
      split
      · rename_i dot rest
        rw [List.length_cons] at hn
        refine (places_ident hP (held_cons.mp h).2).andThen fun name behind hi hname hb => ?_
        have hlt := length_lt_of_plain hi
        refine (ih _ (by omega) hb rfl).andThen fun names left _ hnames hl => ?_
        exact ⟨List.forall_mem_cons.mpr ⟨hname, hnames⟩, hl⟩
      · exact ⟨List.forall_mem_nil _, h⟩

theorem places_dottedName (h : Held P tokens) :
    Places P (DottedName.Placed P) (dottedName tokens).plain := by
  rw [dottedName_plain]
  refine (places_ident hP h).andThen fun first behind _ hf hb => ?_
  refine (places_moreNames hP hb).andThen fun rest left _ hr hl => ?_
  exact ⟨List.forall_mem_cons.mpr ⟨hf, hr⟩, hl⟩

theorem places_ended {path : DottedName} {arguments : List TypeName} {span : Span}
    (hpath : path.Placed P) (harguments : ∀ a ∈ arguments, a.Placed P) (hs : P span)
    (h : Held P tokens) :
    Places P (TypeName.Placed P) (.ok (ended path arguments span tokens)) := by
  unfold ended
  split
  · obtain ⟨hstop, hrest⟩ := held_cons.mp h
    exact ⟨.mk hpath harguments (hP.hull hs hstop), hrest⟩
  · exact ⟨.mk hpath harguments hs, h⟩

theorem places_typeName_of
    (ih : ∀ rest : List Token, rest.length < tokens.length → Held P rest →
      Places P (fun types : List TypeName => ∀ a ∈ types, a.Placed P) (typeArguments rest).plain)
    (h : Held P tokens) : Places P (TypeName.Placed P) (typeName tokens).plain := by
  rw [typeName_plain]
  refine (places_dottedName hP h).andThen fun path behind hp hpath hb => ?_
  have hlt := length_lt_of_plain hp
  dsimp only
  split
  · rename_i opened rest
    rw [List.length_cons] at hlt
    refine (ih rest (by omega) (held_cons.mp hb).2).andThen fun types behind _ htypes hb => ?_
    refine (places_expect hP _ hb).andThen fun stop left _ hstop hl => ?_
    exact places_ended hP hpath htypes (hP.hull (hpath.span hP) hstop) hl
  · exact places_ended hP hpath (List.forall_mem_nil _) (hpath.span hP) hb

theorem places_typeArguments (h : Held P tokens) :
    Places P (fun types : List TypeName => ∀ a ∈ types, a.Placed P)
      (typeArguments tokens).plain := by
  obtain ⟨n, hn⟩ : ∃ n, tokens.length = n := ⟨_, rfl⟩
  induction n using Nat.strongRecOn generalizing tokens with
  | _ n ih =>
      rw [typeArguments_plain]
      refine (places_typeName_of hP (fun rest hlt hr => ih _ (hn ▸ hlt) hr rfl) h).andThen
        fun type behind ht htype hb => ?_
      have hlt := length_lt_of_plain ht
      dsimp only
      split
      · rename_i comma rest
        rw [List.length_cons] at hlt
        refine (ih _ (by omega) (held_cons.mp hb).2 rfl).andThen fun types left _ htypes hl => ?_
        exact ⟨List.forall_mem_cons.mpr ⟨htype, htypes⟩, hl⟩
      · exact ⟨List.forall_mem_singleton.mpr htype, hb⟩

theorem places_typeName (h : Held P tokens) :
    Places P (TypeName.Placed P) (typeName tokens).plain :=
  places_typeName_of hP (fun _ _ => places_typeArguments hP) h

theorem placed_of_cast? {type : TypeName} {span : Span} {left : List Token} (h : Held P tokens)
    (hc : cast? tokens = some (type, span, left)) : type.Placed P ∧ P span ∧ Held P left := by
  obtain ⟨opened, closed, rest, rfl, hread, -, rfl⟩ := cast?_eq_some.mp hc
  obtain ⟨hopened, hrest⟩ := held_cons.mp h
  have htype := places_typeName hP hrest
  rw [hread] at htype
  obtain ⟨hclosed, hleft⟩ := held_cons.mp htype.2
  exact ⟨htype.1, hP.hull hopened hclosed, hleft⟩

-- What has to be shown of the tokens of an operation.
def OperationPlaces (P : Span → Prop) (tokens : List Token) : Prop :=
  ∀ least, Places P (Expr.Placed P) (operation least tokens).plain

section

variable (ih : ∀ tokens : List Token, tokens.length < n → Held P tokens → OperationPlaces P tokens)
include ih

omit hP in
theorem places_argumentList (hlen : tokens.length < n) (h : Held P tokens) :
    Places P (fun items : List Expr => ∀ e ∈ items, e.Placed P) (argumentList tokens).plain := by
  obtain ⟨m, hm⟩ : ∃ m, tokens.length = m := ⟨_, rfl⟩
  induction m using Nat.strongRecOn generalizing tokens with
  | _ m ihm =>
      rw [argumentList_plain]
      refine (ih _ hlen h 1).andThen fun item behind hi hitem hb => ?_
      have hlt := length_lt_of_plain hi
      dsimp only
      split
      · rename_i comma rest
        rw [List.length_cons] at hlt
        refine (ihm _ (by omega) (by omega) (held_cons.mp hb).2 rfl).andThen
          fun items left _ hitems hl => ?_
        exact ⟨List.forall_mem_cons.mpr ⟨hitem, hitems⟩, hl⟩
      · exact ⟨List.forall_mem_singleton.mpr hitem, hb⟩

theorem places_enclosed (close : Symbol) (hlen : tokens.length < n) (h : Held P tokens) :
    Places P (fun read : List Expr × Span => (∀ e ∈ read.1, e.Placed P) ∧ P read.2)
      (enclosed close tokens) := by
  rw [enclosed_eq]
  split
  · refine (places_expect hP _ h).andThen fun stop left _ hstop hl => ?_
    exact ⟨⟨List.forall_mem_nil _, hstop⟩, hl⟩
  · refine (places_argumentList ih hlen h).andThen fun items behind _ hitems hb => ?_
    exact (places_expect hP _ hb).andThen fun stop left _ hstop hl => ⟨⟨hitems, hstop⟩, hl⟩

theorem places_atom (hlen : tokens.length ≤ n) (h : Held P tokens) :
    Places P (Expr.Placed P) (atom tokens).plain := by
  rw [atom_plain]
  split
  · exact hP.none
  · obtain ⟨hfirst, hrest⟩ := held_cons.mp h
    exact ⟨.name hfirst hfirst, hrest⟩
  · rename_i start rest
    rw [List.length_cons] at hlen
    obtain ⟨hstart, hrest⟩ := held_cons.mp h
    refine (ih rest (by omega) hrest 1).andThen fun inner behind _ hinner hb => ?_
    refine (places_expect hP _ hb).andThen fun stop left _ hstop hl => ?_
    exact ⟨hinner.withSpan (hP.hull hstart hstop), hl⟩
  · rename_i kind start rest _ _
    rw [List.length_cons] at hlen
    obtain ⟨hstart, hrest⟩ := held_cons.mp h
    split
    · exact ⟨.literal hstart, hrest⟩
    split
    · refine (places_expect hP _ hrest).andThen fun _ opened ho _ hopened => ?_
      have hlt := length_lt_of_plain ho
      refine (ih opened (by omega) hopened 1).andThen fun inner behind _ hinner hb => ?_
      refine (places_expect hP _ hb).andThen fun stop left _ hstop hl => ?_
      exact ⟨.guarded hinner (hP.hull hstart hstop), hl⟩
    · exact hstart

theorem places_moreLinks {target : Expr} (ht : target.Placed P) (hlen : tokens.length ≤ n)
    (h : Held P tokens) : Places P (Expr.Placed P) (moreLinks target tokens).plain := by
  obtain ⟨m, hm⟩ : ∃ m, tokens.length = m := ⟨_, rfl⟩
  induction m using Nat.strongRecOn generalizing target tokens with
  | _ m ihm =>
      rw [moreLinks_plain]
      split
      · rename_i dot rest
        rw [List.length_cons] at hlen hm
        refine (places_ident hP (held_cons.mp h).2).andThen fun name behind hi hname hb => ?_
        have hlt := length_lt_of_plain hi
        exact ihm _ (by omega) (.member ht hname (hP.hull ht.span hname)) (by omega) hb rfl
      · rename_i opened rest
        rw [List.length_cons] at hlen hm
        refine (places_enclosed hP ih .rparen (by omega) (held_cons.mp h).2).andThen
          fun read behind he hread hb => ?_
        have hlt := length_lt_of_enclosed he
        exact ihm _ (by omega) (.call ht hread.1 (hP.hull ht.span hread.2)) (by omega) hb rfl
      · rename_i opened rest
        rw [List.length_cons] at hlen hm
        refine (places_enclosed hP ih .rbracket (by omega) (held_cons.mp h).2).andThen
          fun read behind he hread hb => ?_
        have hlt := length_lt_of_enclosed he
        dsimp only
        split
        · exact hread.2
        · exact ihm _ (by omega) (.index ht hread.1 (hP.hull ht.span hread.2)) (by omega) hb rfl
      · exact ⟨ht, h⟩

theorem places_atomChain (hlen : tokens.length ≤ n) (h : Held P tokens) :
    Places P (Expr.Placed P) (atomChain tokens).plain := by
  rw [atomChain_plain]
  refine (places_atom hP ih hlen h).andThen fun first behind ha hfirst hb => ?_
  have hlt := length_lt_of_plain ha
  exact places_moreLinks hP ih hfirst (by omega) hb

theorem places_operand (hlen : tokens.length ≤ n) (h : Held P tokens) :
    Places P (Expr.Placed P) (operand tokens).plain := by
  obtain ⟨m, hm⟩ : ∃ m, tokens.length = m := ⟨_, rfl⟩
  induction m using Nat.strongRecOn generalizing tokens with
  | _ m ihm =>
      rw [operand_plain]
      split
      · rename_i op hop
        cases tokens with
        | nil => cases hop
        | cons token rest =>
            rw [List.length_cons] at hlen hm
            obtain ⟨hfirst, hrest⟩ := held_cons.mp h
            refine (ihm rest.length (by omega) (by omega) hrest rfl).andThen
              fun inner left _ hinner hl => ?_
            exact ⟨.unary hinner (hP.hull hfirst hinner.span), hl⟩
      · split
        · rename_i type span behind hc
          obtain ⟨htype, hspan, hb⟩ := placed_of_cast? hP h hc
          have hlt := length_lt_of_cast? hc
          refine (ihm behind.length (by omega) (by omega) hb rfl).andThen
            fun inner left _ hinner hl => ?_
          exact ⟨.cast htype hinner (hP.hull hspan hinner.span), hl⟩
        · exact places_atomChain hP ih hlen h

theorem places_moreOperations {least : Nat} {e : Expr} (he : e.Placed P) (hlen : tokens.length ≤ n)
    (h : Held P tokens) : Places P (Expr.Placed P) (moreOperations least e tokens).plain := by
  obtain ⟨m, hm⟩ : ∃ m, tokens.length = m := ⟨_, rfl⟩
  induction m using Nat.strongRecOn generalizing e tokens with
  | _ m ihm =>
      rw [moreOperations_plain]
      split
      · exact ⟨he, h⟩
      · rename_i kind span rest
        rw [List.length_cons] at hlen hm
        obtain ⟨-, hrest⟩ := held_cons.mp h
        split
        · split
          · refine (places_typeName hP hrest).andThen fun type behind ht htype hb => ?_
            have hlt := length_lt_of_plain ht
            exact ihm _ (by omega) (.asType he htype (hP.hull he.span htype.span)) (by omega) hb rfl
          · exact ⟨he, h⟩
        · split
          · exact ⟨he, h⟩
          · split
            · refine (ih rest (by omega) hrest _).andThen fun right behind hr hright hb => ?_
              have hlt := length_lt_of_plain hr
              exact ihm _ (by omega) (.binary he hright (hP.hull he.span hright.span)) (by omega)
                hb rfl
            · exact ⟨he, h⟩

end

-- The induction is on the number of tokens: every operation inside another is read from fewer.
theorem places_operation (h : Held P tokens) : OperationPlaces P tokens := by
  obtain ⟨n, hn⟩ : ∃ n, tokens.length = n := ⟨_, rfl⟩
  induction n using Nat.strongRecOn generalizing tokens with
  | _ n ih =>
      have ih (tokens : List Token) (hlt : tokens.length < n) (h : Held P tokens) :
          OperationPlaces P tokens := ih tokens.length hlt h rfl
      intro least
      rw [operation_plain]
      refine (places_operand hP ih (by omega) h).andThen fun left behind hl hleft hb => ?_
      have hlt := length_lt_of_plain hl
      exact places_moreOperations hP ih hleft (by omega) hb

-- Scripts

theorem places_usingDirective {start : Span} (hstart : P start) (h : Held P tokens) :
    Places P (UsingDirective.Placed P) (usingDirective start tokens).plain := by
  rw [usingDirective_plain]
  refine (places_ident hP h).andThen fun first behind _ hfirst hb => ?_
  dsimp only
  split
  · refine (places_dottedName hP (held_cons.mp hb).2).andThen fun path behind _ hpath hb => ?_
    refine (places_expect hP _ hb).andThen fun stop left _ hstop hl => ?_
    exact ⟨⟨hpath, hP.hull hstart hstop⟩, hl⟩
  · refine (places_moreNames hP hb).andThen fun names behind _ hnames hb => ?_
    refine (places_expect hP _ hb).andThen fun stop left _ hstop hl => ?_
    exact ⟨⟨List.forall_mem_cons.mpr ⟨hfirst, hnames⟩, hP.hull hstart hstop⟩, hl⟩

theorem places_usingDirectives (h : Held P tokens) :
    Places P (fun directives : List UsingDirective => ∀ d ∈ directives, d.Placed P)
      (usingDirectives tokens).plain := by
  obtain ⟨n, hn⟩ : ∃ n, tokens.length = n := ⟨_, rfl⟩
  induction n using Nat.strongRecOn generalizing tokens with
  | _ n ih =>
      rw [usingDirectives_plain]
      split
      · rename_i start rest
        rw [List.length_cons] at hn
        obtain ⟨hstart, hrest⟩ := held_cons.mp h
        refine (places_usingDirective hP hstart hrest).andThen ?_
        intro directive behind hd hfirst hb
        have hlt := length_lt_of_plain hd
        refine (ih _ (by omega) hb rfl).andThen fun directives left _ hmore hl => ?_
        exact ⟨List.forall_mem_cons.mpr ⟨hfirst, hmore⟩, hl⟩
      · exact ⟨List.forall_mem_nil _, h⟩

-- The place of the error, or all places of the script.
def ScriptPlaces (P : Span → Prop) : Except SyntaxError Script → Prop
  | .error e => P e.span
  | .ok script => script.Placed P

theorem places_script (h : Held P tokens) : ScriptPlaces P (script tokens) := by
  rw [script_eq]
  have husings := places_usingDirectives hP h
  revert husings
  cases (usingDirectives tokens).plain with
  | error e => exact id
  | ok read =>
      obtain ⟨usings, behind⟩ := read
      rintro ⟨husings, hb⟩
      rw [ok_bind]
      dsimp only
      rw [wholeExpression_eq]
      have hbody := places_operation hP hb 1
      revert hbody
      cases (operation 1 behind).plain with
      | error e => exact id
      | ok read =>
          obtain ⟨body, left⟩ := read
          rintro ⟨hbody, hl⟩
          have hend := places_expect hP .eof hl
          rw [ok_bind]
          dsimp only
          revert hend
          cases (expect .eof left).plain with
          | error e => exact id
          | ok _ => exact fun _ => ⟨husings, hbody⟩

end

end Parser

-- A source that cannot be read is at fault at a place of it, and a script that is read has its
-- places there.
theorem parseScript_places (source : String) :
    Parser.ScriptPlaces (Span.ValidIn source) (parseScript source) := by
  have hP := Span.closed_validIn source
  have htokens := Lexer.tokensFrom_splits (List.suffix_refl source.toList)
  change Lexer.Splits source.toList (tokenize source) at htokens
  revert htokens
  rw [parseScript]
  cases tokenize source with
  | error e => exact fun h => h.validIn
  | ok tokens => exact fun h => Parser.places_script hP fun token hm => (h token hm).validIn

end EventScript
