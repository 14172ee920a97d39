import EventScript.Proofs.Expr.Reading
import EventScript.Proofs.Token.Spelling

namespace EventScript

-- Forms without the places they were read from.

def Ident.eraseSpan (ident : Ident) : Ident := ⟨ident.name, .none⟩

def DottedName.eraseSpans (path : DottedName) : DottedName :=
  ⟨path.first.eraseSpan, path.rest.map Ident.eraseSpan⟩

def TypeName.eraseSpans : TypeName → TypeName
  | mk path arguments nullable _ => mk path.eraseSpans (arguments.map eraseSpans) nullable .none

def Expr.eraseSpans : Expr → Expr
  | literal value _ => literal value .none
  | name ident _ => name ident.eraseSpan .none
  | member target ident _ => member target.eraseSpans ident.eraseSpan .none
  | call callee arguments _ => call callee.eraseSpans (arguments.map eraseSpans) .none
  | index target arguments _ => index target.eraseSpans (arguments.map eraseSpans) .none
  | unary op operand _ => unary op operand.eraseSpans .none
  | binary op left right _ => binary op left.eraseSpans right.eraseSpans .none
  | cast type operand _ => cast type.eraseSpans operand.eraseSpans .none
  | asType operand type _ => asType operand.eraseSpans type.eraseSpans .none
  | guarded checked operand _ => guarded checked operand.eraseSpans .none

@[simp] theorem Expr.eraseSpans_withSpan (span : Span) (e : Expr) :
    (e.withSpan span).eraseSpans = e.eraseSpans := by
  cases e <;> simp only [withSpan, eraseSpans]

def UsingDirective.eraseSpans (directive : UsingDirective) : UsingDirective :=
  ⟨directive.nickname.map Ident.eraseSpan, directive.path.eraseSpans, .none⟩

def Script.eraseSpans (script : Script) : Script :=
  ⟨script.usings.map UsingDirective.eraseSpans, script.body.eraseSpans⟩

namespace Parser

variable {α β γ δ : Type} {tokens others : List Token}

theorem kinds_eq_cons {kind : TokenKind} {rest : List TokenKind}
    (h : kinds tokens = kind :: rest) :
    ∃ span left, tokens = ⟨kind, span⟩ :: left ∧ kinds left = rest := by
  cases tokens with
  | nil => cases h
  | cons token left =>
      obtain ⟨rfl, rfl⟩ := List.cons.inj h
      exact ⟨token.span, left, rfl, rfl⟩

theorem peek_kind_of_kinds (h : kinds tokens = kinds others) :
    (peek tokens).kind = (peek others).kind := by
  cases tokens with
  | nil =>
      cases others with
      | nil => rfl
      | cons _ _ => cases h
  | cons token rest =>
      obtain ⟨span, left, rfl, -⟩ := kinds_eq_cons h.symm
      rfl

-- Both fail with one fault, or both give the same up to what is erased.
def Alike (erase : α → γ) : Except SyntaxError α → Except SyntaxError α → Prop
  | .error e, .error f => e.fault = f.fault
  | .ok a, .ok b => erase a = erase b
  | _, _ => False

-- What has been read up to what is erased, and the kinds of the tokens behind it.
def kept (erase : α → γ) (read : α × List Token) : γ × List TokenKind :=
  (erase read.1, kinds read.2)

theorem Alike.ok {erase : α → γ} {a b : α} (h : erase a = erase b) :
    Alike erase (.ok a) (.ok b) := h

theorem Alike.read {erase : α → γ} {a b : α} {left right : List Token} (h : erase a = erase b)
    (hk : kinds left = kinds right) : Alike (kept erase) (.ok (a, left)) (.ok (b, right)) :=
  Prod.ext h hk

theorem Alike.exists_ok {erase : α → γ} {x : Except SyntaxError α} {b : α}
    (h : Alike erase x (.ok b)) : ∃ a, x = .ok a ∧ erase a = erase b := by
  cases x with
  | error e => exact h.elim
  | ok a => exact ⟨a, rfl, h⟩

theorem Alike.bind {erase : α → γ} {keep : β → δ} {x y : Except SyntaxError α}
    {f g : α → Except SyntaxError β} (h : Alike erase x y)
    (hnext : ∀ a b, x = .ok a → erase a = erase b → Alike keep (f a) (g b)) :
    Alike keep (x >>= f) (y >>= g) := by
  cases x with
  | error e =>
      cases y with
      | error _ => exact h
      | ok _ => exact h.elim
  | ok a =>
      cases y with
      | error _ => exact h.elim
      | ok b => exact hnext a b rfl h

theorem Alike.andThen {erase : α → γ} {keep : β → δ} {x y : Except SyntaxError (α × List Token)}
    {f g : α × List Token → Except SyntaxError β} (h : Alike (kept erase) x y)
    (hnext : ∀ a b left right, x = .ok (a, left) → erase a = erase b → kinds left = kinds right →
      Alike keep (f (a, left)) (g (b, right))) :
    Alike keep (x >>= f) (y >>= g) := by
  refine h.bind fun read other hx hsame => ?_
  exact hnext _ _ _ _ hx (congrArg Prod.fst hsame) (congrArg Prod.snd hsame)

theorem alike_unexpected {erase : α → γ} (expected : Expected) (h : kinds tokens = kinds others) :
    Alike erase (.error (unexpected expected tokens)) (.error (unexpected expected others)) := by
  have hkind := peek_kind_of_kinds h
  show (unexpected expected tokens).fault = (unexpected expected others).fault
  simp only [unexpected, hkind]

theorem alike_expect (kind : TokenKind) (h : kinds tokens = kinds others) :
    Alike (kept (fun _ => ())) (expect kind tokens).plain (expect kind others).plain := by
  cases tokens with
  | nil =>
      cases others with
      | nil => rfl
      | cons _ _ => cases h
  | cons token rest =>
      obtain ⟨span, left, rfl, hk⟩ := kinds_eq_cons h.symm
      by_cases hkind : token.kind = kind
      · simp only [expect, hkind, ↓reduceIte, plain_ok]
        exact .read rfl hk.symm
      · simp only [expect, hkind, ↓reduceIte, plain_error]
        exact alike_unexpected _ h

theorem alike_ident (h : kinds tokens = kinds others) :
    Alike (kept Ident.eraseSpan) (ident tokens).plain (ident others).plain := by
  by_cases hname : ∃ name span rest, tokens = ⟨.ident name, span⟩ :: rest
  · obtain ⟨name, span, rest, rfl⟩ := hname
    obtain ⟨place, left, rfl, hk⟩ := kinds_eq_cons h.symm
    exact .read rfl hk.symm
  · have hother : ¬ ∃ name span rest, others = ⟨.ident name, span⟩ :: rest := by
      rintro ⟨name, span, rest, rfl⟩
      obtain ⟨place, left, rfl, -⟩ := kinds_eq_cons h
      exact hname ⟨name, place, left, rfl⟩
    rw [ident, ident]
    · exact alike_unexpected _ h
    · exact fun name span rest he => hother ⟨name, span, rest, he⟩
    · exact fun name span rest he => hname ⟨name, span, rest, he⟩

theorem alike_moreNames (h : kinds tokens = kinds others) :
    Alike (kept (List.map Ident.eraseSpan)) (moreNames tokens).plain (moreNames others).plain := by
  obtain ⟨n, hn⟩ : ∃ n, tokens.length = n := ⟨_, rfl⟩
  induction n using Nat.strongRecOn generalizing tokens others with
  | _ n ih =>
      by_cases hdot : (peek tokens).kind = .symbol .dot
      · obtain ⟨span, rest, rfl⟩ := eq_cons_of_peek hdot nofun
        obtain ⟨place, left, rfl, hk⟩ := kinds_eq_cons h.symm
        rw [moreNames_plain, moreNames_plain]
        rw [List.length_cons] at hn
        refine (alike_ident hk.symm).andThen fun name other behind after hi he hb => ?_
        have hlt := length_lt_of_plain hi
        refine (ih _ (by omega) hb rfl).andThen fun names others left right _ hes hl => ?_
        exact .read (by rw [List.map_cons, List.map_cons, he, hes]) hl
      · have hother : (peek others).kind ≠ .symbol .dot := peek_kind_of_kinds h ▸ hdot
        rw [moreNames_stay hdot, moreNames_stay hother]
        exact .read rfl h

theorem alike_dottedName (h : kinds tokens = kinds others) :
    Alike (kept DottedName.eraseSpans) (dottedName tokens).plain (dottedName others).plain := by
  rw [dottedName_plain, dottedName_plain]
  refine (alike_ident h).andThen fun first other behind after _ hf hb => ?_
  refine (alike_moreNames hb).andThen fun rest others left right _ hr hl => ?_
  exact .read (by simp only [DottedName.eraseSpans, hf, hr]) hl

theorem alike_ended {path other : DottedName} {arguments types : List TypeName} {span place : Span}
    (hpath : path.eraseSpans = other.eraseSpans)
    (htypes : arguments.map TypeName.eraseSpans = types.map TypeName.eraseSpans)
    (h : kinds tokens = kinds others) :
    Alike (kept TypeName.eraseSpans) (.ok (ended path arguments span tokens))
      (.ok (ended other types place others)) := by
  by_cases hq : (peek tokens).kind = .symbol .question
  · obtain ⟨_, rest, rfl⟩ := eq_cons_of_peek hq nofun
    obtain ⟨_, left, rfl, hk⟩ := kinds_eq_cons h.symm
    exact .read (by simp only [TypeName.eraseSpans, hpath, htypes]) hk.symm
  · have hother : (peek others).kind ≠ .symbol .question := peek_kind_of_kinds h ▸ hq
    rw [ended_stay hq, ended_stay hother]
    exact .read (by simp only [TypeName.eraseSpans, hpath, htypes]) h

theorem alike_typeName_of
    (ih : ∀ rest left : List Token, rest.length < tokens.length → kinds rest = kinds left →
      Alike (kept (List.map TypeName.eraseSpans)) (typeArguments rest).plain
        (typeArguments left).plain)
    (h : kinds tokens = kinds others) :
    Alike (kept TypeName.eraseSpans) (typeName tokens).plain (typeName others).plain := by
  rw [typeName_plain, typeName_plain]
  refine (alike_dottedName h).andThen fun path other behind after hp hpath hb => ?_
  have hlt := length_lt_of_plain hp
  by_cases hopen : (peek behind).kind = .symbol .lt
  · obtain ⟨_, rest, rfl⟩ := eq_cons_of_peek hopen nofun
    obtain ⟨_, left, rfl, hk⟩ := kinds_eq_cons hb.symm
    rw [List.length_cons] at hlt
    refine (ih rest left (by omega) hk.symm).andThen fun types others _ _ _ htypes hl => ?_
    refine (alike_expect _ hl).andThen fun _ _ _ _ _ _ hr => ?_
    exact alike_ended hpath htypes hr
  · have hother : (peek after).kind ≠ .symbol .lt := peek_kind_of_kinds hb ▸ hopen
    have hplain : Alike (kept TypeName.eraseSpans) (.ok (ended path [] path.span behind))
        (.ok (ended other [] other.span after)) := alike_ended hpath rfl hb
    dsimp only
    split
    · exact absurd rfl hopen
    · split
      · exact absurd rfl hother
      · exact hplain

theorem alike_typeArguments (h : kinds tokens = kinds others) :
    Alike (kept (List.map TypeName.eraseSpans)) (typeArguments tokens).plain
      (typeArguments others).plain := by
  obtain ⟨n, hn⟩ : ∃ n, tokens.length = n := ⟨_, rfl⟩
  induction n using Nat.strongRecOn generalizing tokens others with
  | _ n ih =>
      have hfirst : Alike (kept TypeName.eraseSpans) (typeName tokens).plain
          (typeName others).plain :=
        alike_typeName_of (fun rest left hlt hk => ih rest.length (hn ▸ hlt) hk rfl) h
      rw [typeArguments_plain, typeArguments_plain]
      refine hfirst.andThen fun type other behind after ht htype hb => ?_
      have hlt := length_lt_of_plain ht
      by_cases hcomma : (peek behind).kind = .symbol .comma
      · obtain ⟨_, rest, rfl⟩ := eq_cons_of_peek hcomma nofun
        obtain ⟨_, left, rfl, hk⟩ := kinds_eq_cons hb.symm
        rw [List.length_cons] at hlt
        refine (ih rest.length (by omega) hk.symm rfl).andThen
          fun types others _ _ _ htypes hl => ?_
        exact .read (by rw [List.map_cons, List.map_cons, htype, htypes]) hl
      · have hother : (peek after).kind ≠ .symbol .comma := peek_kind_of_kinds hb ▸ hcomma
        dsimp only
        split
        · exact absurd rfl hcomma
        · split
          · exact absurd rfl hother
          · exact .read (by rw [List.map_cons, List.map_cons, htype]) hb

theorem alike_typeName (h : kinds tokens = kinds others) :
    Alike (kept TypeName.eraseSpans) (typeName tokens).plain (typeName others).plain :=
  alike_typeName_of (fun _ _ _ => alike_typeArguments) h

theorem cast?_alike (h : kinds tokens = kinds others) :
    (cast? tokens = none ∧ cast? others = none) ∨
      ∃ type other span place left right, cast? tokens = some (type, span, left) ∧
        cast? others = some (other, place, right) ∧ type.eraseSpans = other.eraseSpans ∧
        kinds left = kinds right := by
  by_cases hopen : (peek tokens).kind = .symbol .lparen
  · obtain ⟨start, rest, rfl⟩ := eq_cons_of_peek hopen nofun
    obtain ⟨place, after, rfl, hk⟩ := kinds_eq_cons h.symm
    rw [cast?_eq, cast?_eq]
    have htype := alike_typeName hk.symm
    dsimp only
    revert htype
    cases (typeName rest).plain with
    | error e =>
        cases (typeName after).plain with
        | error _ => exact fun _ => .inl ⟨rfl, rfl⟩
        | ok _ => exact False.elim
    | ok read =>
        cases (typeName after).plain with
        | error _ => exact False.elim
        | ok other =>
            obtain ⟨type, behind⟩ := read
            obtain ⟨other, beyond⟩ := other
            intro hsame
            obtain ⟨htype, hb⟩ := Prod.mk.inj hsame
            by_cases hclose : (peek behind).kind = .symbol .rparen
            · obtain ⟨stop, left, rfl⟩ := eq_cons_of_peek hclose nofun
              obtain ⟨halt, right, rfl, hk⟩ := kinds_eq_cons hb.symm
              dsimp only
              rw [peek_kind_of_kinds hk]
              split
              · exact .inr ⟨_, _, _, _, _, _, rfl, rfl, htype, hk.symm⟩
              · exact .inl ⟨rfl, rfl⟩
            · have hother : (peek beyond).kind ≠ .symbol .rparen := peek_kind_of_kinds hb ▸ hclose
              dsimp only
              split
              · exact absurd rfl hclose
              · split
                · exact absurd rfl hother
                · exact .inl ⟨rfl, rfl⟩
  · have hother : (peek others).kind ≠ .symbol .lparen := peek_kind_of_kinds h ▸ hopen
    rw [cast?_eq, cast?_eq]
    split
    · exact absurd rfl hopen
    · split
      · exact absurd rfl hother
      · exact .inl ⟨rfl, rfl⟩

-- What has to be shown of operations on two lists of tokens.
def OperationAlike (tokens others : List Token) : Prop :=
  ∀ least, Alike (kept Expr.eraseSpans) (operation least tokens).plain
    (operation least others).plain

section

variable {n : Nat} (ih : ∀ tokens others : List Token, tokens.length < n →
  kinds tokens = kinds others → OperationAlike tokens others)
include ih

theorem alike_argumentList (hlen : tokens.length < n) (h : kinds tokens = kinds others) :
    Alike (kept (List.map Expr.eraseSpans)) (argumentList tokens).plain
      (argumentList others).plain := by
  obtain ⟨m, hm⟩ : ∃ m, tokens.length = m := ⟨_, rfl⟩
  induction m using Nat.strongRecOn generalizing tokens others with
  | _ m ihm =>
      rw [argumentList_plain, argumentList_plain]
      refine (ih _ _ hlen h 1).andThen fun item other behind after hi hitem hb => ?_
      have hlt := length_lt_of_plain hi
      by_cases hcomma : (peek behind).kind = .symbol .comma
      · obtain ⟨_, rest, rfl⟩ := eq_cons_of_peek hcomma nofun
        obtain ⟨_, left, rfl, hk⟩ := kinds_eq_cons hb.symm
        rw [List.length_cons] at hlt
        refine (ihm rest.length (by omega) (by omega) hk.symm rfl).andThen
          fun items others _ _ _ hitems hl => ?_
        exact .read (by rw [List.map_cons, List.map_cons, hitem, hitems]) hl
      · have hother : (peek after).kind ≠ .symbol .comma := peek_kind_of_kinds hb ▸ hcomma
        dsimp only
        split
        · exact absurd rfl hcomma
        · split
          · exact absurd rfl hother
          · exact .read (by rw [List.map_cons, List.map_cons, hitem]) hb

theorem alike_enclosed (close : Symbol) (hlen : tokens.length < n)
    (h : kinds tokens = kinds others) :
    Alike (kept (fun read : List Expr × Span => read.1.map Expr.eraseSpans)) (enclosed close tokens)
      (enclosed close others) := by
  rw [enclosed_eq, enclosed_eq, peek_kind_of_kinds h]
  split
  · refine (alike_expect _ h).andThen fun _ _ _ _ _ _ hl => ?_
    exact .read rfl hl
  · refine (alike_argumentList ih hlen h).andThen fun items others _ _ _ hitems hb => ?_
    refine (alike_expect _ hb).andThen fun _ _ _ _ _ _ hl => ?_
    exact .read hitems hl

theorem alike_atom (hlen : tokens.length ≤ n) (h : kinds tokens = kinds others) :
    Alike (kept Expr.eraseSpans) (atom tokens).plain (atom others).plain := by
  rw [atom_plain tokens]
  split
  · cases others with
    | nil =>
        rw [atom_plain]
        exact alike_unexpected .expression h
    | cons _ _ => cases h
  · obtain ⟨place, left, rfl, hk⟩ := kinds_eq_cons h.symm
    rw [atom_plain]
    exact .read (by simp only [Expr.eraseSpans, Ident.eraseSpan]) hk.symm
  · obtain ⟨place, left, rfl, hk⟩ := kinds_eq_cons h.symm
    rw [atom_plain]
    refine (ih _ _ hlen hk.symm 1).andThen fun inner other behind after _ hinner hb => ?_
    refine (alike_expect _ hb).andThen fun _ _ _ _ _ _ hl => ?_
    exact .read (by rw [Expr.eraseSpans_withSpan, Expr.eraseSpans_withSpan, hinner]) hl
  · rename_i kind start rest hident hparen
    obtain ⟨place, left, rfl, hk⟩ := kinds_eq_cons h.symm
    rw [List.length_cons] at hlen
    rw [atom_other hident hparen]
    cases literal? kind with
    | some value => exact .read (by simp only [Expr.eraseSpans]) hk.symm
    | none =>
        dsimp only
        split_ifs
        · refine (alike_expect _ hk.symm).andThen fun _ _ behind after ho _ hb => ?_
          have hlt := length_lt_of_plain ho
          refine (ih _ _ (by omega) hb 1).andThen fun inner other _ _ _ hinner hl => ?_
          refine (alike_expect _ hl).andThen fun _ _ _ _ _ _ hr => ?_
          exact .read (by simp only [Expr.eraseSpans, hinner]) hr
        · exact alike_unexpected .expression h

theorem alike_moreLinks {target other : Expr} (hlen : tokens.length ≤ n)
    (htarget : target.eraseSpans = other.eraseSpans) (h : kinds tokens = kinds others) :
    Alike (kept Expr.eraseSpans) (moreLinks target tokens).plain
      (moreLinks other others).plain := by
  obtain ⟨m, hm⟩ : ∃ m, tokens.length = m := ⟨_, rfl⟩
  induction m using Nat.strongRecOn generalizing tokens others target other with
  | _ m ihm =>
      rw [moreLinks_plain target tokens]
      split
      · obtain ⟨place, left, rfl, hk⟩ := kinds_eq_cons h.symm
        rw [List.length_cons] at hlen hm
        rw [moreLinks_plain]
        refine (alike_ident hk.symm).andThen fun name another behind after hi hname hb => ?_
        have hlt := length_lt_of_plain hi
        exact ihm behind.length (by omega) (by omega)
          (by simp only [Expr.eraseSpans, htarget, hname]) hb rfl
      · obtain ⟨place, left, rfl, hk⟩ := kinds_eq_cons h.symm
        rw [List.length_cons] at hlen hm
        rw [moreLinks_plain]
        refine (alike_enclosed ih .rparen (by omega) hk.symm).andThen
          fun items others behind after ha hitems hb => ?_
        have hlt := length_lt_of_enclosed ha
        exact ihm behind.length (by omega) (by omega)
          (by simp only [Expr.eraseSpans, htarget, hitems]) hb rfl
      · obtain ⟨place, left, rfl, hk⟩ := kinds_eq_cons h.symm
        rw [List.length_cons] at hlen hm
        rw [moreLinks_plain]
        refine (alike_enclosed ih .rbracket (by omega) hk.symm).andThen
          fun items others behind after ha hitems hb => ?_
        have hlt := length_lt_of_enclosed ha
        have hempty : items.1.isEmpty = others.1.isEmpty := by
          rw [← List.isEmpty_map, hitems, List.isEmpty_map]
        dsimp only
        rw [hempty]
        split
        · rfl
        · exact ihm behind.length (by omega) (by omega)
            (by simp only [Expr.eraseSpans, htarget, hitems]) hb rfl
      · rename_i hdot hcall hindex
        rw [moreLinks_plain]
        split
        · obtain ⟨_, _, rfl, -⟩ := kinds_eq_cons h
          exact absurd rfl (hdot _ _)
        · obtain ⟨_, _, rfl, -⟩ := kinds_eq_cons h
          exact absurd rfl (hcall _ _)
        · obtain ⟨_, _, rfl, -⟩ := kinds_eq_cons h
          exact absurd rfl (hindex _ _)
        · exact .read htarget h

theorem alike_atomChain (hlen : tokens.length ≤ n) (h : kinds tokens = kinds others) :
    Alike (kept Expr.eraseSpans) (atomChain tokens).plain (atomChain others).plain := by
  rw [atomChain_plain, atomChain_plain]
  refine (alike_atom ih hlen h).andThen fun first other behind after ha hfirst hb => ?_
  have hlt := length_lt_of_plain ha
  exact alike_moreLinks ih (by omega) hfirst hb

theorem alike_operand (hlen : tokens.length ≤ n) (h : kinds tokens = kinds others) :
    Alike (kept Expr.eraseSpans) (operand tokens).plain (operand others).plain := by
  obtain ⟨m, hm⟩ : ∃ m, tokens.length = m := ⟨_, rfl⟩
  induction m using Nat.strongRecOn generalizing tokens others with
  | _ m ihm =>
      rw [operand_plain tokens, operand_plain others, peek_kind_of_kinds h]
      split
      · rename_i op hop
        cases tokens with
        | nil => rw [← peek_kind_of_kinds h] at hop; cases hop
        | cons token rest =>
            obtain ⟨place, left, rfl, hk⟩ := kinds_eq_cons h.symm
            rw [List.length_cons] at hlen hm
            refine (ihm rest.length (by omega) (by omega) hk.symm rfl).andThen
              fun inner other _ _ _ hinner hl => ?_
            exact .read (by simp only [Expr.eraseSpans, hinner]) hl
      · obtain ⟨hfirst, hsecond⟩ | ⟨type, other, span, place, left, right, hfirst, hsecond,
          htype, hk⟩ := cast?_alike h
        · rw [hfirst, hsecond]
          exact alike_atomChain ih hlen h
        · rw [hfirst, hsecond]
          have hlt := length_lt_of_cast? hfirst
          refine (ihm left.length (by omega) (by omega) hk rfl).andThen
            fun inner other _ _ _ hinner hl => ?_
          exact .read (by simp only [Expr.eraseSpans, htype, hinner]) hl

theorem alike_moreOperations {least : Nat} {left other : Expr} (hlen : tokens.length ≤ n)
    (hleft : left.eraseSpans = other.eraseSpans) (h : kinds tokens = kinds others) :
    Alike (kept Expr.eraseSpans) (moreOperations least left tokens).plain
      (moreOperations least other others).plain := by
  obtain ⟨m, hm⟩ : ∃ m, tokens.length = m := ⟨_, rfl⟩
  induction m using Nat.strongRecOn generalizing tokens others left other with
  | _ m ihm =>
      rw [moreOperations_plain least left tokens]
      cases tokens with
      | nil =>
          cases others with
          | nil =>
              rw [moreOperations_plain]
              exact .read hleft rfl
          | cons _ _ => cases h
      | cons token rest =>
          obtain ⟨kind, span⟩ := token
          obtain ⟨place, after, rfl, hk⟩ := kinds_eq_cons h.symm
          rw [List.length_cons] at hlen hm
          rw [moreOperations_plain]
          dsimp only
          split_ifs
          · refine (alike_typeName hk.symm).andThen fun type another behind beyond ht htype hb => ?_
            have hlt := length_lt_of_plain ht
            dsimp only
            exact ihm behind.length (by omega) (by omega)
              (by simp only [Expr.eraseSpans, hleft, htype]) hb rfl
          · exact .read hleft h
          · cases binaryOperator? kind with
            | none => exact .read hleft h
            | some op =>
                dsimp only
                split_ifs
                · refine (ih _ _ (by omega) hk.symm _).andThen
                    fun right another behind beyond hr hright hb => ?_
                  have hlt := length_lt_of_plain hr
                  dsimp only
                  exact ihm behind.length (by omega) (by omega)
                    (by simp only [Expr.eraseSpans, hleft, hright]) hb rfl
                · exact .read hleft h

end

theorem operation_alike (h : kinds tokens = kinds others) : OperationAlike tokens others := by
  obtain ⟨n, hn⟩ : ∃ n, tokens.length = n := ⟨_, rfl⟩
  induction n using Nat.strongRecOn generalizing tokens others with
  | _ n ih =>
      intro least
      have ih : ∀ tokens others : List Token, tokens.length < n → kinds tokens = kinds others →
          OperationAlike tokens others := fun tokens _ hlt hk => ih tokens.length hlt hk rfl
      rw [operation_plain, operation_plain]
      refine (alike_operand ih (by omega) h).andThen fun first other behind after ho hfirst hb => ?_
      have hlt := length_lt_of_plain ho
      exact alike_moreOperations ih (by omega) hfirst hb

-- What an expression is read as depends on the kinds of the tokens alone, and so does the fault.
theorem alike_wholeExpression (h : kinds tokens = kinds others) :
    Alike Expr.eraseSpans (wholeExpression tokens) (wholeExpression others) := by
  rw [wholeExpression_eq, wholeExpression_eq]
  refine (operation_alike h 1).andThen fun e other behind after _ he hb => ?_
  refine (alike_expect .eof hb).andThen fun _ _ _ _ _ _ _ => ?_
  exact .ok he

theorem alike_usingDirective {start place : Span} (h : kinds tokens = kinds others) :
    Alike (kept UsingDirective.eraseSpans) (usingDirective start tokens).plain
      (usingDirective place others).plain := by
  rw [usingDirective_plain, usingDirective_plain]
  refine (alike_ident h).andThen fun first other behind after _ hfirst hb => ?_
  by_cases hassign : (peek behind).kind = .symbol .assign
  · obtain ⟨_, rest, rfl⟩ := eq_cons_of_peek hassign nofun
    obtain ⟨_, left, rfl, hk⟩ := kinds_eq_cons hb.symm
    refine (alike_dottedName hk.symm).andThen fun path another _ _ _ hpath hl => ?_
    refine (alike_expect _ hl).andThen fun _ _ _ _ _ _ hr => ?_
    exact .read (by simp only [UsingDirective.eraseSpans, Option.map_some, hfirst, hpath]) hr
  · have hother : (peek after).kind ≠ .symbol .assign := peek_kind_of_kinds hb ▸ hassign
    dsimp only
    split
    · exact absurd rfl hassign
    · split
      · exact absurd rfl hother
      · refine (alike_moreNames hb).andThen fun names more _ _ _ hnames hl => ?_
        refine (alike_expect _ hl).andThen fun _ _ _ _ _ _ hr => ?_
        exact .read (by simp only [UsingDirective.eraseSpans, DottedName.eraseSpans, hfirst,
          hnames]) hr

theorem alike_usingDirectives (h : kinds tokens = kinds others) :
    Alike (kept (List.map UsingDirective.eraseSpans)) (usingDirectives tokens).plain
      (usingDirectives others).plain := by
  obtain ⟨n, hn⟩ : ∃ n, tokens.length = n := ⟨_, rfl⟩
  induction n using Nat.strongRecOn generalizing tokens others with
  | _ n ih =>
      by_cases husing : (peek tokens).kind = .keyword .usingWord
      · obtain ⟨start, rest, rfl⟩ := eq_cons_of_peek husing nofun
        obtain ⟨place, left, rfl, hk⟩ := kinds_eq_cons h.symm
        rw [List.length_cons] at hn
        rw [usingDirectives_plain, usingDirectives_plain]
        refine (alike_usingDirective hk.symm).andThen
          fun directive other behind after hd hdirective hb => ?_
        have hlt := length_lt_of_plain hd
        refine (ih _ (by omega) hb rfl).andThen fun directives others _ _ _ hdirectives hl => ?_
        exact .read (by rw [List.map_cons, List.map_cons, hdirective, hdirectives]) hl
      · have hother : (peek others).kind ≠ .keyword .usingWord := peek_kind_of_kinds h ▸ husing
        rw [usingDirectives_stay husing, usingDirectives_stay hother]
        exact .read rfl h

theorem alike_script (h : kinds tokens = kinds others) :
    Alike Script.eraseSpans (script tokens) (script others) := by
  rw [script_eq, script_eq]
  refine (alike_usingDirectives h).andThen fun usings others behind after _ husings hb => ?_
  refine (alike_wholeExpression hb).bind fun body other _ hbody => ?_
  exact .ok (by simp only [Script.eraseSpans, husings, hbody])

end Parser

end EventScript
