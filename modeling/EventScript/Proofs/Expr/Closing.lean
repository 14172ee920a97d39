import EventScript.Proofs.Expr.Directives

namespace EventScript

-- The script with `checked` or `unchecked` around its body.
def ConcreteScript.inScope (script : ConcreteScript) (checked : Bool) : ConcreteScript :=
  { script with body := .guarded checked .none .none script.body .none }

namespace Parser

variable {α β : Type} {n : Nat} {front tail other : List Token}

-- What is read in front of one rest is read in front of the other, and the same is left of both.
def ReadsOn (tail other : List Token) (x y : Except SyntaxError (α × List Token)) : Prop :=
  ∀ a left, x = .ok (a, left) → ∃ behind, left = behind ++ tail ∧ y = .ok (a, behind ++ other)

theorem front_lt {behind : List Token} (h : (behind ++ tail).length < (front ++ tail).length) :
    behind.length < front.length := by
  rw [List.length_append, List.length_append] at h
  exact Nat.lt_of_add_lt_add_right h

namespace ReadsOn

theorem read {a : α} {behind : List Token} :
    ReadsOn tail other (.ok (a, behind ++ tail)) (.ok (a, behind ++ other)) := by
  rintro _ _ ⟨⟩
  exact ⟨behind, rfl, rfl⟩

theorem here {a : α} : ReadsOn tail other (.ok (a, tail)) (.ok (a, other)) := by
  rintro _ _ ⟨⟩
  exact ⟨[], rfl, rfl⟩

theorem error {e : SyntaxError} {y : Except SyntaxError (α × List Token)} :
    ReadsOn tail other (.error e) y := nofun

theorem andThen {x y : Except SyntaxError (α × List Token)}
    {f g : α × List Token → Except SyntaxError (β × List Token)} (h : ReadsOn tail other x y)
    (hnext : ∀ a behind, x = .ok (a, behind ++ tail) →
      ReadsOn tail other (f (a, behind ++ tail)) (g (a, behind ++ other))) :
    ReadsOn tail other (x >>= f) (y >>= g) := by
  cases x with
  | error e => exact nofun
  | ok read =>
      obtain ⟨behind, hleft, rfl⟩ := h read.1 read.2 rfl
      have hread : read = (read.1, behind ++ tail) := Prod.ext rfl hleft
      rw [hread]
      exact hnext _ _ (congrArg Except.ok hread)

end ReadsOn

-- The end of the input and the closing parenthesis, which nothing goes on with.
def shuts : TokenKind → Bool
  | .eof | .symbol .rparen => true
  | _ => false

def Shut (tokens : List Token) : Prop := shuts (peek tokens).kind = true

theorem Shut.ne {kind : TokenKind} (h : Shut tail) (hk : shuts kind = false) :
    (peek tail).kind ≠ kind := by
  rintro rfl
  rw [Shut, hk] at h
  cases h

-- Which sign stands first is told by what stands in front of the rest.
theorem front_cases (ht : Shut tail) (ho : Shut other) (front : List Token) (kind : TokenKind)
    (hk : shuts kind = false) :
    (∃ span rest, front = ⟨kind, span⟩ :: rest) ∨
      (peek (front ++ tail)).kind ≠ kind ∧ (peek (front ++ other)).kind ≠ kind := by
  cases front with
  | nil => exact .inr ⟨ht.ne hk, ho.ne hk⟩
  | cons token rest =>
      by_cases hkind : token.kind = kind
      · exact .inl ⟨token.span, rest, by rw [← hkind]⟩
      · exact .inr ⟨hkind, hkind⟩

theorem readsOn_expect {kind : TokenKind} (h : (peek tail).kind ≠ kind) (front : List Token) :
    ReadsOn tail other (expect kind (front ++ tail)).plain
      (expect kind (front ++ other)).plain := by
  intro span left hread
  have htokens := expect_plain_iff.mp hread
  cases front with
  | nil =>
      rw [List.nil_append] at htokens
      exact absurd (congrArg (fun tokens => (peek tokens).kind) htokens) h
  | cons token front =>
      obtain ⟨rfl, rfl⟩ := List.cons.inj htokens
      exact ⟨front, rfl, expect_plain_iff.mpr rfl⟩

section

variable (ht : Shut tail) (ho : Shut other)
include ht

theorem readsOn_ident (front : List Token) :
    ReadsOn tail other (ident (front ++ tail)).plain (ident (front ++ other)).plain := by
  intro name left hread
  have htokens := ident_plain_iff.mp hread
  cases front with
  | nil =>
      rw [List.nil_append] at htokens
      exact absurd (congrArg (fun tokens => (peek tokens).kind) htokens) (ht.ne rfl)
  | cons token front =>
      obtain ⟨rfl, rfl⟩ := List.cons.inj htokens
      exact ⟨front, rfl, ident_plain_iff.mpr rfl⟩

include ho

theorem readsOn_moreNames (front : List Token) :
    ReadsOn tail other (moreNames (front ++ tail)).plain (moreNames (front ++ other)).plain := by
  obtain ⟨n, hn⟩ : ∃ n, front.length = n := ⟨_, rfl⟩
  induction n using Nat.strongRecOn generalizing front with
  | _ n ih =>
      obtain ⟨dot, rest, rfl⟩ | ⟨hdot, hother⟩ := front_cases ht ho front (.symbol .dot) rfl
      · rw [List.cons_append, List.cons_append, moreNames_plain, moreNames_plain]
        rw [List.length_cons] at hn
        refine (readsOn_ident ht rest).andThen fun name behind hi => ?_
        have hlt := front_lt (length_lt_of_plain hi)
        exact (ih _ (by omega) behind rfl).andThen fun names left _ => .read
      · rw [moreNames_stay hdot, moreNames_stay hother]
        exact .read

theorem readsOn_dottedName (front : List Token) :
    ReadsOn tail other (dottedName (front ++ tail)).plain (dottedName (front ++ other)).plain := by
  rw [dottedName_plain, dottedName_plain]
  refine (readsOn_ident ht front).andThen fun first behind _ => ?_
  exact (readsOn_moreNames ht ho behind).andThen fun rest left _ => .read

theorem readsOn_ended (path : DottedName) (arguments : List TypeName) (span : Span)
    (front : List Token) :
    ReadsOn tail other (.ok (ended path arguments span (front ++ tail)))
      (.ok (ended path arguments span (front ++ other))) := by
  obtain ⟨stop, rest, rfl⟩ | ⟨hq, hother⟩ := front_cases ht ho front (.symbol .question) rfl
  · exact .read
  · rw [ended_stay hq, ended_stay hother]
    exact .read

theorem readsOn_typeName_of
    (ih : ∀ rest : List Token, rest.length < front.length →
      ReadsOn tail other (typeArguments (rest ++ tail)).plain
        (typeArguments (rest ++ other)).plain) :
    ReadsOn tail other (typeName (front ++ tail)).plain (typeName (front ++ other)).plain := by
  rw [typeName_plain, typeName_plain]
  refine (readsOn_dottedName ht ho front).andThen fun path behind hp => ?_
  have hlt := front_lt (length_lt_of_plain hp)
  dsimp only
  obtain ⟨opened, rest, rfl⟩ | ⟨hopen, hother⟩ := front_cases ht ho behind (.symbol .lt) rfl
  · rw [List.length_cons] at hlt
    refine (ih rest (by omega)).andThen fun types behind _ => ?_
    refine (readsOn_expect (ht.ne rfl) behind).andThen fun stop left _ => ?_
    exact readsOn_ended ht ho _ _ _ _
  · split
    · rename_i heq
      exact absurd (by rw [heq]; rfl) hopen
    · split
      · rename_i heq
        exact absurd (by rw [heq]; rfl) hother
      · exact readsOn_ended ht ho _ _ _ _

theorem readsOn_typeArguments (front : List Token) :
    ReadsOn tail other (typeArguments (front ++ tail)).plain
      (typeArguments (front ++ other)).plain := by
  obtain ⟨n, hn⟩ : ∃ n, front.length = n := ⟨_, rfl⟩
  induction n using Nat.strongRecOn generalizing front with
  | _ n ih =>
      rw [typeArguments_plain, typeArguments_plain]
      refine (readsOn_typeName_of ht ho fun rest hlt => ih rest.length (hn ▸ hlt) rest rfl).andThen
        fun type behind hread => ?_
      have hlt := front_lt (length_lt_of_plain hread)
      dsimp only
      obtain ⟨comma, rest, rfl⟩ | ⟨hcomma, hother⟩ :=
        front_cases ht ho behind (.symbol .comma) rfl
      · rw [List.length_cons] at hlt
        exact (ih rest.length (by omega) rest rfl).andThen fun types left _ => .read
      · split
        · rename_i heq
          exact absurd (by rw [heq]; rfl) hcomma
        · split
          · rename_i heq
            exact absurd (by rw [heq]; rfl) hother
          · exact .read

theorem readsOn_typeName (front : List Token) :
    ReadsOn tail other (typeName (front ++ tail)).plain (typeName (front ++ other)).plain :=
  readsOn_typeName_of ht ho fun rest _ => readsOn_typeArguments ht ho rest

end

-- Expressions

-- The end of the input alone.
abbrev ending (stop : Span) : List Token := [⟨.eof, stop⟩]

theorem shut_ending (stop : Span) : Shut (ending stop) := rfl

theorem not_ok_ending (stop : Span) (least : Nat) (e : Expr) (left : List Token) :
    (operation least (ending stop)).plain ≠ .ok (e, left) := by
  intro h
  obtain ⟨tree, ⟨-, hyield, -⟩, -⟩ := operation_sound _ _ _ _ h
  obtain ⟨token, rest, hfirst, hkind⟩ := tree.yield_eq_cons
  rw [hfirst] at hyield
  obtain ⟨rfl, -⟩ := List.cons.inj hyield
  cases hkind

theorem readsOn_sign (stop : Span) (sign : Symbol) (front : List Token) :
    ReadsOn (ending stop) other (expectSymbol sign (front ++ ending stop)).plain
      (expectSymbol sign (front ++ other)).plain := by
  have hsign : (peek (ending stop)).kind ≠ .symbol sign := nofun
  exact readsOn_expect hsign front

theorem shut_other (ho : (peek other).kind = .symbol .rparen) : Shut other := by
  rw [Shut, ho]
  rfl

-- Whether an operand of a cast follows is told by what stands in front of the rest, too.
theorem startsCastOperand_eq (ht : Shut tail) (ho : Shut other) (front : List Token) :
    startsCastOperand (peek (front ++ tail)).kind =
      startsCastOperand (peek (front ++ other)).kind := by
  have hends {kind : TokenKind} (h : shuts kind = true) : startsCastOperand kind = false := by
    unfold shuts at h
    split at h
    · rfl
    · rfl
    · cases h
  cases front with
  | nil => exact (hends ht).trans (hends ho).symm
  | cons token front => rfl

-- A cast in front of one rest is a cast in front of the other, unless its closing parenthesis is
-- the first token of the rest.
theorem cast?_readsOn (ht : Shut tail) (ho : Shut other) {type : TypeName} {span : Span}
    {left : List Token} (h : cast? (front ++ tail) = some (type, span, left)) :
    (∃ behind, left = behind ++ tail ∧
        cast? (front ++ other) = some (type, span, behind ++ other)) ∨
      (peek tail).kind = .symbol .rparen ∧
        ∃ opened rest, front = ⟨.symbol .lparen, opened⟩ :: rest ∧ ConsistsOf isTypeToken rest := by
  obtain ⟨opened, closed, whole, hwhole, hread, hstarts, rfl⟩ := cast?_eq_some.mp h
  obtain ⟨_, rest, rfl⟩ | ⟨hopen, -⟩ := front_cases ht ho front (.symbol .lparen) rfl
  · obtain ⟨rfl, rfl⟩ := by simpa using hwhole
    obtain ⟨behind, hleft, hother⟩ := readsOn_typeName ht ho rest _ _ hread
    cases behind with
    | nil =>
        obtain ⟨form, -, hyield, -⟩ := typeName_sound hread
        rw [hleft, List.nil_append, List.append_left_inj] at hyield
        refine .inr ⟨?_, _, rest, rfl, hyield ▸ form.consistsOf_yield⟩
        rw [← List.nil_append tail, ← hleft]
        rfl
    | cons token behind =>
        rw [List.cons_append] at hleft
        obtain ⟨rfl, rfl⟩ := List.cons.inj hleft
        rw [startsCastOperand_eq ht ho] at hstarts
        exact .inl ⟨behind, rfl, cast?_eq_some.mpr ⟨_, _, _, rfl, hother, hstarts, rfl⟩⟩
  · rw [hwhole] at hopen
    exact absurd rfl hopen

theorem not_ok_unclosed {stop opened : Span} {rest : List Token}
    (hrest : ConsistsOf isTypeToken rest) (e : Expr) (left : List Token) :
    (atomChain (⟨.symbol .lparen, opened⟩ :: rest ++ ending stop)).plain ≠ .ok (e, left) := by
  intro h
  rw [atomChain_plain, List.cons_append, atom_plain] at h
  simp only [read_bind_eq_ok] at h
  obtain ⟨first, _, ⟨inner, behind, hi, closed, _, hc, -⟩, -⟩ := h
  obtain ⟨tree, ⟨-, hyield, -⟩, -⟩ := operation_sound _ _ _ _ hi
  have hmem : (⟨.symbol .rparen, closed⟩ : Token) ∈ rest ++ ending stop := by
    rw [hyield, expect_plain_iff.mp hc]
    simp
  rcases List.mem_append.mp hmem with hin | hin
  · cases hrest _ hin
  · cases List.mem_singleton.mp hin

-- What has to be shown of operations in front of the end of the input.
def OperationReadsOn (stop : Span) (other front : List Token) : Prop :=
  ∀ least, ReadsOn (ending stop) other (operation least (front ++ ending stop)).plain
    (operation least (front ++ other)).plain

section

variable {stop : Span}
  (ih : ∀ front : List Token, front.length < n → OperationReadsOn stop other front)
include ih

theorem readsOn_atom (hlen : front.length ≤ n) :
    ReadsOn (ending stop) other (atom (front ++ ending stop)).plain
      (atom (front ++ other)).plain := by
  cases front with
  | nil =>
      rw [List.nil_append, atom_plain]
      exact .error
  | cons token rest =>
      obtain ⟨kind, start⟩ := token
      rw [List.length_cons] at hlen
      by_cases hident : ∃ name, kind = .ident name
      · obtain ⟨name, rfl⟩ := hident
        rw [atom_plain, atom_plain]
        exact .read
      by_cases hparen : kind = .symbol .lparen
      · subst hparen
        rw [atom_plain, atom_plain]
        refine (ih rest (by omega) 1).andThen fun inner behind _ => ?_
        exact (readsOn_sign stop _ behind).andThen fun stop left _ => .read
      · rw [List.cons_append, List.cons_append,
          atom_other (fun name h => hident ⟨name, h⟩) hparen,
          atom_other (fun name h => hident ⟨name, h⟩) hparen]
        cases literal? kind with
        | some value => exact .read
        | none =>
            dsimp only
            split
            · refine (readsOn_sign stop _ rest).andThen fun _ opened he => ?_
              have hlt := front_lt (length_lt_of_plain he)
              refine (ih opened (by omega) 1).andThen fun inner behind _ => ?_
              exact (readsOn_sign stop _ behind).andThen fun stop left _ => .read
            · exact .error

variable (ho : (peek other).kind = .symbol .rparen)
include ho

theorem readsOn_argumentList (hlen : front.length < n) :
    ReadsOn (ending stop) other (argumentList (front ++ ending stop)).plain
      (argumentList (front ++ other)).plain := by
  obtain ⟨m, hm⟩ : ∃ m, front.length = m := ⟨_, rfl⟩
  induction m using Nat.strongRecOn generalizing front with
  | _ m ihm =>
      rw [argumentList_plain, argumentList_plain]
      refine (ih front hlen 1).andThen fun item behind hi => ?_
      have hlt := front_lt (length_lt_of_plain hi)
      dsimp only
      obtain ⟨comma, rest, rfl⟩ | ⟨hcomma, hother⟩ :=
        front_cases (shut_ending stop) (shut_other ho) behind (.symbol .comma) rfl
      · rw [List.length_cons] at hlt
        exact (ihm rest.length (by omega) (by omega) rfl).andThen fun items left _ => .read
      · split
        · rename_i heq
          exact absurd (by rw [heq]; rfl) hcomma
        · split
          · rename_i heq
            exact absurd (by rw [heq]; rfl) hother
          · exact .read

theorem readsOn_enclosed (close : Symbol) (hlen : front.length < n) :
    ReadsOn (ending stop) other (enclosed close (front ++ ending stop))
      (enclosed close (front ++ other)) := by
  rw [enclosed_eq, enclosed_eq]
  cases front with
  | nil =>
      intro a left h
      rw [List.nil_append, if_neg nofun, argumentList_plain] at h
      simp only [read_bind_eq_ok] at h
      obtain ⟨_, _, ⟨item, _, hi, -⟩, -⟩ := h
      exact absurd hi (not_ok_ending stop 1 _ _)
  | cons token rest =>
      have hpeek : (peek (token :: rest ++ other)).kind =
          (peek (token :: rest ++ ending stop)).kind := rfl
      rw [hpeek]
      split
      · exact (readsOn_sign stop _ _).andThen fun stop left _ => .read
      · refine (readsOn_argumentList ih ho hlen).andThen fun items behind _ => ?_
        exact (readsOn_sign stop _ _).andThen fun stop left _ => .read

theorem readsOn_moreLinks (target : Expr) (hlen : front.length ≤ n) :
    ReadsOn (ending stop) other (moreLinks target (front ++ ending stop)).plain
      (moreLinks target (front ++ other)).plain := by
  obtain ⟨m, hm⟩ : ∃ m, front.length = m := ⟨_, rfl⟩
  induction m using Nat.strongRecOn generalizing front target with
  | _ m ihm =>
      cases front with
      | nil =>
          have hother : startsLink (peek other).kind = false := by
            rw [ho]
            rfl
          rw [List.nil_append, List.nil_append, moreLinks_stay rfl, moreLinks_stay hother]
          exact .here
      | cons token rest =>
          obtain ⟨kind, start⟩ := token
          rw [List.length_cons] at hlen hm
          have hnext (target : Expr) {behind : List Token} (hlt : behind.length < rest.length) :
              ReadsOn (ending stop) other (moreLinks target (behind ++ ending stop)).plain
                (moreLinks target (behind ++ other)).plain :=
            ihm behind.length (by omega) target (by omega) rfl
          rw [List.cons_append, List.cons_append]
          by_cases hdot : kind = .symbol .dot
          · subst hdot
            rw [moreLinks_plain, moreLinks_plain]
            refine (readsOn_ident (shut_ending stop) rest).andThen fun name behind hi => ?_
            have hlt := front_lt (length_lt_of_plain hi)
            exact hnext _ (by omega)
          by_cases hcall : kind = .symbol .lparen
          · subst hcall
            rw [moreLinks_plain, moreLinks_plain]
            refine (readsOn_enclosed ih ho .rparen (by omega)).andThen fun items behind he => ?_
            have hlt := front_lt (length_lt_of_enclosed he)
            exact hnext _ (by omega)
          by_cases hindex : kind = .symbol .lbracket
          · subst hindex
            rw [moreLinks_plain, moreLinks_plain]
            refine (readsOn_enclosed ih ho .rbracket (by omega)).andThen fun items behind he => ?_
            have hlt := front_lt (length_lt_of_enclosed he)
            dsimp only
            split
            · exact .error
            · exact hnext _ (by omega)
          · have hstay (tokens : List Token) :
                startsLink (peek (⟨kind, start⟩ :: tokens)).kind = false := by
              unfold startsLink peek
              split <;> simp_all
            rw [moreLinks_stay (hstay _), moreLinks_stay (hstay _), ← List.cons_append,
              ← List.cons_append]
            exact .read

theorem readsOn_atomChain (hlen : front.length ≤ n) :
    ReadsOn (ending stop) other (atomChain (front ++ ending stop)).plain
      (atomChain (front ++ other)).plain := by
  rw [atomChain_plain, atomChain_plain]
  refine (readsOn_atom ih hlen).andThen fun first behind ha => ?_
  have hlt := front_lt (length_lt_of_plain ha)
  exact readsOn_moreLinks ih ho first (by omega)

theorem readsOn_operand (hlen : front.length ≤ n) :
    ReadsOn (ending stop) other (operand (front ++ ending stop)).plain
      (operand (front ++ other)).plain := by
  obtain ⟨m, hm⟩ : ∃ m, front.length = m := ⟨_, rfl⟩
  induction m using Nat.strongRecOn generalizing front with
  | _ m ihm =>
      have hsign : unaryOperator? (peek (front ++ other)).kind =
          unaryOperator? (peek (front ++ ending stop)).kind := by
        cases front with
        | nil =>
            rw [List.nil_append, ho]
            rfl
        | cons token rest => rfl
      rw [operand_plain (front ++ ending stop), operand_plain (front ++ other), hsign]
      cases hop : unaryOperator? (peek (front ++ ending stop)).kind with
      | some op =>
          cases front with
          | nil => cases hop
          | cons token rest =>
              rw [List.length_cons] at hlen hm
              exact (ihm rest.length (by omega) (by omega) rfl).andThen fun inner behind _ => .read
      | none =>
          dsimp only
          cases hcast : cast? (front ++ ending stop) with
          | some found =>
              obtain ⟨type, span, left⟩ := found
              obtain ⟨behind, rfl, hcast'⟩ | ⟨hclosed, -⟩ :=
                cast?_readsOn (shut_ending stop) (shut_other ho) hcast
              · rw [hcast']
                have hlt := front_lt (length_lt_of_cast? hcast)
                have hnext := ihm behind.length (by omega) (by omega) rfl
                exact hnext.andThen fun inner left _ => .read
              · cases hclosed
          | none =>
              cases hcast' : cast? (front ++ other) with
              | none => exact readsOn_atomChain ih ho hlen
              | some found =>
                  obtain ⟨behind, -, hback⟩ | ⟨-, opened, rest, rfl, hrest⟩ :=
                    cast?_readsOn (shut_other ho) (shut_ending stop) hcast'
                  · rw [hcast] at hback
                    cases hback
                  · exact fun e left h => absurd h (not_ok_unclosed hrest e left)

theorem readsOn_moreOperations (least : Nat) (e : Expr) (hlen : front.length ≤ n) :
    ReadsOn (ending stop) other (moreOperations least e (front ++ ending stop)).plain
      (moreOperations least e (front ++ other)).plain := by
  obtain ⟨m, hm⟩ : ∃ m, front.length = m := ⟨_, rfl⟩
  induction m using Nat.strongRecOn generalizing front e with
  | _ m ihm =>
      cases front with
      | nil =>
          have hends : Ends other := ends_of_kind ho rfl nofun rfl
          have hends' : Ends (ending stop) := ends_of_kind rfl rfl nofun rfl
          rw [List.nil_append, List.nil_append, moreOperations_stay (hends.2 least),
            moreOperations_stay (hends'.2 least)]
          exact .here
      | cons token rest =>
          obtain ⟨kind, start⟩ := token
          rw [List.length_cons] at hlen hm
          have hnext (e : Expr) {behind : List Token} (hlt : behind.length < rest.length) :
              ReadsOn (ending stop) other (moreOperations least e (behind ++ ending stop)).plain
                (moreOperations least e (behind ++ other)).plain :=
            ihm behind.length (by omega) e (by omega) rfl
          have hstay : ReadsOn (ending stop) other (.ok (e, ⟨kind, start⟩ :: (rest ++ ending stop)))
              (.ok (e, ⟨kind, start⟩ :: (rest ++ other))) := by
            rw [← List.cons_append, ← List.cons_append]
            exact .read
          rw [List.cons_append, List.cons_append, moreOperations_plain, moreOperations_plain]
          dsimp only
          split
          · split
            · refine (readsOn_typeName (shut_ending stop) (shut_other ho) rest).andThen
                fun type behind ht => ?_
              have hlt := front_lt (length_lt_of_plain ht)
              exact hnext _ (by omega)
            · exact hstay
          · cases binaryOperator? kind with
            | none => exact hstay
            | some op =>
                dsimp only
                split
                · refine (ih rest (by omega) _).andThen fun right behind hr => ?_
                  have hlt := front_lt (length_lt_of_plain hr)
                  exact hnext _ (by omega)
                · exact hstay

end

-- The induction is on the number of tokens in front of the end.
theorem readsOn_operation (ho : (peek other).kind = .symbol .rparen) (stop : Span)
    (front : List Token) : OperationReadsOn stop other front := by
  obtain ⟨n, hn⟩ : ∃ n, front.length = n := ⟨_, rfl⟩
  induction n using Nat.strongRecOn generalizing front with
  | _ n ih =>
      have ih (front : List Token) (hlt : front.length < n) : OperationReadsOn stop other front :=
        ih front.length hlt front rfl
      intro least
      rw [operation_plain, operation_plain]
      refine (readsOn_operand ih ho (by omega)).andThen fun left behind hl => ?_
      have hlt := front_lt (length_lt_of_plain hl)
      exact readsOn_moreOperations ih ho least left (by omega)

-- Whole scripts

theorem operation_of_whole {tree : ConcreteExpr} {stop : Span} {e : Expr}
    (h : wholeExpression (tree.yield ++ ending stop) = .ok e)
    (ho : (peek other).kind = .symbol .rparen) :
    (operation 1 (tree.yield ++ other)).plain = .ok (e, other) := by
  simp only [wholeExpression_eq, read_bind_eq_ok, Except.ok.injEq] at h
  obtain ⟨_, left, hread, _, _, hend, rfl⟩ := h
  obtain ⟨behind, rfl, hother⟩ := readsOn_operation ho stop tree.yield 1 _ _ hread
  obtain ⟨whole, ⟨-, hyield, -⟩, -⟩ := operation_sound _ _ _ _ hread
  -- the end stands behind what has been read, so nothing of the form can be left
  cases behind with
  | nil => exact hother
  | cons token behind =>
      have heof : token.kind = .eof := by
        obtain ⟨rfl, -⟩ := List.cons.inj (expect_plain_iff.mp hend)
        rfl
      have hmem : token ∈ tree.yield := by
        rw [← List.append_assoc, List.append_left_inj] at hyield
        rw [hyield]
        simp
      exact absurd heof (tree.endFree_yield token hmem)

theorem wholeExpression_guarded {tree : ConcreteExpr} {stop : Span} {e : Expr}
    (h : wholeExpression (tree.yield ++ ending stop) = .ok e) (checked : Bool)
    (word opened closed place : Span) :
    wholeExpression ((ConcreteExpr.guarded checked word opened tree closed).yield ++ ending place) =
      .ok (.guarded checked e (word.hull closed)) := by
  have hinner : (operation 1 (tree.yield ++ Symbol.rparen.token closed :: ending place)).plain =
      .ok (e, Symbol.rparen.token closed :: ending place) := operation_of_whole h rfl
  have hends : Ends (ending place) := ends_of_kind rfl rfl nofun rfl
  have hyield : (ConcreteExpr.guarded checked word opened tree closed).yield ++ ending place =
      (scopeWord checked).token word :: Symbol.lparen.token opened ::
        (tree.yield ++ Symbol.rparen.token closed :: ending place) := by
    simp [ConcreteExpr.yield]
  have hcast : cast? ((scopeWord checked).token word :: Symbol.lparen.token opened ::
      (tree.yield ++ Symbol.rparen.token closed :: ending place)) = none := cast?_stay nofun
  rw [hyield, wholeExpression_eq, operation_plain, operand_plain]
  dsimp only [peek, Keyword.token, unaryOperator?]
  rw [← Keyword.token, hcast]
  dsimp only
  rw [atomChain_plain, atom_guarded_of hinner checked word opened, ok_bind]
  dsimp only
  rw [moreLinks_stay rfl, ok_bind]
  dsimp only
  rw [moreOperations_stay (hends.2 1), ok_bind]
  rfl

theorem script_inScope {form : ConcreteScript} {stop : Span} {script : Script}
    (h : Parser.script (form.yield ++ ending stop) = .ok script) (checked : Bool) (place : Span) :
    Parser.script ((form.inScope checked).yield ++ ending place) =
      .ok ⟨script.usings, .guarded checked script.body .none⟩ := by
  have hfirst (body : ConcreteExpr) (stop : Span) :
      (peek (body.yield ++ ending stop)).kind ≠ .keyword .usingWord := by
    rw [body.peek_yield_append]
    exact body.peek_yield_ne rfl
  rw [ConcreteScript.yield, List.append_assoc, script_eq,
    usingDirectives_complete form.usings (hfirst form.body stop), ok_bind] at h
  obtain ⟨body, hbody, hscript⟩ := bind_eq_ok.mp h
  obtain rfl := Except.ok.inj hscript
  rw [ConcreteScript.yield, List.append_assoc, script_eq, ConcreteScript.inScope,
    usingDirectives_complete form.usings (hfirst _ place), ok_bind]
  dsimp only
  rw [wholeExpression_guarded hbody]
  rfl

-- A directive in front of a script is the first of its directives.
theorem script_using (directive : ConcreteUsing) {tokens : List Token} {result : Script}
    (h : script tokens = .ok result) :
    script (directive.yield ++ tokens) =
      .ok { result with usings := directive.erase :: result.usings } := by
  have hyield : directive.yield ++ tokens = Keyword.usingWord.token directive.word ::
      (ConcreteUsing.yieldNickname directive.nickname ++ (directive.path.yield ++
        Symbol.semicolon.token directive.semicolon :: tokens)) := by
    simp [ConcreteUsing.yield]
  rw [script_eq, read_bind_eq_ok] at h
  obtain ⟨usings, behind, husings, h⟩ := h
  obtain ⟨body, hbody, hresult⟩ := bind_eq_ok.mp h
  obtain rfl := Except.ok.inj hresult
  rw [hyield, script_eq, usingDirectives_plain, Keyword.token]
  dsimp only
  rw [usingDirective_complete, ok_bind]
  dsimp only
  rw [husings, ok_bind, ok_bind]
  dsimp only
  rw [hbody, ok_bind]

end Parser

end EventScript
