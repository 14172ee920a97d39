import EventScript.Proofs.Expr.TypeNames

namespace EventScript.Parser

variable {tokens left : List Token}

-- No operator follows that binds at least so tightly.
def Stops (least : Nat) (tokens : List Token) : Prop :=
  (least ≤ asPrecedence → (peek tokens).kind ≠ .keyword .asWord) ∧
    ∀ op, binaryOperator? (peek tokens).kind = some op → op.precedence < least

-- A grouped form of what has been read, and all that has been taken. In front of what is left no
-- part of the form could have been taken for anything else.
structure Reads (tree : ConcreteExpr) (e : Expr) (tokens left : List Token) : Prop where
  erase_eq : tree.erase = e
  yield_eq : tokens = tree.yield ++ left
  grouped : tree.Grouped
  readable : tree.Readable (peek left).kind

-- What follows a binary operation is no operator that its right operand would have taken. This is
-- what keeps the operations to the left of an operator at least as tight as the operator.
def ClosedBefore (tree : ConcreteExpr) (tokens : List Token) : Prop :=
  match tree with
  | .binary op _ _ _ => Stops (op.precedence + 1) tokens
  | _ => True

theorem closedBefore_of_isOperation {tree : ConcreteExpr} (tokens : List Token)
    (h : tree.isOperation = false) : ClosedBefore tree tokens := by
  cases tree with
  | binary => cases h
  | _ => trivial

theorem ClosedBefore.bindsAtLeast {tree : ConcreteExpr} {op : BinaryOperator}
    (h : ClosedBefore tree tokens) (hop : binaryOperator? (peek tokens).kind = some op) :
    tree.BindsAtLeast op.precedence := by
  cases tree with
  | binary => exact Nat.le_of_lt_succ (h.2 op hop)
  | _ => trivial

theorem ClosedBefore.bindsAtLeast_as {tree : ConcreteExpr} (h : ClosedBefore tree tokens)
    (has : (peek tokens).kind = .keyword .asWord) : tree.BindsAtLeast asPrecedence := by
  cases tree with
  | binary op => exact Nat.le_of_not_lt fun hlt => h.1 hlt has
  | _ => trivial

-- A cast that has been given up in front of a dotted name in parentheses has no operand.
theorem not_startsCastOperand_of_dotted {inner : ConcreteExpr} {opened closed : Span}
    (h : inner.isDottedName = true)
    (hcast : cast? (⟨.symbol .lparen, opened⟩ :: (inner.yield ++
      Symbol.rparen.token closed :: left)) = none) :
    startsCastOperand (peek left).kind = false := by
  rw [← Bool.not_eq_true]
  intro hstarts
  obtain ⟨path, hpath⟩ := inner.exists_path h
  have htype : inner.yield = (ConcreteType.simple path none).yield := by
    rw [hpath, ConcreteType.yield, questionYield, Option.toList_none, List.map_nil,
      List.append_nil]
  rw [htype, ← Symbol.token, cast?_complete _ hstarts] at hcast
  cases hcast

-- What has to be shown of the tokens of an operation.
def OperationSound (tokens : List Token) : Prop :=
  ∀ least e left, (operation least tokens).plain = .ok (e, left) →
    ∃ tree, Reads tree e tokens left ∧ tree.ReadAt least ∧ Stops least left

section

variable {n : Nat} (ih : ∀ tokens : List Token, tokens.length < n → OperationSound tokens)
include ih

theorem argumentList_sound {items : List Expr} (hlen : tokens.length < n)
    (h : (argumentList tokens).plain = .ok (items, left)) :
    ∃ trees : ConcreteExprs, trees.erase = items ∧ tokens = trees.yield ++ left ∧
      trees.Grouped ∧ trees.Readable (peek left).kind := by
  induction hn : tokens.length using Nat.strongRecOn generalizing tokens items with
  | _ m ihm =>
      rw [argumentList_plain, read_bind_eq_ok] at h
      obtain ⟨item, behind, hi, h⟩ := h
      have hlt := length_lt_of_plain hi
      obtain ⟨tree, ⟨rfl, rfl, hg, hr⟩, -⟩ := ih _ hlen _ _ _ hi
      simp only at h
      split at h
      · rename_i comma rest
        rw [List.length_cons] at hlt
        simp only [read_bind_eq_ok, Except.ok.injEq, Prod.mk.injEq] at h
        obtain ⟨more, _, hm, rfl, rfl⟩ := h
        obtain ⟨trees, rfl, rfl, hgs, hrs⟩ := ihm rest.length (by omega) (by omega) hm rfl
        exact ⟨.more tree comma trees, rfl, by simp [ConcreteExprs.yield, Symbol.token],
          ⟨hg, hgs⟩, hr, hrs⟩
      · obtain ⟨rfl, rfl⟩ := Prod.mk.inj (Except.ok.inj h)
        exact ⟨.last tree, rfl, rfl, hg, hr⟩

-- Between signs there is nothing, or there are arguments.
theorem enclosed_sound {close : Symbol} {items : List Expr} {stop : Span}
    (hlen : tokens.length < n) (h : enclosed close tokens = .ok ((items, stop), left)) :
    (items = [] ∧ tokens = close.token stop :: left) ∨
      ∃ trees : ConcreteExprs, trees.erase = items ∧
        tokens = trees.yield ++ close.token stop :: left ∧ trees.Grouped ∧
        trees.Readable (.symbol close) := by
  rw [enclosed_eq] at h
  split at h
  · simp only [read_bind_eq_ok, Except.ok.injEq, Prod.mk.injEq] at h
    obtain ⟨_, _, hs, ⟨rfl, rfl⟩, rfl⟩ := h
    exact .inl ⟨rfl, expect_plain_iff.mp hs⟩
  · simp only [read_bind_eq_ok, Except.ok.injEq, Prod.mk.injEq] at h
    obtain ⟨_, behind, ha, _, _, hs, ⟨rfl, rfl⟩, rfl⟩ := h
    obtain ⟨trees, rfl, rfl, hg, hr⟩ := argumentList_sound ih hlen ha
    obtain rfl := expect_plain_iff.mp hs
    exact .inr ⟨trees, rfl, rfl, hg, hr⟩

-- An atom is read where a cast has been given up.
theorem atom_sound {e : Expr} (hlen : tokens.length ≤ n) (hcast : cast? tokens = none)
    (h : (atom tokens).plain = .ok (e, left)) :
    ∃ tree, Reads tree e tokens left ∧ tree.isOperation = false ∧ tree.isPrefixed = false := by
  rw [atom_plain] at h
  split at h
  · cases h
  · rename_i name span rest
    obtain ⟨rfl, rfl⟩ := Prod.mk.inj (Except.ok.inj h)
    exact ⟨.name ⟨name, span⟩, ⟨rfl, rfl, trivial, trivial⟩, rfl, rfl⟩
  · rename_i start rest
    simp only [read_bind_eq_ok, Except.ok.injEq, Prod.mk.injEq] at h
    obtain ⟨inner, behind, hi, stop, _, hs, rfl, rfl⟩ := h
    obtain ⟨tree, ⟨rfl, rfl, hg, hr⟩, -⟩ := ih _ hlen _ _ _ hi
    obtain rfl := expect_plain_iff.mp hs
    refine ⟨.paren start tree stop, ⟨rfl, by simp [ConcreteExpr.yield, Symbol.token], hg, hr,
      fun hdotted => ?_⟩, rfl, rfl⟩
    exact not_startsCastOperand_of_dotted hdotted hcast
  · rename_i kind start rest _ _
    split at h
    · rename_i value hv
      obtain ⟨rfl, rfl⟩ := Prod.mk.inj (Except.ok.inj h)
      obtain rfl := Literal.kind_of_literal? hv
      exact ⟨.literal value start, ⟨rfl, rfl, trivial, trivial⟩, rfl, rfl⟩
    · split at h
      · rename_i hk
        simp only [read_bind_eq_ok, Except.ok.injEq, Prod.mk.injEq] at h
        obtain ⟨opened, _, ho, inner, _, hi, stop, _, hs, rfl, rfl⟩ := h
        obtain rfl := expect_plain_iff.mp ho
        simp only [List.length_cons] at hlen
        obtain ⟨tree, ⟨rfl, rfl, hg, hr⟩, -⟩ := ih _ (by omega) _ _ _ hi
        obtain rfl := expect_plain_iff.mp hs
        refine ⟨.guarded (kind = .keyword .checkedWord) start opened tree stop,
          ⟨rfl, ?_, hg, hr⟩, rfl, rfl⟩
        rcases hk with rfl | rfl <;>
          simp [ConcreteExpr.yield, scopeWord, Keyword.token, Symbol.token]
      · cases h

-- One link makes a longer form of the target, with fewer tokens behind it.
theorem link_sound {target : ConcreteExpr} {e : Expr} (hlen : tokens.length ≤ n)
    (h : (moreLinks target.erase tokens).plain = .ok (e, left)) (hg : target.Grouped)
    (hr : target.Readable (peek tokens).kind) (hop : target.isOperation = false)
    (hpre : target.isPrefixed = false) :
    (target.erase = e ∧ tokens = left) ∨ ∃ next behind, behind.length < tokens.length ∧
      (moreLinks (ConcreteExpr.erase next) behind).plain = .ok (e, left) ∧
      target.yield ++ tokens = next.yield ++ behind ∧ next.Grouped ∧
      next.Readable (peek behind).kind ∧ next.isOperation = false ∧ next.isPrefixed = false := by
  rw [moreLinks_plain] at h
  split at h
  · rename_i dot rest
    rw [read_bind_eq_ok] at h
    obtain ⟨name, behind, hi, h⟩ := h
    have hlt := length_lt_of_plain hi
    obtain rfl := ident_plain_iff.mp hi
    rw [List.length_cons] at hlt
    refine .inr ⟨.member target dot name, behind, ?_, h, ?_, ⟨hg, hop, hpre⟩, hr, rfl, rfl⟩
    · simp only [List.length_cons]
      omega
    · simp [ConcreteExpr.yield, Symbol.token, Ident.token]
  · rename_i opened rest
    rw [List.length_cons] at hlen
    rw [bind_eq_ok] at h
    obtain ⟨⟨⟨items, stop⟩, behind⟩, ha, h⟩ := h
    simp only at h
    obtain ⟨rfl, rfl⟩ | ⟨trees, rfl, rfl, hgs, hrs⟩ := enclosed_sound ih (by omega) ha
    · refine .inr ⟨.emptyCall target opened stop, behind, ?_, h, ?_, ⟨hg, hop, hpre⟩, hr, rfl, rfl⟩
      · simp only [List.length_cons]
        omega
      · simp [ConcreteExpr.yield, Symbol.token]
    · refine .inr ⟨.call target opened trees stop, behind, ?_, h, ?_, ⟨hg, hop, hpre, hgs⟩,
        ⟨hr, hrs⟩, rfl, rfl⟩
      · simp only [List.length_cons, List.length_append]
        omega
      · simp [ConcreteExpr.yield, Symbol.token]
  · rename_i opened rest
    rw [List.length_cons] at hlen
    rw [bind_eq_ok] at h
    obtain ⟨⟨⟨items, stop⟩, behind⟩, ha, h⟩ := h
    simp only at h
    split at h
    · cases h
    obtain ⟨rfl, -⟩ | ⟨trees, rfl, rfl, hgs, hrs⟩ := enclosed_sound ih (by omega) ha
    · rename_i hempty
      exact absurd rfl hempty
    · refine .inr ⟨.index target opened trees stop, behind, ?_, h, ?_, ⟨hg, hop, hpre, hgs⟩,
        ⟨hr, hrs⟩, rfl, rfl⟩
      · simp only [List.length_cons, List.length_append]
        omega
      · simp [ConcreteExpr.yield, Symbol.token]
  · exact .inl (Prod.mk.inj (Except.ok.inj h))

theorem moreLinks_sound {target : ConcreteExpr} {e : Expr} (hlen : tokens.length ≤ n)
    (h : (moreLinks target.erase tokens).plain = .ok (e, left)) (hg : target.Grouped)
    (hr : target.Readable (peek tokens).kind) (hop : target.isOperation = false)
    (hpre : target.isPrefixed = false) :
    ∃ tree, Reads tree e (target.yield ++ tokens) left ∧ tree.isOperation = false ∧
      tree.isPrefixed = false := by
  induction hn : tokens.length using Nat.strongRecOn generalizing tokens target with
  | _ m ihm =>
      obtain ⟨rfl, rfl⟩ | ⟨next, behind, hlt, hnext, hyield, hgn, hrn, hopn, hpren⟩ :=
        link_sound ih hlen h hg hr hop hpre
      · exact ⟨target, ⟨rfl, rfl, hg, hr⟩, hop, hpre⟩
      · rw [hyield]
        exact ihm behind.length (hn ▸ hlt) (by omega) hnext hgn hrn hopn hpren rfl

theorem atomChain_sound {e : Expr} (hlen : tokens.length ≤ n) (hcast : cast? tokens = none)
    (h : (atomChain tokens).plain = .ok (e, left)) :
    ∃ tree, Reads tree e tokens left ∧ tree.isOperation = false ∧ tree.isPrefixed = false := by
  rw [atomChain_plain, read_bind_eq_ok] at h
  obtain ⟨first, behind, ha, h⟩ := h
  have hlt := length_lt_of_plain ha
  obtain ⟨tree, ⟨rfl, rfl, hg, hr⟩, hop, hpre⟩ := atom_sound ih hlen hcast ha
  exact moreLinks_sound ih (by omega) h hg hr hop hpre

theorem operand_sound {e : Expr} (hlen : tokens.length ≤ n)
    (h : (operand tokens).plain = .ok (e, left)) :
    ∃ tree, Reads tree e tokens left ∧ tree.isOperation = false := by
  induction hn : tokens.length using Nat.strongRecOn generalizing tokens e with
  | _ m ihm =>
      rw [operand_plain] at h
      split at h
      · rename_i op hop
        cases tokens with
        | nil => cases hop
        | cons token rest =>
            obtain ⟨kind, sign⟩ := token
            obtain rfl := UnaryOperator.kind_of_unaryOperator? hop
            rw [List.length_cons] at hlen hn
            simp only [List.tail_cons, read_bind_eq_ok, Except.ok.injEq, Prod.mk.injEq] at h
            obtain ⟨inner, _, hi, rfl, rfl⟩ := h
            obtain ⟨tree, ⟨rfl, rfl, hg, hr⟩, ho⟩ := ihm rest.length (by omega) (by omega) hi rfl
            exact ⟨.unary op sign tree, ⟨rfl, rfl, ⟨hg, ho⟩, hr⟩, rfl⟩
      · split at h
        · rename_i type span behind hc
          obtain ⟨opened, form, closed, rfl, rfl, rfl, hstarts⟩ := cast?_sound hc
          simp only [List.length_cons, List.length_append] at hlen hn
          simp only [read_bind_eq_ok, Except.ok.injEq, Prod.mk.injEq] at h
          obtain ⟨inner, _, hi, rfl, rfl⟩ := h
          obtain ⟨tree, ⟨rfl, rfl, hg, hr⟩, ho⟩ := ihm behind.length (by omega) (by omega) hi rfl
          rw [tree.peek_yield_append] at hstarts
          exact ⟨.cast opened form closed tree,
            ⟨rfl, by simp [ConcreteExpr.yield], ⟨hg, ho⟩, hr, hstarts⟩, rfl⟩
        · rename_i hcast
          obtain ⟨tree, hr, ho, -⟩ := atomChain_sound ih hlen hcast h
          exact ⟨tree, hr, ho⟩

-- One operator with its right side makes a longer form of what stands to the left, unless it is
-- left to the context.
theorem operator_sound {least : Nat} {tree : ConcreteExpr} {e : Expr} (hlen : tokens.length ≤ n)
    (h : (moreOperations least tree.erase tokens).plain = .ok (e, left))
    (hg : tree.Grouped) (hr : tree.Readable (peek tokens).kind) (hat : tree.ReadAt least)
    (hclosed : ClosedBefore tree tokens) :
    (tree.erase = e ∧ tokens = left ∧ Stops least left) ∨
      ∃ next behind, behind.length < tokens.length ∧
        (moreOperations least (ConcreteExpr.erase next) behind).plain = .ok (e, left) ∧
        tree.yield ++ tokens = next.yield ++ behind ∧ next.Grouped ∧
        next.Readable (peek behind).kind ∧ next.ReadAt least ∧ ClosedBefore next behind := by
  rw [moreOperations_plain] at h
  split at h
  · obtain ⟨rfl, rfl⟩ := Prod.mk.inj (Except.ok.inj h)
    exact .inl ⟨rfl, rfl, by simp [Stops, peek, binaryOperator?]⟩
  · rename_i kind place rest
    rw [List.length_cons] at hlen
    split_ifs at h with has hle
    · subst has
      rw [read_bind_eq_ok] at h
      obtain ⟨type, behind, ht, h⟩ := h
      obtain ⟨form, rfl, rfl, hends⟩ := typeName_sound ht
      have hlt := length_lt_of_plain ht
      refine .inr ⟨.asType tree place form, behind, by rw [List.length_cons]; omega, h, ?_,
        ⟨hg, hclosed.bindsAtLeast_as rfl⟩, ⟨hr, hends⟩, ⟨hle, hat⟩, trivial⟩
      simp [ConcreteExpr.yield, Keyword.token]
    · obtain ⟨rfl, rfl⟩ := Prod.mk.inj (Except.ok.inj h)
      subst has
      exact .inl ⟨rfl, rfl, fun h => absurd h hle, fun op hop => by cases hop⟩
    · split at h
      · rename_i hnone
        obtain ⟨rfl, rfl⟩ := Prod.mk.inj (Except.ok.inj h)
        refine .inl ⟨rfl, rfl, fun _ => has, fun op hop => ?_⟩
        rw [show binaryOperator? kind = some op from hop] at hnone
        cases hnone
      · rename_i op hop
        split_ifs at h with hle
        · obtain rfl := BinaryOperator.kind_of_binaryOperator? hop
          rw [read_bind_eq_ok] at h
          obtain ⟨right, behind, hright, h⟩ := h
          have hlt := length_lt_of_plain hright
          obtain ⟨rightTree, ⟨rfl, rfl, hgr, hrr⟩, hatr, hstops⟩ := ih _ (by omega) _ _ _ hright
          have hgroup : (ConcreteExpr.binary op tree place rightTree).Grouped := by
            refine ⟨hg, hgr, hclosed.bindsAtLeast hop, hatr.bindsAtLeast, fun hop => ?_⟩
            rw [← Bool.not_eq_true]
            exact fun has => Nat.not_succ_le_self _ (Nat.le_trans (hatr.le_of_isAs has) hop)
          refine .inr ⟨.binary op tree place rightTree, behind, by rw [List.length_cons]; omega, h,
            ?_, hgroup, ⟨hr, hrr, hatr⟩, ⟨hle, hat⟩, hstops⟩
          simp [ConcreteExpr.yield, Symbol.token]
        · obtain ⟨rfl, rfl⟩ := Prod.mk.inj (Except.ok.inj h)
          refine .inl ⟨rfl, rfl, fun _ => has, fun other hother => ?_⟩
          obtain rfl : op = other := Option.some.inj (hop.symm.trans hother)
          exact Nat.not_le.mp hle

theorem moreOperations_sound {least : Nat} {tree : ConcreteExpr} {e : Expr}
    (hlen : tokens.length ≤ n) (h : (moreOperations least tree.erase tokens).plain = .ok (e, left))
    (hg : tree.Grouped) (hr : tree.Readable (peek tokens).kind) (hat : tree.ReadAt least)
    (hclosed : ClosedBefore tree tokens) :
    ∃ whole, Reads whole e (tree.yield ++ tokens) left ∧ whole.ReadAt least ∧
      Stops least left := by
  induction hn : tokens.length using Nat.strongRecOn generalizing tokens tree with
  | _ m ihm =>
      obtain ⟨rfl, rfl, hstops⟩ | ⟨next, behind, hlt, hnext, hyield, hgn, hrn, hatn, hcn⟩ :=
        operator_sound ih hlen h hg hr hat hclosed
      · exact ⟨tree, ⟨rfl, rfl, hg, hr⟩, hat, hstops⟩
      · rw [hyield]
        exact ihm behind.length (hn ▸ hlt) (by omega) hnext hgn hrn hatn hcn rfl

end

-- The induction is on the number of tokens: every operation inside another is read from fewer.
theorem operation_sound (tokens : List Token) : OperationSound tokens := by
  induction hn : tokens.length using Nat.strongRecOn generalizing tokens with
  | _ n ih =>
      intro least e left h
      have ih : ∀ rest : List Token, rest.length < n → OperationSound rest :=
        fun rest hlt => ih rest.length hlt rest rfl
      rw [operation_plain, read_bind_eq_ok] at h
      obtain ⟨first, behind, ho, h⟩ := h
      have hlt := length_lt_of_plain ho
      obtain ⟨tree, ⟨rfl, rfl, hg, hr⟩, hop⟩ := operand_sound ih (by omega) ho
      exact moreOperations_sound ih (by omega) h hg hr
        (ConcreteExpr.readAt_of_isOperation least hop) (closedBefore_of_isOperation behind hop)

theorem wholeExpression_reads {tokens : List Token} {e : Expr}
    (h : wholeExpression tokens = .ok e) :
    ∃ tree stop left, Reads tree e tokens (⟨.eof, stop⟩ :: left) := by
  simp only [wholeExpression_eq, read_bind_eq_ok, Except.ok.injEq] at h
  obtain ⟨_, behind, ho, stop, left, he, rfl⟩ := h
  obtain ⟨tree, hreads, -⟩ := operation_sound tokens 1 _ _ ho
  obtain rfl := expect_plain_iff.mp he
  exact ⟨tree, stop, left, hreads⟩

-- An expression that has been read with nothing behind it is what some grouped form erases to, and
-- the form consists of exactly the tokens in front of the end.
theorem wholeExpression_sound {tokens : List Token} {e : Expr}
    (h : wholeExpression tokens = .ok e) :
    ∃ tree : ConcreteExpr, tree.erase = e ∧
      tree.yield = tokens.takeWhile (fun token => token.kind ≠ .eof) ∧ tree.Grouped := by
  obtain ⟨tree, stop, left, rfl, rfl, hg⟩ := wholeExpression_reads h
  refine ⟨tree, rfl, ?_, hg⟩
  rw [List.takeWhile_append_of_pos fun token ht => by simpa using tree.endFree_yield token ht]
  simp

-- Here the operators group to the left, and the parentheses end the choice of a cast.
theorem wholeExpression_sound_subtraction :
    let tokens : List Token :=
      [⟨.ident "a", ⟨0, 1⟩⟩, ⟨.symbol .minus, ⟨1, 2⟩⟩, ⟨.symbol .lparen, ⟨2, 3⟩⟩,
        ⟨.ident "b", ⟨3, 4⟩⟩, ⟨.symbol .rparen, ⟨4, 5⟩⟩, ⟨.symbol .minus, ⟨5, 6⟩⟩,
        ⟨.ident "c", ⟨6, 7⟩⟩, ⟨.eof, ⟨7, 7⟩⟩]
    ∃ e, wholeExpression tokens = .ok e ∧ ∃ tree : ConcreteExpr, tree.erase = e ∧
      tree.yield = tokens.takeWhile (fun token => token.kind ≠ .eof) ∧ tree.Grouped := by
  intro tokens
  have hok : (wholeExpression tokens).toOption.any (fun _ => true) = true := by decide +kernel
  obtain ⟨e, h, -⟩ := exists_ok_of_any hok
  exact ⟨e, h, wholeExpression_sound h⟩

end EventScript.Parser
