import EventScript.Proofs.Expr.Completeness

namespace EventScript

def ConcreteExpr.isGroupedName : ConcreteExpr → Bool
  | .paren _ inner _ => inner.isDottedName
  | _ => false

mutual

-- There is no type in the expression, and no dotted name in parentheses is called: in front of
-- arguments it would be taken for a type.
def ConcreteExpr.CastFree : ConcreteExpr → Prop
  | .literal _ _ | .name _ => True
  | .paren _ inner _ | .guarded _ _ _ inner _ => inner.CastFree
  | .member target _ _ => target.CastFree
  | .emptyCall callee _ _ => callee.CastFree ∧ callee.isGroupedName = false
  | .call callee _ arguments _ =>
    callee.CastFree ∧ callee.isGroupedName = false ∧ arguments.CastFree
  | .index target _ arguments _ => target.CastFree ∧ arguments.CastFree
  | .unary _ _ operand => operand.CastFree
  | .binary _ left _ right => left.CastFree ∧ right.CastFree
  | .cast .. | .asType .. => False

def ConcreteExprs.CastFree : ConcreteExprs → Prop
  | .last e => e.CastFree
  | .more e _ rest => e.CastFree ∧ rest.CastFree

end

theorem BinaryOperator.startsCastOperand_sign (op : BinaryOperator) :
    Parser.startsCastOperand (.symbol op.sign) = false := by
  cases op <;> rfl

namespace ConcreteExpr

theorem BindsAtLeast.mono {e : ConcreteExpr} {least more : Nat} (h : e.BindsAtLeast more)
    (hle : least ≤ more) : e.BindsAtLeast least := by
  cases e with
  | binary => exact Nat.le_trans hle h
  | _ => trivial

-- Along the left sides the operators bind no less tightly the further the way goes down.
theorem readAt_of_bindsAtLeast {e : ConcreteExpr} {least : Nat} (hg : e.Grouped)
    (hfree : e.CastFree) (h : e.BindsAtLeast least) : e.ReadAt least := by
  match e with
  | binary op left _ _ =>
      obtain ⟨hgl, -, hbl, -⟩ := hg
      exact ⟨h, readAt_of_bindsAtLeast hgl hfree.1 (hbl.mono h)⟩
  | asType .. => exact hfree.elim
  | literal .. | name .. | paren .. | member .. | emptyCall .. | call .. | index .. | unary ..
  | cast .. | guarded .. => trivial

-- What follows is no operand of a cast, or the expression ends with no type in parentheses.
def ReadsBefore (next : TokenKind) (e : ConcreteExpr) : Prop :=
  Parser.startsCastOperand next = false ∨
    e.isOperation = false ∧ e.isPrefixed = false ∧ e.isGroupedName = false

end ConcreteExpr

mutual

-- Each part of the expression is followed by a sign in front of which nothing is taken for a cast.
-- Only what is called is followed by a sign that an operand starts with.
theorem ConcreteExpr.readable_of_castFree (e : ConcreteExpr) {next : TokenKind} (hg : e.Grouped)
    (hfree : e.CastFree) (hnext : e.ReadsBefore next) : e.Readable next := by
  match e with
  | .literal .. | .name _ => trivial
  | .paren _ inner _ =>
      refine ⟨inner.readable_of_castFree hg hfree (.inl rfl), fun hdotted => ?_⟩
      rcases hnext with hnext | ⟨-, -, hname⟩
      · exact hnext
      · exact absurd hdotted (Bool.eq_false_iff.mp hname)
  | .member target _ _ => exact target.readable_of_castFree hg.1 hfree (.inl rfl)
  | .emptyCall callee _ _ =>
      obtain ⟨hg, hop, hpre⟩ := hg
      exact callee.readable_of_castFree hg hfree.1 (.inr ⟨hop, hpre, hfree.2⟩)
  | .call callee _ arguments _ =>
      obtain ⟨hg, hop, hpre, hga⟩ := hg
      obtain ⟨hfree, hname, hfreea⟩ := hfree
      exact ⟨callee.readable_of_castFree hg hfree (.inr ⟨hop, hpre, hname⟩),
        arguments.readable_of_castFree hga hfreea rfl⟩
  | .index target _ arguments _ =>
      obtain ⟨hg, -, -, hga⟩ := hg
      exact ⟨target.readable_of_castFree hg hfree.1 (.inl rfl),
        arguments.readable_of_castFree hga hfree.2 rfl⟩
  | .unary _ _ operand =>
      rcases hnext with hnext | ⟨-, hpre, -⟩
      · exact operand.readable_of_castFree hg.1 hfree (.inl hnext)
      · cases hpre
  | .binary op left _ right =>
      obtain ⟨hgl, hgr, -, hbr, -⟩ := hg
      rcases hnext with hnext | ⟨hop, -⟩
      · exact ⟨left.readable_of_castFree hgl hfree.1 (.inl op.startsCastOperand_sign),
          right.readable_of_castFree hgr hfree.2 (.inl hnext),
          ConcreteExpr.readAt_of_bindsAtLeast hgr hfree.2 hbr⟩
      · cases hop
  | .guarded _ _ _ inner _ => exact inner.readable_of_castFree hg hfree (.inl rfl)
  | .cast .. | .asType .. => exact hfree.elim

theorem ConcreteExprs.readable_of_castFree (es : ConcreteExprs) {close : TokenKind}
    (hg : es.Grouped) (hfree : es.CastFree) (hclose : Parser.startsCastOperand close = false) :
    es.Readable close := by
  match es with
  | .last e => exact e.readable_of_castFree hg hfree (.inl hclose)
  | .more e _ rest =>
      exact ⟨e.readable_of_castFree hg.1 hfree.1 (.inl rfl),
        rest.readable_of_castFree hg.2 hfree.2 hclose⟩

end

namespace Parser

-- Every form without types that is grouped by precedence and to the left is read, as the tree that
-- the form is without its parentheses.
theorem wholeExpression_castFree {tree : ConcreteExpr} (hg : tree.Grouped)
    (hfree : tree.CastFree) (stop : Span) :
    wholeExpression (tree.yield ++ [⟨.eof, stop⟩]) = .ok tree.erase :=
  wholeExpression_complete hg (tree.readable_of_castFree hg hfree (.inl rfl)) stop []

-- `(a) - f(b)[0]`: a name in parentheses stays one in front of a sign.
theorem wholeExpression_castFree_groupedName :
    let tree : ConcreteExpr :=
      .binary .subtract (.paren ⟨0, 1⟩ (.name ⟨"a", ⟨1, 2⟩⟩) ⟨2, 3⟩) ⟨4, 5⟩
        (.index (.call (.name ⟨"f", ⟨6, 7⟩⟩) ⟨7, 8⟩ (.last (.name ⟨"b", ⟨8, 9⟩⟩)) ⟨9, 10⟩) ⟨10, 11⟩
          (.last (.literal (.int 0 .none) ⟨11, 12⟩)) ⟨12, 13⟩)
    (tree.Grouped ∧ tree.CastFree) ∧
      wholeExpression (tree.yield ++ [⟨.eof, ⟨13, 13⟩⟩]) = .ok tree.erase := by
  intro tree
  have hg : tree.Grouped := by
    simp [tree, ConcreteExpr.Grouped, ConcreteExprs.Grouped, ConcreteExpr.BindsAtLeast,
      ConcreteExpr.isOperation, ConcreteExpr.isPrefixed, ConcreteExpr.isAs]
  have hfree : tree.CastFree := by
    simp [tree, ConcreteExpr.CastFree, ConcreteExprs.CastFree, ConcreteExpr.isGroupedName]
  exact ⟨⟨hg, hfree⟩, wholeExpression_castFree hg hfree ⟨13, 13⟩⟩

end Parser

end EventScript
