import EventScript.Bound

namespace EventScript

-- Whether the operation calls something that is only known at run time.
def DispatchKey.isCall : DispatchKey → Bool
  | invoke _ | invokeMember _ _ => true
  | _ => false

namespace BoundExpr

-- Whether the node stands although an operand of it has failed. Calls that are left to the run time
-- keep failed arguments, and joining with text keeps a side that does not become an object.
def keepsFailure : BoundExpr → Bool
  | node (.dynamic descriptor) _ _ (_ :: arguments) =>
    descriptor.key.isCall && arguments.any (·.isError)
  | node (.binary .add _ _) type _ operands => type = .string && operands.any (·.isError)
  | _ => false

-- The expression is a single error, or there is no error in it.
def AllOrNothing (e : BoundExpr) : Prop :=
  (e.isError = true ∧ e.operands = []) ∨ ∀ node ∈ e.nodes, node.isError = false

instance (e : BoundExpr) : Decidable e.AllOrNothing := inferInstanceAs (Decidable (_ ∨ _))

-- Errors stand alone, and failed operands have failed every node that does not keep them.
def PassesOn (e : BoundExpr) : Prop :=
  ∀ node ∈ e.nodes, (node.isError = true → node.operands = []) ∧
    (node.operands.any (·.isError) = true → node.keepsFailure = true)

-- An expression that has not failed itself.
structure Stands (e : BoundExpr) : Prop where
  passesOn : e.PassesOn
  isError_eq : e.isError = false

variable {e : BoundExpr} {op : BoundOp} {type : TypeId} {span : Span} {operands : List BoundExpr}

theorem mem_nodes_of_mem_operands {inner operand : BoundExpr} (hn : inner ∈ e.nodes)
    (ho : operand ∈ inner.operands) : operand ∈ e.nodes := by
  revert hn
  induction e using nodes.induct with
  | case1 op type span operands ih =>
      intro hn
      simp only [nodes, List.mem_cons, List.mem_flatten, List.mem_map] at hn ⊢
      rcases hn with rfl | ⟨_, ⟨outer, hmem, rfl⟩, hn⟩
      · exact .inr ⟨_, ⟨operand, ho, rfl⟩, operand.self_mem_nodes⟩
      · exact .inr ⟨_, ⟨outer, hmem, rfl⟩, ih outer hmem hn⟩

theorem any_isError_of_keepsFailure (h : e.keepsFailure = true) :
    e.operands.any (·.isError) = true := by
  unfold keepsFailure at h
  split at h
  · rename_i descriptor type span target arguments
    simp only [Bool.and_eq_true] at h
    simp [operands, h.2]
  · exact ((Bool.and_eq_true _ _).mp h).2
  · cases h

theorem keepsFailure_withSpan (e : BoundExpr) (span : Span) :
    (e.withSpan span).keepsFailure = e.keepsFailure := by
  obtain ⟨op, type, own, operands⟩ := e
  cases op with
  | binary op descriptor checked => cases op <;> rfl
  | dynamic descriptor => cases operands <;> rfl
  | _ => rfl

theorem passesOn_node : (node op type span operands).PassesOn ↔
    ((op.isError = true → operands = []) ∧ (operands.any (·.isError) = true →
      (node op type span operands).keepsFailure = true)) ∧ ∀ operand ∈ operands, operand.PassesOn :=
  forall_mem_nodes

-- By induction on the tree: a node that stands and keeps no failure has operands that all stand.
theorem Stands.isError_eq_of_mem_nodes (h : e.Stands)
    (hkeeps : ∀ inner ∈ e.nodes, inner.keepsFailure = false) :
    ∀ inner ∈ e.nodes, inner.isError = false := by
  induction e using nodes.induct with
  | case1 op type span operands ih =>
      obtain ⟨⟨-, hany⟩, hoperands⟩ := passesOn_node.mp h.passesOn
      obtain ⟨hself, hinside⟩ := forall_mem_nodes.mp hkeeps
      have hnone : operands.any (·.isError) = false := by
        rw [Bool.eq_false_iff]
        intro hfailed
        rw [hany hfailed] at hself
        cases hself
      refine forall_mem_nodes.mpr ⟨h.isError_eq, fun operand ho => ?_⟩
      have hstands : operand.isError = false := by
        simpa using List.any_eq_false.mp hnone operand ho
      exact ih operand ho ⟨hoperands operand ho, hstands⟩ (hinside operand ho)

theorem PassesOn.isError_eq_iff (h : e.PassesOn) (he : e.isError = false) :
    (∀ inner ∈ e.nodes, inner.isError = false) ↔ ∀ inner ∈ e.nodes, inner.keepsFailure = false := by
  refine ⟨fun hnone inner hn => ?_, (Stands.mk h he).isError_eq_of_mem_nodes⟩
  rw [Bool.eq_false_iff]
  intro hkeeps
  obtain ⟨operand, ho, herror⟩ := List.any_eq_true.mp (any_isError_of_keepsFailure hkeeps)
  rw [hnone operand (mem_nodes_of_mem_operands hn ho)] at herror
  cases herror

theorem PassesOn.allOrNothing_iff (h : e.PassesOn) :
    e.AllOrNothing ↔ ∀ inner ∈ e.nodes, inner.keepsFailure = false := by
  cases he : e.isError with
  | false => rw [← h.isError_eq_iff he, AllOrNothing, he]; simp
  | true =>
      have hoperands : e.operands = [] := (h e e.self_mem_nodes).1 he
      refine iff_of_true (.inl ⟨he, hoperands⟩) ?_
      obtain ⟨op, type, span, operands⟩ := e
      obtain rfl : operands = [] := hoperands
      obtain rfl : op = .error := by cases op <;> first | rfl | cases he
      exact forall_mem_nodes.mpr ⟨rfl, nofun⟩

theorem any_isError_eq_false (h : ∀ operand ∈ operands, operand.Stands) :
    operands.any (·.isError) = false := by
  rw [List.any_eq_false]
  intro operand ho
  simp [(h operand ho).isError_eq]

-- What the nodes are made of.

theorem PassesOn.failed (span : Span) : (failed span).PassesOn :=
  passesOn_node.mpr ⟨⟨fun _ => rfl, nofun⟩, nofun⟩

theorem Stands.node (hop : op.isError = false) (h : ∀ operand ∈ operands, operand.Stands) :
    (BoundExpr.node op type span operands).Stands := by
  refine ⟨passesOn_node.mpr ⟨⟨fun he => ?_, fun hany => ?_⟩, fun operand ho => ?_⟩, hop⟩
  · rw [hop] at he
    cases he
  · rw [any_isError_eq_false h] at hany
    cases hany
  · exact (h operand ho).passesOn

theorem Stands.leaf (hop : op.isError = false) : (BoundExpr.node op type span []).Stands :=
  .node hop (by simp)

theorem PassesOn.concatenation {descriptor : Descriptor} {checked : Bool} {left right : BoundExpr}
    (hl : left.PassesOn) (hr : right.PassesOn) :
    (BoundExpr.node (.binary .add descriptor checked) .string span [left, right]).PassesOn := by
  refine passesOn_node.mpr ⟨⟨nofun, fun hany => ?_⟩, by simpa using ⟨hl, hr⟩⟩
  simpa [keepsFailure] using hany

-- A call that is left to the run time: the target stands, the arguments may have failed.
theorem PassesOn.call {descriptor : Descriptor} {target : BoundExpr} {arguments : List BoundExpr}
    (hk : descriptor.key.isCall = true) (ht : target.Stands)
    (h : ∀ argument ∈ arguments, argument.PassesOn) :
    (BoundExpr.dynamic descriptor (target :: arguments) span).PassesOn := by
  refine passesOn_node.mpr ⟨⟨nofun, fun hany => ?_⟩, List.forall_mem_cons.mpr ⟨ht.passesOn, h⟩⟩
  simpa [keepsFailure, hk, ht.isError_eq] using hany

theorem PassesOn.withSpan (h : e.PassesOn) (span : Span) : (e.withSpan span).PassesOn := by
  obtain ⟨op, type, own, operands⟩ := e
  obtain ⟨⟨hlone, hany⟩, hoperands⟩ := passesOn_node.mp h
  refine passesOn_node.mpr ⟨⟨hlone, fun hfailed => ?_⟩, hoperands⟩
  rw [← hany hfailed]
  exact keepsFailure_withSpan (.node op type own operands) span

end BoundExpr

end EventScript
