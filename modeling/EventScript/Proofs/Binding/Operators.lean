import EventScript.Proofs.Binding.Converting

namespace EventScript.Binding

open Compiling

variable {scope : BindingScope} {count : Nat}

theorem isEquality_or_isRelational (op : BinaryOperator) : op.isLogical = false →
    op.isArithmetic = false → (op.isEquality || op.isRelational) = true := by
  cases op <;> decide

theorem ensures_unaryType (op : UnaryOperator) (operand : TypeId) :
    Ensures scope.types count (unaryType scope op operand) fun found =>
      ∀ type ∈ found, UnaryTyped op type := by
  have hnumeric : op ≠ .not → ∀ type ∈ ((numericOperand? scope.types operand).bind
      (signedResult? op)).map TypeId.numeric, UnaryTyped op type := by
    intro hop type ht
    obtain ⟨kind, _, rfl⟩ := Option.map_eq_some_iff.mp ht
    exact .inr (.inr ⟨hop, kind, rfl⟩)
  cases op with
  | not =>
      refine (ensures_convertsImplicitly operand .boolean).bind fun possible => .pure fun _ => ?_
      cases possible with
      | false => simp
      | true =>
          rintro type ht
          obtain rfl := Option.some.inj ht
          exact .inr (.inl ⟨rfl, rfl⟩)
  | negate => exact .pure (hnumeric (by decide))
  | plus => exact .pure (hnumeric (by decide))

-- What a signature prescribes for the operands fits the result that it gives.
def BinarySignature.Sound (op : BinaryOperator) (signature : BinarySignature) : Prop :=
  BinaryTyped op signature.left signature.right signature.result

theorem sound_of_equality? {t : TypeTable} {op : BinaryOperator} {left right : TypeId}
    {signature : BinarySignature} (hop : op.isEquality = true)
    (h : equality? t left right = some signature) : signature.Sound op := by
  unfold equality? at h
  split_ifs at h
  all_goals
    obtain rfl := Option.some.inj h
    exact .equality hop

theorem sound_concatenation {left right : TypeId} (h : left = .string ∨ right = .string) :
    (concatenation left right).Sound .add := by
  have hside : ∀ type : TypeId, (if type = .string then type else .object) = .string ∨
      (if type = .string then type else .object) = .object := by
    intro type
    split_ifs with ht
    · exact .inl ht
    · exact .inr rfl
  refine .concatenation rfl ?_ (hside left) (hside right)
  exact h.imp (fun hl => by simp [concatenation, hl]) fun hr => by simp [concatenation, hr]

theorem sound_of_numericSignature? {op : BinaryOperator} {left right : NumericKind}
    {signature : BinarySignature} (hop : op.isLogical = false)
    (h : numericSignature? op left right = some signature) : signature.Sound op := by
  obtain ⟨kind, _, rfl⟩ := Option.map_eq_some_iff.mp h
  cases ha : op.isArithmetic with
  | true => simpa [BinarySignature.Sound, ha] using BinaryTyped.arithmetic kind ha
  | false =>
      have hc := isEquality_or_isRelational op hop ha
      simpa [BinarySignature.Sound, ha] using BinaryTyped.comparison kind hc

theorem ensures_binarySignature (op : BinaryOperator) (left right : TypeId) :
    Ensures scope.types count (binarySignature scope op left right) fun found =>
      ∀ signature ∈ found, signature.Sound op := by
  unfold binarySignature
  split_ifs with hobject hlogical hstring hequality
  · refine .pure fun signature hs => ?_
    obtain rfl := Option.some.inj hs
    exact .object hobject
  · refine (ensures_convertsImplicitly left .boolean).bind fun first => ?_
    cases first with
    | false => exact .pure (by simp)
    | true =>
        refine (ensures_convertsImplicitly right .boolean).bind fun second => ?_
        cases second with
        | false => exact .pure (by simp)
        | true =>
            refine .pure fun _ _ signature hs => ?_
            obtain rfl := Option.some.inj hs
            exact .logical hlogical
  · refine .pure fun signature hs => ?_
    obtain rfl := Option.some.inj hs
    rw [hstring.1]
    exact sound_concatenation hstring.2
  · split
    · exact .pure fun signature => sound_of_numericSignature? (by simpa using hlogical)
    · exact .pure fun signature => sound_of_equality? hequality
  · split
    · exact .pure fun signature => sound_of_numericSignature? (by simpa using hlogical)
    · exact .pure fun signature hs => by cases hs

theorem ensures_bindUnary (op : UnaryOperator) (operand : BoundExpr) (span : Span) :
    Ensures scope.types count (bindUnary scope op operand span) fun e =>
      operand.WellTyped scope.types scope.parameters →
      e.WellTyped scope.types scope.parameters := by
  unfold bindUnary
  split
  · rename_i herr
    exact .pure fun ho => by simp [ho.isError_eq] at herr
  refine (Ensures.descriptor _).bind fun descriptor => Ensures.isChecked.bind fun checked => ?_
  split
  · rename_i hobject
    refine .pure fun _ hk ho => BoundExpr.wellTyped_node.mpr ⟨?_, by simpa using ho⟩
    exact ⟨operand, rfl, hk, hobject, .inl rfl⟩
  refine (ensures_unaryType op operand.type).bind fun found => ?_
  cases found with
  | none => exact Ensures.giveUp _ _ _ _
  | some type =>
      refine (ensures_convert operand type rfl).bind fun converted => .pure ?_
      intro hc ht _ hk ho
      have hconv := hc ho
      refine BoundExpr.wellTyped_node.mpr ⟨?_, by simpa using hconv.wellTyped⟩
      exact ⟨converted, rfl, hk, hconv.type_eq, ht type rfl⟩

theorem ensures_bindBinary (op : BinaryOperator) (left right : BoundExpr) (span : Span) :
    Ensures scope.types count (bindBinary scope op left right span) fun e =>
      left.WellTyped scope.types scope.parameters →
      right.WellTyped scope.types scope.parameters →
      e.WellTyped scope.types scope.parameters := by
  unfold bindBinary
  split
  · rename_i herr
    exact .pure fun hl hr => by simp [hl.isError_eq, hr.isError_eq] at herr
  refine (ensures_binarySignature op left.type right.type).bind fun found => ?_
  cases found with
  | none => exact Ensures.giveUp _ _ _ _
  | some signature =>
      refine (ensures_convert left signature.left rfl).bind fun first => ?_
      refine (ensures_convert right signature.right rfl).bind fun second => ?_
      refine (Ensures.descriptor _).bind fun descriptor => ?_
      refine Ensures.isChecked.bind fun checked => .pure ?_
      intro _ hk hr hl hs hleft hright
      have hfirst := hl hleft
      have hsecond := hr hright
      refine BoundExpr.wellTyped_node.mpr ⟨⟨first, second, rfl, hk, ?_⟩, ?_⟩
      · rw [hfirst.type_eq, hsecond.type_eq]
        exact hs signature rfl
      · simpa using ⟨hfirst.wellTyped, hsecond.wellTyped⟩

end EventScript.Binding
