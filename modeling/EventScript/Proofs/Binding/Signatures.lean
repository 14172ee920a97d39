import EventScript.Proofs.Binding.ChosenCall
import EventScript.Proofs.Host.Assignability

namespace EventScript

open MemberSearch Building

theorem NumericKind.common?_comm (left right : NumericKind) :
    left.common? right = right.common? left := by
  unfold common?
  exact congrArg (commonKinds.find? ·) (funext fun kind => Bool.and_comm _ _)

namespace Conversion

variable {t : TypeTable} {source : TypeId}

instance (t : TypeTable) (source target : TypeId) : Decidable (Convertible t source target) :=
  inferInstanceAs (Decidable (_ = _))

-- A type that values have: `null` is the only value that shows nothing of itself.
def Valued (t : TypeTable) (type : TypeId) : Prop :=
  t.kind type ≠ .void ∧ (t.kind type = .null → type = .null)

instance (t : TypeTable) (type : TypeId) : Decidable (Valued t type) :=
  inferInstanceAs (Decidable (_ ∧ _))

theorem convertible_object (hg : TypeTable.initial.GrowsTo t) (h : Valued t source) :
    Convertible t source .object := by
  have hobject : t.kind .object = .object := hg.kind_eq (by decide)
  by_cases hnull : t.kind source = .null
  · obtain rfl := h.2 hnull
    exact convertible_null (.inl (by rw [TypeTable.isReferenceType, hobject]))
  · refine convertible_of_isAssignable (TypeTable.isAssignable_iff.mpr (.inr ?_))
    exact ⟨h.1, hnull, by simp [hobject], .inl hobject⟩

end Conversion

namespace Binding

open Conversion Compiling

section Signatures

variable {t : TypeTable} {left right : TypeId} {op : BinaryOperator} {signature : BinarySignature}

-- The type that a unary operator brings its operand to, read off the types alone.
def unaryTarget? (t : TypeTable) (op : UnaryOperator) (operand : TypeId) : Option TypeId :=
  match op with
  | .not => if Convertible t operand .boolean then some .boolean else none
  | .negate | .plus => ((numericOperand? t operand).bind (signedResult? op)).map .numeric

-- The signature of a binary operator, read off the types alone.
def signature? (t : TypeTable) (op : BinaryOperator) (left right : TypeId) :
    Option BinarySignature :=
  if left = .object ∨ right = .object then some ⟨left, right, .object⟩
  else if op.isLogical then
    if Convertible t left .boolean ∧ Convertible t right .boolean then
      some ⟨.boolean, .boolean, .boolean⟩
    else none
  else if op = .add ∧ (left = .string ∨ right = .string) then some (concatenation left right)
  else
    match numericOperand? t left, numericOperand? t right with
    | some leftKind, some rightKind => numericSignature? op leftKind rightKind
    | _, _ => if op.isEquality then equality? t left right else none

theorem convertible_of_unaryTarget? (hg : TypeTable.initial.GrowsTo t) {op : UnaryOperator}
    {operand type : TypeId} (h : unaryTarget? t op operand = some type) :
    Convertible t operand type := by
  have hsigned (hs : ((numericOperand? t operand).bind (signedResult? op)).map TypeId.numeric =
      some type) : Convertible t operand type := by
    obtain ⟨result, hr, rfl⟩ := Option.map_eq_some_iff.mp hs
    obtain ⟨kind, hk, hr⟩ := Option.bind_eq_some_iff.mp hr
    exact convertible_of_numericOperand? hg hk (widensTo_of_signedResult? hr)
  cases op with
  | not =>
      obtain ⟨hc, rfl⟩ : Convertible t operand .boolean ∧ TypeId.boolean = type := by
        simpa [unaryTarget?] using h
      exact hc
  | negate => exact hsigned h
  | plus => exact hsigned h

theorem convertible_of_concatenation (hg : TypeTable.initial.GrowsTo t) (hl : Valued t left)
    (hr : Valued t right) :
    Convertible t left (concatenation left right).left ∧
      Convertible t right (concatenation left right).right := by
  have hside (type : TypeId) (h : Valued t type) :
      Convertible t type (if type = .string then type else .object) := by
    split
    · exact convertible_self type
    · exact convertible_object hg h
  exact ⟨hside left hl, hside right hr⟩

-- What is joined with a text has to have values.
def JoinsValues (t : TypeTable) (op : BinaryOperator) (left right : TypeId) : Prop :=
  op = .add → left = .string ∨ right = .string → Valued t left ∧ Valued t right

instance (t : TypeTable) (op : BinaryOperator) (left right : TypeId) :
    Decidable (JoinsValues t op left right) :=
  inferInstanceAs (Decidable (_ → _ → _))

-- What an operator that applies prescribes is what its operands can be converted to.
theorem convertible_of_signature? (hg : TypeTable.initial.GrowsTo t)
    (hv : JoinsValues t op left right) (h : signature? t op left right = some signature) :
    Convertible t left signature.left ∧ Convertible t right signature.right := by
  unfold signature? at h
  split at h
  · obtain rfl := Option.some.inj h
    exact ⟨convertible_self left, convertible_self right⟩
  split at h
  · split at h
    · rename_i hboth
      obtain rfl := Option.some.inj h
      exact hboth
    · cases h
  split at h
  · rename_i hjoin
    obtain rfl := Option.some.inj h
    obtain ⟨hl, hr⟩ := hv hjoin.1 hjoin.2
    exact convertible_of_concatenation hg hl hr
  split at h
  · rename_i hleft hright
    exact convertible_of_numericSignature? hg hleft hright h
  split at h
  · exact convertible_of_equality? h
  · cases h

-- Which operand stands on which side matters for what they are brought to, but for nothing else.

theorem numericSignature?_comm (op : BinaryOperator) (left right : NumericKind) :
    numericSignature? op left right = numericSignature? op right left := by
  rw [numericSignature?, numericSignature?, NumericKind.common?_comm]

theorem equality?_comm (t : TypeTable) (left right : TypeId) :
    (equality? t left right).map (·.result) = (equality? t right left).map (·.result) := by
  simp only [equality?, apply_ite (Option.map _), Option.map_some, Option.map_none]
  refine if_congr and_comm rfl ?_
  split_ifs <;> rfl

theorem signature?_comm (t : TypeTable) (op : BinaryOperator) (left right : TypeId) :
    (signature? t op left right).map (·.result) = (signature? t op right left).map (·.result) := by
  simp only [signature?, apply_ite (Option.map _), Option.map_some, Option.map_none]
  refine if_congr or_comm rfl (if_congr .rfl (if_congr and_comm rfl rfl) ?_)
  refine if_congr (and_congr_right' or_comm) rfl ?_
  have hequality : (if op.isEquality then equality? t left right else none).map (·.result) =
      (if op.isEquality then equality? t right left else none).map (·.result) := by
    split
    · exact equality?_comm t left right
    · rfl
  cases numericOperand? t left with
  | none => cases numericOperand? t right <;> exact hequality
  | some leftKind =>
      cases numericOperand? t right with
      | none => exact hequality
      | some rightKind => exact congrArg _ (numericSignature?_comm op leftKind rightKind)

end Signatures

variable {scope : BindingScope} {ds : List Diagnostic}

theorem gives_silent_convertsImplicitly (source target : TypeId) :
    Gives (Silent scope.types ds) (convertsImplicitly scope source target)
      (· = decide (Convertible scope.types source target)) := by
  refine (gives_silent_search (steady_isPossible source target .one)).imp fun possible hp => ?_
  rw [hp]
  exact Bool.decide_eq_false.symm

theorem gives_silent_unaryType (op : UnaryOperator) (operand : TypeId) :
    Gives (Silent scope.types ds) (unaryType scope op operand)
      (· = unaryTarget? scope.types op operand) := by
  cases op with
  | not =>
      refine (gives_silent_convertsImplicitly operand .boolean).bind ?_
      rintro possible rfl
      exact .pure (by simp [unaryTarget?])
  | negate => exact .pure rfl
  | plus => exact .pure rfl

theorem gives_silent_binarySignature (op : BinaryOperator) (left right : TypeId) :
    Gives (Silent scope.types ds) (binarySignature scope op left right)
      (· = signature? scope.types op left right) := by
  unfold binarySignature signature?
  split
  · exact .pure rfl
  split
  · refine (gives_silent_convertsImplicitly left .boolean).bind ?_
    rintro first rfl
    split
    · rename_i hleft
      refine (gives_silent_convertsImplicitly right .boolean).bind ?_
      rintro second rfl
      split
      · rename_i hright
        exact .pure (if_pos ⟨of_decide_eq_true hleft, of_decide_eq_true hright⟩).symm
      · rename_i hright
        exact .pure (if_neg fun hboth => hright (decide_eq_true hboth.2)).symm
    · rename_i hleft
      exact .pure (if_neg fun hboth => hleft (decide_eq_true hboth.1)).symm
  split
  · exact .pure rfl
  cases numericOperand? scope.types left with
  | none => exact .pure rfl
  | some leftKind =>
      cases numericOperand? scope.types right with
      | none => exact .pure rfl
      | some rightKind => exact .pure rfl

-- Nothing is said about operands that can be converted.
theorem gives_silent_convertOperand {e : BoundExpr} {target : TypeId}
    (hc : Convertible scope.types e.type target) :
    Gives (Silent scope.types ds) (convert scope e target .implicitCast) fun _ => True := by
  cases he : e.isError with
  | true =>
      unfold convert
      rw [he]
      exact .pure trivial
  | false => exact (gives_silent_convert he hc).imp fun _ _ => trivial

theorem gives_silent_bindUnary (hg : TypeTable.initial.GrowsTo scope.types) {op : UnaryOperator}
    {operand : BoundExpr} (span : Span)
    (h : operand.type = .object ∨ (unaryTarget? scope.types op operand.type).isSome) :
    Gives (Silent scope.types ds) (bindUnary scope op operand span) fun _ => True := by
  unfold bindUnary
  split
  · exact .pure trivial
  refine (gives_silent_descriptor _).bind fun descriptor _ => ?_
  refine gives_silent_isChecked.bind fun checked _ => ?_
  split
  · exact .pure trivial
  · rename_i hobject
    obtain ⟨type, htype⟩ := Option.isSome_iff_exists.mp (h.resolve_left hobject)
    refine (gives_silent_unaryType op operand.type).bind ?_
    rintro found rfl
    rw [htype]
    have hc := convertible_of_unaryTarget? hg htype
    exact (gives_silent_convertOperand hc).bind fun _ _ => .pure trivial

theorem gives_silent_bindBinary {op : BinaryOperator} {left right : BoundExpr}
    {signature : BinarySignature} (span : Span)
    (hs : signature? scope.types op left.type right.type = some signature)
    (hl : Convertible scope.types left.type signature.left)
    (hr : Convertible scope.types right.type signature.right) :
    Gives (Silent scope.types ds) (bindBinary scope op left right span) fun _ => True := by
  unfold bindBinary
  split
  · exact .pure trivial
  refine (gives_silent_binarySignature op left.type right.type).bind ?_
  rintro found rfl
  rw [hs]
  refine (gives_silent_convertOperand hl).bind fun first _ => ?_
  refine (gives_silent_convertOperand hr).bind fun second _ => ?_
  refine (gives_silent_descriptor _).bind fun descriptor _ => ?_
  exact gives_silent_isChecked.bind fun checked _ => .pure trivial

-- A further type of the kind of `null`, which has no values that scripts could write.
def secondNullSteps : List BuildStep := [.define "Demo" "Nil" .null]

def secondNull : TypeTable :=
  secondNullSteps.foldl (fun t s => (outcome (s.run nestingLimit) t).2) .initial

end Binding

end EventScript
