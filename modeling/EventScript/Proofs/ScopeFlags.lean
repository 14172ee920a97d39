import EventScript.ScopeFlags
import Mathlib.Logic.Basic

namespace EventScript.ScopeFlags

variable {flags mask value : ScopeFlags} {i : Nat}

theorem bits_and (a b : ScopeFlags) : (a &&& b).bits = a.bits &&& b.bits := rfl

theorem bits_or (a b : ScopeFlags) : (a ||| b).bits = a.bits ||| b.bits := rfl

theorem getLsbD_bit (position i : Nat) (h : position < 32) :
    (bit position).bits.getLsbD i = decide (i = position) := by
  simp [bit, BitVec.getLsbD_twoPow, h, eq_comm]

-- A flag is on exactly when its bit is set.
theorem hasAll_bit (flags : ScopeFlags) {position : Nat} (h : position < 32) :
    flags.hasAll (bit position) = flags.bits.getLsbD position := by
  have hiff : flags &&& bit position = bit position ↔ flags.bits.getLsbD position = true := by
    constructor
    · intro he
      have hset : (flags &&& bit position).bits.getLsbD position = true := by
        rw [he, getLsbD_bit _ _ h, decide_eq_true rfl]
      rw [bits_and, BitVec.getLsbD_and, Bool.and_eq_true] at hset
      exact hset.1
    · intro hset
      have hbits : flags.bits &&& (bit position).bits = (bit position).bits := by
        refine BitVec.eq_of_getLsbD_eq fun i _ => ?_
        rw [BitVec.getLsbD_and, getLsbD_bit _ _ h]
        by_cases hi : i = position <;> simp [hi, hset]
      exact congrArg ScopeFlags.mk hbits
  rw [hasAll, Bool.eq_iff_iff, decide_eq_true_eq]
  exact hiff

theorem getLsbD_complement (hd : declared.bits.getLsbD i = true) :
    mask.complement.bits.getLsbD i = !mask.bits.getLsbD i := by
  have hi : i < 32 := BitVec.lt_of_getLsbD hd
  simp [complement, hd, hi]

-- Inside a scope, a declared bit under the mask is that of the value, and every other is untouched.
theorem getLsbD_enter (hd : declared.bits.getLsbD i = true) :
    (flags.enter mask value).1.bits.getLsbD i =
      if mask.bits.getLsbD i then value.bits.getLsbD i else flags.bits.getLsbD i := by
  simp only [enter, bits_or, bits_and, BitVec.getLsbD_or, BitVec.getLsbD_and,
    getLsbD_complement hd]
  cases mask.bits.getLsbD i <;> simp

-- Behind a scope, a declared bit under the mask is what it was in front of it.
theorem getLsbD_leave (hd : declared.bits.getLsbD i = true) (before : ScopeFlags) :
    (flags.leave (before.enter mask value).2).bits.getLsbD i =
      if mask.bits.getLsbD i then before.bits.getLsbD i else flags.bits.getLsbD i := by
  simp only [leave, enter, bits_or, bits_and, BitVec.getLsbD_or, BitVec.getLsbD_and,
    getLsbD_complement hd]
  cases mask.bits.getLsbD i <;> simp

theorem getLsbD_of_hasAll_declared (hd : declared.hasAll flags) (hi : flags.bits.getLsbD i = true) :
    declared.bits.getLsbD i = true := by
  have hand : declared.bits &&& flags.bits = flags.bits :=
    congrArg ScopeFlags.bits (of_decide_eq_true hd)
  rw [← hand, BitVec.getLsbD_and, Bool.and_eq_true] at hi
  exact hi.1

theorem hasAll_declared_of_getLsbD
    (h : ∀ i, flags.bits.getLsbD i = true → declared.bits.getLsbD i = true) :
    declared.hasAll flags := by
  refine decide_eq_true (congrArg ScopeFlags.mk (BitVec.eq_of_getLsbD_eq fun i _ => ?_))
  rw [BitVec.getLsbD_and]
  cases hi : flags.bits.getLsbD i with
  | false => simp
  | true => simp [h i hi]

theorem hasAll_declared_enter (hm : declared.hasAll mask) (hd : declared.hasAll flags) :
    declared.hasAll (flags.enter mask value).1 := by
  refine hasAll_declared_of_getLsbD fun i hi => ?_
  rw [enter, bits_or, bits_and, bits_and, BitVec.getLsbD_or, BitVec.getLsbD_and,
    BitVec.getLsbD_and, Bool.or_eq_true, Bool.and_eq_true, Bool.and_eq_true] at hi
  rcases hi with hi | hi
  · exact getLsbD_of_hasAll_declared hd hi.1
  · exact getLsbD_of_hasAll_declared hm hi.2

-- A scope that is left as it was entered puts back all flags, if none is on that has no name.
theorem leave_enter (hd : declared.hasAll flags) :
    (flags.enter mask value).1.leave (flags.enter mask value).2 = flags := by
  refine congrArg ScopeFlags.mk (BitVec.eq_of_getLsbD_eq fun i _ => ?_)
  cases hi : declared.bits.getLsbD i with
  | true =>
      refine (getLsbD_leave hi flags).trans ?_
      rw [getLsbD_enter hi]
      split <;> rfl
  | false =>
      have hflag : flags.bits.getLsbD i = false := by
        cases hf : flags.bits.getLsbD i with
        | false => rfl
        | true => rw [getLsbD_of_hasAll_declared hd hf] at hi; cases hi
      simp [enter, complement, bits_and, bits_or, hi, hflag]

theorem hasAll_probingMode (flags : ScopeFlags) :
    flags.hasAll probingMode = flags.bits.getLsbD 22 :=
  hasAll_bit flags (by decide)

theorem hasAll_probingMode_enterWith_checkedScope (flags : ScopeFlags) (on : Bool) :
    (flags.enterWith checkedScope on).1.hasAll probingMode = flags.hasAll probingMode := by
  rw [hasAll_probingMode, hasAll_probingMode, enterWith, getLsbD_enter (by decide),
    if_neg (by decide)]

theorem hasAll_probingMode_leave_checkedScope (flags before : ScopeFlags) (on : Bool) :
    (flags.leave (before.enterWith checkedScope on).2).hasAll probingMode =
      flags.hasAll probingMode := by
  rw [hasAll_probingMode, hasAll_probingMode, enterWith, getLsbD_leave (by decide),
    if_neg (by decide)]

theorem hasAll_probingMode_leave_probingMode (flags before : ScopeFlags) :
    (flags.leave (before.enterOn probingMode).2).hasAll probingMode =
      before.hasAll probingMode := by
  rw [hasAll_probingMode, hasAll_probingMode, enterOn, getLsbD_leave (by decide),
    if_pos (by decide)]

theorem hasAll_checkedScope_enterWith (flags : ScopeFlags) (on : Bool) :
    (flags.enterWith checkedScope on).1.hasAll checkedScope = on := by
  rw [checkedScope, hasAll_bit _ (by decide), ← checkedScope, enterWith, getLsbD_enter (by decide),
    if_pos (by decide)]
  cases on <;> decide

end EventScript.ScopeFlags
