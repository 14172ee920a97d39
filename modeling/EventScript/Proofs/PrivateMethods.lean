import EventScript.Proofs.Host.Standard
import EventScript.Proofs.Session

namespace EventScript

open MemberSearch

namespace TypeTable

-- Where a lookup stops

-- A lookup of the name comes past the definition, which has no such method, and finds one behind it
-- that scripts can see.
def Hides (t : TypeTable) (definition : TypeId) (name : String) : Prop :=
  ∃ type before owner behind, t.selfAndBases type = before ++ owner :: behind ∧
    t.openDefinition owner = definition ∧
    (∀ passed ∈ before ++ [owner], t.methodsNamed (t.openDefinition passed) name = []) ∧
    ∃ id ∈ (MemberCache.lookup t type name).answer, t.isPublicMethod id

section

variable {t : TypeTable} {name : String}

-- A definition that has a method of the name itself hides nothing by another.
theorem not_hides_of_methodsNamed {definition : TypeId} (h : t.methodsNamed definition name ≠ []) :
    ¬t.Hides definition name := by
  rintro ⟨type, before, owner, behind, -, rfl, hpassed, -⟩
  exact h (hpassed owner (by simp))

end

-- One more method

-- The table with a method added to a type.
def withMethod (t : TypeTable) (declaring : TypeId) (m : MethodDef) : TypeTable :=
  (t.pushMethod m).modify declaring
    (fun d => { d with methods := d.methods ++ [⟨t.methods.size⟩] }) fun _ => rfl

section

variable {t : TypeTable} {declaring : TypeId} {m : MethodDef}

theorem method_withMethod (id : MethodId) :
    (t.withMethod declaring m).method id = if id.index = t.methods.size then m else t.method id :=
  method_pushMethod

theorem index_lt_of_mem_methods (hw : t.WellFormed) {definition : TypeId} {id : MethodId}
    (h : id ∈ (t.get definition).methods) : id.index < t.methods.size := by
  by_cases hc : t.contains definition
  · exact containsMethod_iff.mp (hw.containsMethod_of_mem hc h)
  · rw [get_of_not_contains (by simpa using hc)] at h
    exact absurd h List.not_mem_nil

-- A number that no method has got yet.
theorem isPublicMethod_new (t : TypeTable) : t.isPublicMethod ⟨t.methods.size⟩ = false := by
  rw [isPublicMethod, method, Array.getElem?_eq_none (Nat.le_refl _)]
  rfl

variable (hc : t.contains declaring)
include hc

theorem get_withMethod (id : TypeId) :
    (t.withMethod declaring m).get id =
      if id = declaring then
        { t.get id with methods := (t.get id).methods ++ [⟨t.methods.size⟩] }
      else t.get id := by
  have hc' : (t.pushMethod m).contains declaring := hc
  rw [withMethod, get_modify hc']
  rfl

theorem sameTypes_withMethod : t.SameTypes (t.withMethod declaring m) where
  size_eq := size_modify
  get_eq id := by
    rw [get_withMethod hc]
    split <;> rfl
  instances_eq := rfl
  names_eq := rfl

theorem methodsNamed_withMethod (hw : t.WellFormed) (definition : TypeId) (name : String) :
    (t.withMethod declaring m).methodsNamed definition name =
      t.methodsNamed definition name ++
        if definition = declaring ∧ m.name = name then [⟨t.methods.size⟩] else [] := by
  have hold : ((t.get definition).methods.filter fun id =>
      ((t.withMethod declaring m).method id).name = name) = t.methodsNamed definition name := by
    refine List.filter_congr fun id hid => ?_
    rw [method_withMethod, if_neg (Nat.ne_of_lt (index_lt_of_mem_methods hw hid))]
  rw [methodsNamed, get_withMethod hc]
  by_cases hd : definition = declaring
  · rw [if_pos hd, List.filter_append, hold]
    by_cases hn : m.name = name <;> simp [method_withMethod, hd, hn]
  · rw [if_neg hd, hold]
    simp [hd]

variable (hp : m.isPublic = false)
include hp

omit hc in
theorem isPublicMethod_withMethod :
    (t.withMethod declaring m).isPublicMethod = t.isPublicMethod := by
  funext id
  rw [isPublicMethod, isPublicMethod, method_withMethod]
  split
  · rename_i hid
    obtain rfl : id = ⟨t.methods.size⟩ := by
      cases id
      exact congrArg MethodId.mk hid
    exact hp.trans t.isPublicMethod_new.symm
  · rfl

-- By induction on the types that are still ahead of the lookup; none of those behind it has a method
-- of the name. Only at the declaring type the two lookups can part.
theorem samePublic_lookupAlong (hw : t.WellFormed) (hh : ¬t.Hides declaring m.name)
    {type : TypeId} {name : String} (owners : List TypeId) {before : List TypeId}
    (htype : t.selfAndBases type = before ++ owners)
    (hbefore : ∀ passed ∈ before, t.methodsNamed (t.openDefinition passed) name = []) :
    t.SamePublic (t.withMethod declaring m) (MemberCache.lookupAlong t name owners).answer
      (MemberCache.lookupAlong (t.withMethod declaring m) name owners).answer := by
  induction owners generalizing before with
  | nil => exact rfl
  | cons owner owners ih =>
      have hopen := (sameTypes_withMethod (m := m) hc).openDefinition_eq owner
      rw [answer_lookupAlong_cons, answer_lookupAlong_cons, hopen, methodsNamed_withMethod hc hw,
        SamePublic, isPublicMethod_withMethod hp]
      by_cases hnone : t.methodsNamed (t.openDefinition owner) name = []
      · have hpassed : ∀ passed ∈ before ++ [owner],
            t.methodsNamed (t.openDefinition passed) name = [] :=
          List.forall_mem_append.mpr ⟨hbefore, by simpa using hnone⟩
        have hsplit : t.selfAndBases type = (before ++ [owner]) ++ owners := by simpa using htype
        rw [if_pos hnone, hnone, List.nil_append]
        by_cases hnew : t.openDefinition owner = declaring ∧ m.name = name
        · -- a public method that is found from here on would be hidden
          rw [if_pos hnew, if_neg (List.cons_ne_nil _ _)]
          obtain ⟨hdeclaring, rfl⟩ := hnew
          have hanswer : (MemberCache.lookup t type m.name).answer =
              (MemberCache.lookupAlong t m.name owners).answer := by
            rw [MemberCache.lookup, hsplit, answer_lookupAlong_append hpassed]
          have hinvisible : (MemberCache.lookupAlong t m.name owners).answer.filter
              t.isPublicMethod = [] := by
            refine List.filter_eq_nil_iff.mpr fun id hid hpublic => hh ?_
            exact ⟨type, before, owner, owners, htype, hdeclaring, hpassed, id, hanswer ▸ hid,
              hpublic⟩
          rw [hinvisible, List.filter_cons_of_neg (by simp [isPublicMethod_new]), List.filter_nil]
        · rw [if_neg hnew, if_pos rfl]
          have hnext := ih hsplit hpassed
          rwa [SamePublic, isPublicMethod_withMethod hp] at hnext
      · rw [if_neg hnone, if_neg (by simp [hnone]), List.filter_append]
        split <;> simp [isPublicMethod_new]

theorem agrees_withMethod (hw : t.WellFormed) (hh : ¬t.Hides declaring m.name) :
    t.Agrees (t.withMethod declaring m) where
  toSameTypes := sameTypes_withMethod hc
  method_eq {id} hpublic := by
    by_cases hid : id.index = t.methods.size
    · obtain rfl : id = ⟨t.methods.size⟩ := congrArg MethodId.mk hid
      have hnew : (t.method ⟨t.methods.size⟩).isPublic = false := t.isPublicMethod_new
      rw [method_withMethod, if_pos rfl, hp, hnew] at hpublic
      simp at hpublic
    · rw [method_withMethod, if_neg hid]
  methods_eq id := by
    rw [get_withMethod hc, isPublicMethod_withMethod hp]
    split
    · simp [isPublicMethod_new]
    · rfl
  lookup_eq type name := by
    have hbases := (sameTypes_withMethod (m := m) hc).selfAndBases_eq type
    rw [MemberCache.lookup, MemberCache.lookup, hbases]
    exact samePublic_lookupAlong hc hp hw hh _ (List.nil_append _).symm
      (List.forall_mem_nil _)

-- Where the method hides others, a lookup ends with nothing that scripts can see.
omit hp in
theorem lookupAlong_withMethod (hw : t.WellFormed) {owner : TypeId} {before : List TypeId}
    (howner : t.openDefinition owner = declaring)
    (hpassed : ∀ passed ∈ before ++ [owner],
      t.methodsNamed (t.openDefinition passed) m.name = []) (behind : List TypeId) :
    (MemberCache.lookupAlong (t.withMethod declaring m) m.name (before ++ owner :: behind)).answer =
      [⟨t.methods.size⟩] := by
  have hopen := (sameTypes_withMethod (m := m) hc).openDefinition_eq
  induction before with
  | nil =>
      have hnone := hpassed owner List.mem_cons_self
      have hnew : t.openDefinition owner = declaring ∧ m.name = m.name := ⟨howner, rfl⟩
      rw [List.nil_append, answer_lookupAlong_cons, hopen, methodsNamed_withMethod hc hw, hnone,
        if_pos hnew, List.nil_append, if_neg (List.cons_ne_nil _ _)]
  | cons passed before ih =>
      obtain ⟨hnone, hrest⟩ := List.forall_mem_cons.mp hpassed
      rw [List.cons_append, answer_lookupAlong_cons, hopen, methodsNamed_withMethod hc hw, hnone,
        List.nil_append]
      by_cases hnew : t.openDefinition passed = declaring ∧ m.name = m.name
      · rw [if_pos hnew, if_neg (List.cons_ne_nil _ _)]
      · rw [if_neg hnew, if_pos rfl, ih hrest]

-- Scripts can tell that the method is there exactly if it hides others.
theorem agrees_withMethod_iff (hw : t.WellFormed) :
    t.Agrees (t.withMethod declaring m) ↔ ¬t.Hides declaring m.name := by
  refine ⟨fun h => ?_, agrees_withMethod hc hp hw⟩
  rintro ⟨type, before, owner, behind, htype, howner, hpassed, id, hid, hpublic⟩
  have hsame := h.lookup_eq type m.name
  rw [MemberCache.lookup, h.selfAndBases_eq, htype, lookupAlong_withMethod hc hw howner hpassed,
    isPublicMethod_withMethod hp, List.filter_cons_of_neg (by simp [isPublicMethod_new])] at hsame
  exact List.ne_nil_of_mem (List.mem_filter.mpr ⟨hid, hpublic⟩) hsame.symm

end

end TypeTable

namespace Building

open TypeTable

variable {t t' : TypeTable} {declaring : TypeId} {spec : MethodSpec} {id : MethodId}

theorem Guards.of_ok {α : Type} {P : Prop} {m : Building Unit} {f : Unit → Building α} {a : α}
    (hm : Guards t m P) (h : outcome (m >>= f) t = (.ok a, t')) :
    P ∧ outcome (f ()) t = (.ok a, t') := by
  rcases hm with ⟨hp, ho⟩ | ⟨-, e, ho⟩
  · exact ⟨hp, (outcome_bind_ok ho).symm.trans h⟩
  · rw [outcome_bind_error ho] at h
    cases h

theorem withMethod_of_addMethod (h : outcome (addMethod declaring spec) t = (.ok id, t')) :
    t.contains declaring ∧ ∃ m : MethodDef,
      m.name = spec.name ∧ m.isPublic = spec.isPublic ∧ t' = t.withMethod declaring m := by
  obtain ⟨hc, h⟩ := (Guards.check declaring).of_ok h
  obtain ⟨-, h⟩ := (Guards.check spec.returns).of_ok h
  obtain ⟨-, h⟩ := (Guards.forM_check spec.parameters).of_ok h
  cases h
  exact ⟨hc, _, rfl, rfl, rfl⟩

end Building

theorem Runtime.Agrees.ofTable {t t' : TypeTable} (h : t.Agrees t') :
    (ofTable t).Agrees (ofTable t') :=
  ⟨h, NamespaceTree.ofTable_eq h.toSameTypes, rfl, rfl, rfl, rfl⟩

-- A thing with a public name and a gadget that derives from it.
def declareThings : Building (TypeId × TypeId) := do
  let thing ← Building.define "Demo" "Thing" .classType
  let gadget ← Building.define "Demo" "Gadget" .classType
  Building.setBase gadget thing
  let _ ← Building.addMethod thing { name := "Name", parameters := [], returns := .string }
  return (thing, gadget)

def things : TypeTable × TypeId × TypeId :=
  match Building.outcome declareThings .initial with
  | (.ok (thing, gadget), t) => (t, thing, gadget)
  | (.error _, _) => (.initial, .object, .object)

def privateName : MethodSpec :=
  { name := "Name", parameters := [.string], returns := .string, isPublic := false }

def withPrivateName (declaring : TypeId) : Except TypeError MethodId × TypeTable :=
  Building.outcome (Building.addMethod declaring privateName) things.1

-- What a script gets that asks for the name of a gadget.
def gadgetName (t : TypeTable) : CompileOutput :=
  (compile (.ofTable t) { parameters := [⟨"gadget", "Demo.Gadget"⟩] } "gadget.Name()" .empty).1

open Building in
theorem reached_things : things.1.Reached := by
  have hbuild : Reaches declareThings := by
    unfold declareThings
    refine (Reaches.define _ _ _).bind fun thing => ?_
    refine (Reaches.define _ _ _).bind fun gadget => ?_
    refine (Reaches.setBase _ _).bind fun _ => ?_
    exact (Reaches.addMethod _ _).bind fun name => .pure _
  unfold things
  split
  · rename_i thing gadget t hrun
    exact hbuild .initial .initial _ t hrun
  · exact .initial

end EventScript
