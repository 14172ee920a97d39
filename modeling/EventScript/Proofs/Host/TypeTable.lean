import EventScript.Host.Building

namespace EventScript

-- The types that a description refers to.
def GenericShape.mentioned : GenericShape → List TypeId
  | .plain => []
  | .definition parameters => parameters
  | .instanceOf generic arguments => generic :: arguments

def TypeDef.mentioned (d : TypeDef) : List TypeId :=
  d.shape.mentioned ++ d.base.toList ++ d.interfaces ++ d.properties.map (·.type)

theorem TypeDef.mem_mentioned {d : TypeDef} {a : TypeId} :
    a ∈ d.mentioned ↔ a ∈ d.shape.mentioned ∨ d.base = some a ∨ a ∈ d.interfaces ∨
      ∃ p ∈ d.properties, p.type = a := by
  simp [mentioned]

def MethodDef.mentioned (m : MethodDef) : List TypeId := m.declaring :: m.returns :: m.parameters

namespace TypeTable

variable {t t' : TypeTable} {id other : TypeId} {d : TypeDef} {bound : Nat}

@[simp] theorem contains_iff : t.contains id = true ↔ id.index < t.size := decide_eq_true_iff

@[simp] theorem containsMethod_iff {m : MethodId} :
    t.containsMethod m = true ↔ m.index < t.methods.size := decide_eq_true_iff

-- The invariants of a table, except that descriptions may refer to types that are still to be
-- added: to those whose numbers are below `bound`.
structure WellFormedBelow (t : TypeTable) (bound : Nat) : Prop where
  mentioned_lt : ∀ {id a : TypeId}, t.contains id → a ∈ (t.get id).mentioned → a.index < bound
  containsMethod_of_mem : ∀ {id : TypeId} {m : MethodId},
    t.contains id → m ∈ (t.get id).methods → t.containsMethod m
  contains_of_mentioned : ∀ {m : MethodId} {a : TypeId},
    t.containsMethod m → a ∈ (t.method m).mentioned → t.contains a
  -- An instance is younger than its definition, which has a parameter for each of its arguments.
  definition_of_instance : ∀ {id definition : TypeId} {arguments : List TypeId},
    t.contains id → (t.get id).shape = .instanceOf definition arguments →
    definition.index < id.index ∧ (∀ a ∈ arguments, a.index < id.index) ∧
      ∃ parameters, (t.get definition).shape = .definition parameters ∧
        parameters.length = arguments.length
  kind_of_instance : ∀ {id definition : TypeId} {arguments : List TypeId},
    t.contains id → (t.get id).shape = .instanceOf definition arguments →
    t.kind id = t.kind definition
  -- The indices tell the one type that there is, if there is one.
  findInstance?_eq_some : ∀ {id definition : TypeId} {arguments : List TypeId},
    t.findInstance? definition arguments = some id ↔
      t.contains id ∧ (t.get id).shape = .instanceOf definition arguments
  lookup_names_eq_some : ∀ {id : TypeId} {name : Option String × String × Nat},
    t.names.lookup name = some id ↔
      t.contains id ∧ (t.get id).isNamed ∧ (t.get id).lookupName = name
  contains_of_mem_instances : ∀ entry ∈ t.instances,
    t.contains entry.2 ∧ t.contains entry.1.1 ∧ ∀ a ∈ entry.1.2, t.contains a
  contains_of_mem_names : ∀ entry ∈ t.names, t.contains entry.2

-- The invariants of a table that is not in the middle of a step.
def WellFormed (t : TypeTable) : Prop := t.WellFormedBelow t.size

theorem WellFormedBelow.mono {bound' : Nat} (hw : t.WellFormedBelow bound) (hle : bound ≤ bound') :
    t.WellFormedBelow bound' :=
  { hw with mentioned_lt := fun hc ha => Nat.lt_of_lt_of_le (hw.mentioned_lt hc ha) hle }

-- A later state of a table, in which every type is still what it was among generics.
structure GrowsTo (t t' : TypeTable) : Prop where
  size_le : t.size ≤ t'.size
  methods_le : t.methods.size ≤ t'.methods.size
  shape_eq : ∀ {id : TypeId}, t.contains id → (t'.get id).shape = (t.get id).shape
  kind_eq : ∀ {id : TypeId}, t.contains id → t'.kind id = t.kind id

namespace GrowsTo

theorem refl (t : TypeTable) : t.GrowsTo t :=
  ⟨Nat.le_refl _, Nat.le_refl _, fun _ => rfl, fun _ => rfl⟩

theorem contains (h : t.GrowsTo t') (hc : t.contains id) : t'.contains id := by
  have := h.size_le
  simp only [contains_iff] at *
  omega

theorem trans {t'' : TypeTable} (h : t.GrowsTo t') (h' : t'.GrowsTo t'') : t.GrowsTo t'' where
  size_le := Nat.le_trans h.size_le h'.size_le
  methods_le := Nat.le_trans h.methods_le h'.methods_le
  shape_eq hc := (h'.shape_eq (h.contains hc)).trans (h.shape_eq hc)
  kind_eq hc := (h'.kind_eq (h.contains hc)).trans (h.kind_eq hc)

end GrowsTo

section Push

variable {h : ∀ a ∈ d.shape.arguments, a.index < t.size}

@[simp] theorem size_push : (t.push d h).size = t.size + 1 := Array.size_push d

theorem get_push : (t.push d h).get id = if id.index = t.size then d else t.get id := by
  unfold get push
  rw [Array.getElem?_push]
  split <;> simp_all [size]

theorem contains_push : (t.push d h).contains id ↔ id.index = t.size ∨ t.contains id := by
  simp only [contains_iff, size_push]
  omega

theorem index_ne_of_contains (hc : t.contains id) : id.index ≠ t.size := by
  rw [contains_iff] at hc
  omega

theorem get_push_of_contains (hc : t.contains id) : (t.push d h).get id = t.get id := by
  rw [get_push, if_neg (index_ne_of_contains hc)]

theorem growsTo_push : t.GrowsTo (t.push d h) where
  size_le := by simp
  methods_le := Nat.le_refl _
  shape_eq hc := by rw [get_push_of_contains hc]
  kind_eq hc := by rw [kind, get_push_of_contains hc, kind]

theorem lookup_cons_eq_some {κ β : Type} [BEq κ] [LawfulBEq κ] {key other : κ} {a b : β}
    {entries : List (κ × β)} (hnew : entries.lookup key = none) :
    ((key, a) :: entries).lookup other = some b ↔
      other = key ∧ a = b ∨ entries.lookup other = some b := by
  by_cases he : other = key
  · subst he
    simp [hnew]
  · have hb : (other == key) = false := by simpa using he
    simp [List.lookup_cons, hb, he]

-- What holds of the types of the table and of the new one holds of those of the new table.
theorem forall_push {P : TypeId → TypeDef → Prop} (hnew : P ⟨t.size⟩ d)
    (hold : ∀ id, t.contains id → P id (t.get id)) :
    ∀ id, (t.push d h).contains id → P id ((t.push d h).get id) := by
  intro id hc
  by_cases he : id.index = t.size
  · obtain rfl : id = ⟨t.size⟩ := by cases id; simpa using he
    rwa [get_push, if_pos rfl]
  · have hc' : t.contains id := (contains_push.mp hc).resolve_left he
    rw [get_push_of_contains hc']
    exact hold id hc'

-- A type of the new table is the new one, or a type of the table as it has been.
theorem contains_and_get_push {P : TypeDef → Prop} :
    (t.push d h).contains id ∧ P ((t.push d h).get id) ↔
      P d ∧ ⟨t.size⟩ = id ∨ t.contains id ∧ P (t.get id) := by
  rw [contains_push]
  constructor
  · rintro ⟨he | hc, hp⟩
    · obtain rfl : id = ⟨t.size⟩ := by cases id; simpa using he
      rw [get_push, if_pos rfl] at hp
      exact .inl ⟨hp, rfl⟩
    · rw [get_push_of_contains hc] at hp
      exact .inr ⟨hc, hp⟩
  · rintro (⟨hp, rfl⟩ | ⟨hc, hp⟩)
    · exact ⟨.inl rfl, by rwa [get_push, if_pos rfl]⟩
    · exact ⟨.inr hc, by rwa [get_push_of_contains hc]⟩

theorem mem_instances_push {entry : (TypeId × List TypeId) × TypeId} :
    entry ∈ (t.push d h).instances ↔
      d.shape = .instanceOf entry.1.1 entry.1.2 ∧ ⟨t.size⟩ = entry.2 ∨ entry ∈ t.instances := by
  obtain ⟨⟨definition, arguments⟩, id⟩ := entry
  cases hs : d.shape with
  | instanceOf owner own =>
      have hi : (t.push d h).instances = ((owner, own), ⟨t.size⟩) :: t.instances := by
        simp only [push, hs]
      rw [hi, List.mem_cons, Prod.mk.injEq, Prod.mk.injEq, GenericShape.instanceOf.injEq,
        eq_comm (a := definition), eq_comm (a := arguments), eq_comm (a := id)]
  | plain => simp [push, hs]
  | definition parameters => simp [push, hs]

theorem mem_names_push {entry : (Option String × String × Nat) × TypeId} :
    entry ∈ (t.push d h).names ↔
      d.isNamed ∧ d.lookupName = entry.1 ∧ ⟨t.size⟩ = entry.2 ∨ entry ∈ t.names := by
  obtain ⟨name, id⟩ := entry
  by_cases hn : d.isNamed
  · have hnames : (t.push d h).names = (d.lookupName, ⟨t.size⟩) :: t.names := if_pos hn
    simp [hnames, hn, eq_comm]
  · have hnames : (t.push d h).names = t.names := if_neg hn
    simp [hnames, hn]

theorem lookup_instances_push
    (hnew : ∀ definition arguments, d.shape = .instanceOf definition arguments →
      t.findInstance? definition arguments = none) {definition : TypeId} {arguments : List TypeId} :
    (t.push d h).findInstance? definition arguments = some id ↔
      d.shape = .instanceOf definition arguments ∧ ⟨t.size⟩ = id ∨
        t.findInstance? definition arguments = some id := by
  cases hs : d.shape with
  | instanceOf owner own =>
      have hi : (t.push d h).instances = ((owner, own), ⟨t.size⟩) :: t.instances := by
        simp only [push, hs]
      unfold findInstance?
      rw [hi, lookup_cons_eq_some (hnew _ _ hs), GenericShape.instanceOf.injEq, Prod.mk.injEq,
        eq_comm (a := definition), eq_comm (a := arguments)]
  | plain => simp [findInstance?, push, hs]
  | definition parameters => simp [findInstance?, push, hs]

theorem lookup_names_push (hnew : d.isNamed → t.names.lookup d.lookupName = none)
    {name : Option String × String × Nat} :
    (t.push d h).names.lookup name = some id ↔
      d.isNamed ∧ d.lookupName = name ∧ ⟨t.size⟩ = id ∨ t.names.lookup name = some id := by
  by_cases hn : d.isNamed
  · have hnames : (t.push d h).names = (d.lookupName, ⟨t.size⟩) :: t.names := if_pos hn
    rw [hnames, lookup_cons_eq_some (hnew hn), eq_comm (a := name)]
    simp [hn]
  · have hnames : (t.push d h).names = t.names := if_neg hn
    simp [hnames, hn]

theorem WellFormedBelow.push (hw : t.WellFormedBelow bound)
    (hmentioned : ∀ a ∈ d.mentioned, a.index < bound) (hmethods : d.methods = [])
    (hinstance : ∀ definition arguments, d.shape = .instanceOf definition arguments →
      t.findInstance? definition arguments = none ∧ definition.index < t.size ∧
      d.kind = t.kind definition ∧
      ∃ parameters, (t.get definition).shape = .definition parameters ∧
        parameters.length = arguments.length)
    (hname : d.isNamed → t.names.lookup d.lookupName = none) :
    (t.push d h).WellFormedBelow bound where
  mentioned_lt {id a} := by
    refine forall_push (P := fun _ d => a ∈ d.mentioned → a.index < bound) (hmentioned a) ?_ id
    exact fun id hc => hw.mentioned_lt hc
  containsMethod_of_mem {id m} := by
    refine forall_push (P := fun _ d => m ∈ d.methods → t.containsMethod m) ?_ ?_ id
    · simp [hmethods]
    · exact fun id hc => hw.containsMethod_of_mem hc
  contains_of_mentioned hm ha := growsTo_push.contains (hw.contains_of_mentioned hm ha)
  definition_of_instance {id definition arguments} := by
    have hold (hd : definition.index < t.size) :
        (∃ parameters, (t.get definition).shape = .definition parameters ∧
          parameters.length = arguments.length) →
        ∃ parameters, ((t.push d h).get definition).shape = .definition parameters ∧
          parameters.length = arguments.length := by
      rw [growsTo_push.shape_eq (contains_iff.mpr hd)]
      exact fun hp => hp
    refine forall_push (P := fun id d => d.shape = .instanceOf definition arguments →
      definition.index < id.index ∧ (∀ a ∈ arguments, a.index < id.index) ∧
        ∃ parameters, ((t.push _ h).get definition).shape = .definition parameters ∧
          parameters.length = arguments.length) ?_ ?_ id
    · intro hs
      obtain ⟨-, hd, -, hp⟩ := hinstance _ _ hs
      have ha : ∀ a ∈ arguments, a.index < t.size := by
        intro a ha
        exact h a (by rwa [hs])
      exact ⟨hd, ha, hold hd hp⟩
    · intro id hc hs
      obtain ⟨hd, ha, hp⟩ := hw.definition_of_instance hc hs
      exact ⟨hd, ha, hold (Nat.lt_trans hd (contains_iff.mp hc)) hp⟩
  kind_of_instance {id definition arguments} := by
    refine forall_push (P := fun _ d => d.shape = .instanceOf definition arguments →
      d.kind = (t.push _ h).kind definition) ?_ ?_ id
    · intro hs
      obtain ⟨-, hd, hk, -⟩ := hinstance _ _ hs
      rw [growsTo_push.kind_eq (contains_iff.mpr hd), hk]
    · intro id hc hs
      have hd := (hw.definition_of_instance hc hs).1
      have hcd := Nat.lt_trans hd (contains_iff.mp hc)
      rw [growsTo_push.kind_eq (contains_iff.mpr hcd)]
      exact hw.kind_of_instance hc hs
  findInstance?_eq_some {id definition arguments} := by
    rw [lookup_instances_push fun _ _ hs => (hinstance _ _ hs).1, hw.findInstance?_eq_some]
    exact (contains_and_get_push (P := (·.shape = .instanceOf definition arguments))).symm
  lookup_names_eq_some {id name} := by
    rw [lookup_names_push hname, hw.lookup_names_eq_some, ← and_assoc]
    exact (contains_and_get_push (P := fun d => d.isNamed ∧ d.lookupName = name)).symm
  contains_of_mem_instances entry hm := by
    rcases mem_instances_push.mp hm with ⟨hs, hid⟩ | hm
    · have hdefinition : t.contains entry.1.1 := contains_iff.mpr (hinstance _ _ hs).2.1
      have harguments : ∀ a ∈ entry.1.2, t.contains a := fun a ha =>
        contains_iff.mpr (h a (by rwa [hs]))
      exact ⟨by simp [← hid], growsTo_push.contains hdefinition,
        fun a ha => growsTo_push.contains (harguments a ha)⟩
    · obtain ⟨hi, hd, ha⟩ := hw.contains_of_mem_instances entry hm
      exact ⟨growsTo_push.contains hi, growsTo_push.contains hd,
        fun a hm => growsTo_push.contains (ha a hm)⟩
  contains_of_mem_names entry hm := by
    rcases mem_names_push.mp hm with ⟨-, -, hid⟩ | hm
    · simp [← hid]
    · exact growsTo_push.contains (hw.contains_of_mem_names entry hm)

end Push

section Modify

variable {f : TypeDef → TypeDef} {h : ∀ d, (f d).shape = d.shape}

@[simp] theorem size_modify : (t.modify id f h).size = t.size := Array.size_modify

theorem contains_modify : (t.modify id f h).contains other = t.contains other := by
  simp [contains]

theorem get_modify_of_ne (hne : other ≠ id) : (t.modify id f h).get other = t.get other := by
  have hi : id.index ≠ other.index := fun hi => hne (by cases id; cases other; simp_all)
  unfold get modify
  rw [Array.getElem?_modify, if_neg hi]

theorem get_modify (hc : t.contains id) :
    (t.modify id f h).get other = if other = id then f (t.get other) else t.get other := by
  by_cases he : other = id
  · subst he
    have hlt : other.index < t.types.size := contains_iff.mp hc
    have hsome : t.types[other.index]? = some t.types[other.index] :=
      Array.getElem?_eq_getElem hlt
    unfold get modify
    rw [Array.getElem?_modify]
    simp [hsome]
  · rw [get_modify_of_ne he, if_neg he]

-- What the change of a description keeps of it is kept of all types.
theorem get_modify_congr {α : Type} (g : TypeDef → α) (hg : ∀ d, g (f d) = g d)
    (hc : t.contains id) (other : TypeId) :
    g ((t.modify id f h).get other) = g (t.get other) := by
  rw [get_modify hc]
  split
  · exact hg _
  · rfl

-- So it is whether the table has the type or not.
theorem get_modify_keeps {α : Type} (g : TypeDef → α) (hg : ∀ d, g (f d) = g d)
    (other : TypeId) : g ((t.modify id f h).get other) = g (t.get other) := by
  by_cases hc : t.contains id
  · exact get_modify_congr g hg hc other
  · by_cases he : other = id
    · have hlt : ¬other.index < t.size := by simpa [he] using hc
      rw [get_of_not_contains hlt, get_of_not_contains (by rwa [size_modify])]
    · rw [get_modify_of_ne he]

theorem growsTo_modify (hc : t.contains id) (hkind : ∀ d, (f d).kind = d.kind) :
    t.GrowsTo (t.modify id f h) where
  size_le := by simp
  methods_le := Nat.le_refl _
  shape_eq _ := get_modify_congr (·.shape) h hc _
  kind_eq _ := get_modify_congr (·.kind) hkind hc _

-- A description may change in all that does not name the type.
theorem WellFormed.modify (hw : t.WellFormed) (hc : t.contains id)
    (hname : ∀ d, (f d).kind = d.kind ∧ (f d).home = d.home ∧ (f d).name = d.name)
    (hmentioned : ∀ a ∈ (f (t.get id)).mentioned, t.contains a)
    (hmethods : ∀ m ∈ (f (t.get id)).methods, t.containsMethod m) :
    (t.modify id f h).WellFormed := by
  have hshape := get_modify_congr (h := h) (·.shape) h hc
  have hkind := get_modify_congr (h := h) (·.kind) (fun d => (hname d).1) hc
  have hnamed := get_modify_congr (h := h) (fun d => (d.isNamed, d.lookupName)) (fun d => by
    obtain ⟨hk, hh, hn⟩ := hname d
    simp [TypeDef.isNamed, TypeDef.lookupName, TypeDef.arity, hk, hh, hn, h]) hc
  constructor
  case mentioned_lt =>
    intro other a ho ha
    rw [contains_modify] at ho
    rw [size_modify]
    rw [get_modify hc] at ha
    split at ha
    · rename_i he
      exact contains_iff.mp (hmentioned a (he ▸ ha))
    · exact hw.mentioned_lt ho ha
  case containsMethod_of_mem =>
    intro other m ho hm
    rw [contains_modify] at ho
    rw [get_modify hc] at hm
    split at hm
    · rename_i he
      exact hmethods m (he ▸ hm)
    · exact hw.containsMethod_of_mem ho hm
  case contains_of_mentioned =>
    intro m a hm ha
    rw [contains_modify]
    exact hw.contains_of_mentioned hm ha
  case definition_of_instance =>
    intro other definition arguments ho hs
    rw [contains_modify] at ho
    rw [hshape] at hs ⊢
    exact hw.definition_of_instance ho hs
  case kind_of_instance =>
    intro other definition arguments ho hs
    rw [contains_modify] at ho
    rw [hshape] at hs
    exact (hkind other).trans ((hw.kind_of_instance ho hs).trans (hkind definition).symm)
  case findInstance?_eq_some =>
    intro other definition arguments
    rw [contains_modify, hshape]
    exact hw.findInstance?_eq_some
  case lookup_names_eq_some =>
    intro other name
    obtain ⟨hisNamed, hlookupName⟩ := Prod.mk.inj (hnamed other)
    rw [contains_modify, hisNamed, hlookupName]
    exact hw.lookup_names_eq_some
  case contains_of_mem_instances =>
    intro entry hm
    simp only [contains_modify]
    exact hw.contains_of_mem_instances entry hm
  case contains_of_mem_names =>
    intro entry hm
    rw [contains_modify]
    exact hw.contains_of_mem_names entry hm

end Modify

theorem growsTo_pushMethod {m : MethodDef} : t.GrowsTo (t.pushMethod m) where
  size_le := Nat.le_refl _
  methods_le := by simp [pushMethod]
  shape_eq _ := rfl
  kind_eq _ := rfl

theorem method_pushMethod {m : MethodDef} {k : MethodId} :
    (t.pushMethod m).method k = if k.index = t.methods.size then m else t.method k := by
  unfold method pushMethod
  rw [Array.getElem?_push]
  split <;> simp_all

theorem WellFormed.pushMethod {m : MethodDef} (hw : t.WellFormed)
    (hm : ∀ a ∈ m.mentioned, t.contains a) : (t.pushMethod m).WellFormed where
  mentioned_lt hc ha := hw.mentioned_lt hc ha
  containsMethod_of_mem hc hk := by
    have := containsMethod_iff.mp (hw.containsMethod_of_mem hc hk)
    rw [containsMethod_iff, TypeTable.pushMethod, Array.size_push]
    omega
  contains_of_mentioned {k a} hk ha := by
    rw [method_pushMethod] at ha
    split at ha
    · exact hm a ha
    · rename_i hne
      refine hw.contains_of_mentioned (containsMethod_iff.mpr ?_) ha
      rw [containsMethod_iff, TypeTable.pushMethod, Array.size_push] at hk
      omega
  definition_of_instance hc hs := hw.definition_of_instance hc hs
  kind_of_instance hc hs := hw.kind_of_instance hc hs
  findInstance?_eq_some := hw.findInstance?_eq_some
  lookup_names_eq_some := hw.lookup_names_eq_some
  contains_of_mem_instances := hw.contains_of_mem_instances
  contains_of_mem_names := hw.contains_of_mem_names

theorem contains_and_get_iff {P : TypeDef → Prop} :
    (t.contains id ∧ P (t.get id)) ↔ ∃ d, t.types[id.index]? = some d ∧ P d := by
  rw [contains_iff]
  constructor
  · rintro ⟨hlt, hp⟩
    have hsome : t.types[id.index]? = some t.types[id.index] := Array.getElem?_eq_getElem hlt
    refine ⟨_, hsome, ?_⟩
    simpa [get, hsome] using hp
  · rintro ⟨d, hd, hp⟩
    refine ⟨(Array.getElem?_eq_some_iff.mp hd).1, ?_⟩
    simpa [get, hd] using hp

theorem lookup_eq_some_iff_mem {κ β : Type} [BEq κ] [LawfulBEq κ] {entries : List (κ × β)}
    (h : (entries.map Prod.fst).Nodup) {key : κ} {b : β} :
    entries.lookup key = some b ↔ (key, b) ∈ entries := by
  induction entries with
  | nil => simp
  | cons entry entries ih =>
      obtain ⟨first, a⟩ := entry
      rw [List.map_cons, List.nodup_cons] at h
      have hnew : entries.lookup first = none := by
        rw [List.lookup_eq_none_iff]
        intro p hp
        have : first ≠ p.1 := fun he => h.1 (List.mem_map.mpr ⟨p, hp, he.symm⟩)
        simpa using this
      rw [lookup_cons_eq_some hnew, ih h.2, List.mem_cons, Prod.mk.injEq, eq_comm (a := a)]

theorem mem_wellKnown_of_contains (hc : initial.contains id) : initial.get id ∈ wellKnown := by
  obtain ⟨d, hd, he⟩ := (contains_and_get_iff (P := (· = initial.get id))).mp ⟨hc, rfl⟩
  rw [← he]
  exact List.mem_of_getElem? (List.getElem?_toArray ▸ hd)

theorem closed_wellKnown : ∀ d ∈ wellKnown,
    (∀ a ∈ d.mentioned, a.index < initial.size) ∧ d.methods = [] := by decide

theorem shape_ne_of_mem_wellKnown (hd : d ∈ wellKnown) (definition : TypeId)
    (arguments : List TypeId) : d.shape ≠ .instanceOf definition arguments := by
  have hall : ∀ d ∈ wellKnown, d.shape = .plain ∨ d.shape = .definition d.shape.parameters := by
    decide
  rcases hall d hd with hs | hs <;> rw [hs] <;> simp

theorem nodup_names_initial : (initial.names.map Prod.fst).Nodup := by decide

theorem mem_names_initial {name : Option String × String × Nat} :
    (name, id) ∈ initial.names ↔
      ∃ d, initial.types[id.index]? = some d ∧ d.isNamed ∧ d.lookupName = name := by
  have htypes (i : Nat) : initial.types[i]? = wellKnown[i]? := List.getElem?_toArray
  simp only [initial, List.mem_reverse, List.mem_map, List.mem_filter, Prod.exists,
    List.mem_zipIdx_iff_getElem?, Prod.mk.injEq, ← htypes]
  constructor
  · rintro ⟨d, i, ⟨hd, hn⟩, hl, rfl⟩
    exact ⟨d, hd, hn, hl⟩
  · rintro ⟨d, hd, hn, hl⟩
    exact ⟨d, id.index, ⟨hd, hn⟩, hl, rfl⟩

theorem wellFormed_initial : initial.WellFormed where
  mentioned_lt hc ha := (closed_wellKnown _ (mem_wellKnown_of_contains hc)).1 _ ha
  containsMethod_of_mem hc hm := by
    rw [(closed_wellKnown _ (mem_wellKnown_of_contains hc)).2] at hm
    exact absurd hm List.not_mem_nil
  contains_of_mentioned hm _ := absurd hm (by simp [initial])
  definition_of_instance hc hs :=
    absurd hs (shape_ne_of_mem_wellKnown (mem_wellKnown_of_contains hc) _ _)
  kind_of_instance hc hs :=
    absurd hs (shape_ne_of_mem_wellKnown (mem_wellKnown_of_contains hc) _ _)
  findInstance?_eq_some {id definition arguments} := by
    have hnone : initial.findInstance? definition arguments = none := rfl
    rw [hnone]
    refine ⟨by simp, ?_⟩
    rintro ⟨hc, hs⟩
    exact absurd hs (shape_ne_of_mem_wellKnown (mem_wellKnown_of_contains hc) _ _)
  lookup_names_eq_some {id name} := by
    rw [lookup_eq_some_iff_mem nodup_names_initial, mem_names_initial]
    exact (contains_and_get_iff (P := fun d => d.isNamed = true ∧ d.lookupName = _)).symm
  contains_of_mem_instances entry hm := absurd hm List.not_mem_nil
  contains_of_mem_names entry hm := by
    obtain ⟨d, hd, -⟩ := mem_names_initial.mp (show (entry.1, entry.2) ∈ _ from hm)
    exact contains_iff.mpr (Array.getElem?_eq_some_iff.mp hd).1

end TypeTable

end EventScript
