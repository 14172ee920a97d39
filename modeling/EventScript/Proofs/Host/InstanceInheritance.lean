import EventScript.Proofs.Host.Assignability
import EventScript.Proofs.Host.Substitution

namespace EventScript

open Building Relation

namespace TypeTable

variable {t t' : TypeTable} {id parent definition «instance» type other : TypeId}
  {parameters arguments own : List TypeId} {R : TypeId → TypeId → Prop}

-- How a relation between types and what they are derived from goes along with replacing parameters:
-- parameters are derived from nothing, all other types but instances from types over their own
-- parameters, and instances from what their definitions are derived from.
structure Tracks (t : TypeTable) (R : TypeId → TypeId → Prop) : Prop where
  contains : ∀ {id parent}, R id parent → t.contains parent
  rootless : ∀ {id parent}, t.isGenericParameter id = true → ¬R id parent
  isOver : ∀ {id parent}, (∀ definition own, (t.get id).shape ≠ .instanceOf definition own) →
    R id parent → t.isOver (t.genericParameters id) parent = true
  lower : ∀ {id definition own parent}, (t.get id).shape = .instanceOf definition own →
    R id parent → ∃ declared, R definition declared ∧ t.Replaced own declared parent
  raise : ∀ {id definition own declared}, (t.get id).shape = .instanceOf definition own →
    R definition declared → ∃ parent, R id parent ∧ t.Replaced own declared parent

-- The tables in which the types that others are derived from keep to the parameters in scope, and
-- instances follow their definitions.
structure Hierarchical (t : TypeTable) : Prop where
  rootless : ∀ {id}, t.isGenericParameter id = true → t.Rootless id
  isOver : ∀ {id parent}, (∀ definition own, (t.get id).shape ≠ .instanceOf definition own) →
    t.Derives id parent ∨ t.Names id parent → t.isOver (t.genericParameters id) parent = true
  mirrors : ∀ {id definition own}, (t.get id).shape = .instanceOf definition own →
    t.Mirrors own (t.get definition) (t.get id)

theorem Hierarchical.tracks_derives (h : t.Hierarchical) (hw : t.WellFormed) :
    t.Tracks t.Derives where
  contains hd := contains_iff.mpr
    (hw.mentioned_lt (contains_iff.mpr (index_lt_of_base? hd))
      (TypeDef.mem_mentioned.mpr (.inr (.inl hd))))
  rootless hk hd := by
    rw [Derives, (h.rootless hk).1] at hd
    cases hd
  isOver hs hd := h.isOver hs (.inl hd)
  lower hs hd := exists_of_option_rel (option_rel_flip (h.mirrors hs).base) hd
  raise hs hd := exists_of_option_rel (h.mirrors hs).base hd

theorem contains_of_names (h : t.Names id parent) : t.contains id := by
  by_contra hc
  rw [Names, get_of_not_contains (by simpa using hc)] at h
  cases h

theorem Hierarchical.tracks_names (h : t.Hierarchical) (hw : t.WellFormed) :
    t.Tracks t.Names where
  contains hn := contains_iff.mpr
    (hw.mentioned_lt (contains_of_names hn) (TypeDef.mem_mentioned.mpr (.inr (.inr (.inl hn)))))
  rootless hk hn := by
    rw [Names, (h.rootless hk).2] at hn
    cases hn
  isOver hs hn := h.isOver hs (.inr hn)
  lower hs hn := exists_mem_of_forall₂ (h.mirrors hs).interfaces.flip hn
  raise hs hn := exists_mem_of_forall₂ (h.mirrors hs).interfaces hn

-- The second type is the first as seen from the instance.
structure Sees (t : TypeTable) (definition : TypeId) (arguments : List TypeId)
    (type other : TypeId) : Prop where
  isOver : t.isOver (t.genericParameters definition) type = true
  replaced : t.Replaced arguments type other

-- A definition corresponds to its instance, and a type over the parameters of the definition to
-- what it is as seen from the instance.
def Corresponds (t : TypeTable) (definition «instance» : TypeId) (arguments : List TypeId)
    (type other : TypeId) : Prop :=
  (type = definition ∧ other = «instance») ∨ t.Sees definition arguments type other

-- The parameters of a definition are replaced by the arguments of an instance.
theorem replaces_of_instance (ht : t.Reached)
    (hs : (t.get id).shape = .instanceOf definition own) :
    t.Replaces (t.genericParameters definition) own := by
  obtain ⟨parameters, hp, hl⟩ := ht.wellFormed.1.exists_parameters hs
  have he : t.genericParameters definition = parameters := by
    rw [genericParameters, hp, GenericShape.parameters]
  rw [he]
  exact ⟨ht.numbersParameters definition parameters hp, hl⟩

-- The definition of an instance is none itself.
theorem Tracks.isOver_definition (h : t.Tracks R) (hw : t.WellFormed)
    (hs : (t.get id).shape = .instanceOf definition own) (hr : R definition parent) :
    t.isOver (t.genericParameters definition) parent = true := by
  refine h.isOver (fun generic inner hi => ?_) hr
  obtain ⟨parameters, hp, -⟩ := hw.exists_parameters hs
  cases hp.symm.trans hi

-- One step up from a type has its counterpart as seen from the instance.
theorem Tracks.step (h : t.Tracks R) (ht : t.Reached)
    (hi : (t.get «instance»).shape = .instanceOf definition arguments)
    (hc : t.Corresponds definition «instance» arguments type other) (hr : R type parent) :
    ∃ counterpart, R other counterpart ∧ t.Sees definition arguments parent counterpart := by
  have hw := ht.wellFormed.1
  rcases hc with ⟨rfl, rfl⟩ | ⟨ho, hreplaced⟩
  · obtain ⟨counterpart, hcounterpart, hreplaced⟩ := h.raise hi hr
    exact ⟨counterpart, hcounterpart, h.isOver_definition hw hi hr, hreplaced⟩
  cases hreplaced with
  | parameter hk => exact absurd hr (h.rootless (isGenericParameter_of_kind hk))
  | @applied _ _ generic own results hk hs hs' hl hzip =>
      obtain ⟨declared, hdeclared, hparent⟩ := h.lower hs hr
      obtain ⟨counterpart, hcounterpart, hreplaced⟩ := h.raise hs' hdeclared
      have hgeneric := replaces_of_instance ht hs
      have hover := h.isOver_definition hw hs hdeclared
      have hown := (isOver_instanceOf hk hs).mp ho
      have hall : List.Forall₂ (t.Replaced arguments) own results :=
        List.forall₂_iff_zip.mpr ⟨hl, fun hm => hzip _ _ hm⟩
      refine ⟨counterpart, hcounterpart, hparent.isOver hw hgeneric hown hover, ?_⟩
      exact hparent.comp hw hgeneric hover hall hreplaced
  | closed hc hk hs =>
      have hover := h.isOver hs hr
      have hnone : t.genericParameters type = [] := by
        rw [genericParameters, shape_eq_plain_of_isOver hk ho hs]
        rfl
      rw [hnone] at hover
      exact ⟨parent, hr, isOver_mono hw (List.nil_subset _) hover,
        replaced_self hw (h.contains hr) hover⟩

-- By induction on the way up.
theorem Tracks.run (h : t.Tracks R) (ht : t.Reached)
    (hi : (t.get «instance»).shape = .instanceOf definition arguments)
    (hc : t.Corresponds definition «instance» arguments type other)
    (hr : ReflTransGen R type parent) :
    ∃ counterpart, ReflTransGen R other counterpart ∧
      t.Corresponds definition «instance» arguments parent counterpart := by
  induction hr with
  | refl => exact ⟨other, .refl, hc⟩
  | tail _ hr ih =>
      obtain ⟨between, hb, hc'⟩ := ih
      obtain ⟨counterpart, hr', hsees⟩ := h.step ht hi hc' hr
      exact ⟨counterpart, hb.tail hr', .inr hsees⟩

theorem Tracks.climb (h : t.Tracks R) (ht : t.Reached)
    (hi : (t.get «instance»).shape = .instanceOf definition arguments)
    (hc : t.Corresponds definition «instance» arguments type other)
    (hr : TransGen R type parent) :
    ∃ counterpart, TransGen R other counterpart ∧
      t.Sees definition arguments parent counterpart := by
  obtain ⟨last, hlast, hr⟩ := TransGen.tail'_iff.mp hr
  obtain ⟨between, hb, hc'⟩ := h.run ht hi hc hlast
  obtain ⟨counterpart, hr', hsees⟩ := h.step ht hi hc' hr
  exact ⟨counterpart, TransGen.tail' hb hr', hsees⟩

-- The counterpart is the type with the parameters replaced by the arguments of the instance.
theorem Sees.eq_seenFrom (h : t.Sees definition arguments type other) (ht : t.Reached)
    (hi : (t.get «instance»).shape = .instanceOf definition arguments) :
    (t.tree type).replaced? t arguments = some other ∧ t.seenFrom type «instance» = other := by
  have hw := ht.wellFormed.1
  have hfound := h.replaced.replaced?_eq_some hw (replaces_of_instance ht hi) h.isOver
  refine ⟨hfound, ?_⟩
  rw [seenFrom_eq, genericArguments_of_shape hi, hfound, Option.getD_some]
  split
  · rename_i hnil
    subst hnil
    have hover := h.isOver
    rw [List.length_eq_zero_iff.mp (replaces_of_instance ht hi).length_eq] at hover
    exact (replaced_self hw h.replaced.contains hover).unique hw h.replaced
  · rfl

-- What the types have in common that an instance inherits from a list of types of its definition:
-- each as seen from the instance, by way of instances that are there.
def InheritsFrom (t : TypeTable) («instance» : TypeId) (arguments : List TypeId)
    (declared inherited : List TypeId) : Prop :=
  ∀ type ∈ declared, (t.tree type).replaced? t arguments = some (t.seenFrom type «instance») ∧
    t.seenFrom type «instance» ∈ inherited

-- An instance has the bases and the interfaces of its definition, each as seen from the instance.
theorem Hierarchical.inheritsFrom (h : t.Hierarchical) (ht : t.Reached)
    (hi : (t.get «instance»).shape = .instanceOf definition arguments) :
    t.InheritsFrom «instance» arguments (t.baseChain definition) (t.baseChain «instance») ∧
      t.InheritsFrom «instance» arguments (t.allInterfaces definition)
        (t.allInterfaces «instance») := by
  have hw := ht.wellFormed.1
  have hstart : t.Corresponds definition «instance» arguments definition «instance» :=
    .inl ⟨rfl, rfl⟩
  constructor
  · intro base hb
    obtain ⟨counterpart, hc, hsees⟩ :=
      (h.tracks_derives hw).climb ht hi hstart (mem_baseChain_iff.mp hb)
    obtain ⟨hfound, rfl⟩ := hsees.eq_seenFrom ht hi
    exact ⟨hfound, mem_baseChain_iff.mpr hc⟩
  · intro face hf
    obtain ⟨current, hcurrent, hnames⟩ := mem_allInterfaces_iff.mp hf
    obtain ⟨other, hother, hc⟩ := (h.tracks_derives hw).run ht hi hstart hcurrent
    obtain ⟨counterpart, hn, hsees⟩ := (h.tracks_names hw).climb ht hi hc hnames
    obtain ⟨hfound, rfl⟩ := hsees.eq_seenFrom ht hi
    exact ⟨hfound, mem_allInterfaces_iff.mpr ⟨other, hother, hn⟩⟩

theorem Mirrors.rootless {d : TypeDef} (h : t.Mirrors own d (t.get id)) (hb : d.base = none)
    (hi : d.interfaces = []) : t.Rootless id := by
  have hbase := h.base
  have hinterfaces := h.interfaces
  rw [hb] at hbase
  rw [hi] at hinterfaces
  refine ⟨?_, List.forall₂_nil_left_iff.mp hinterfaces⟩
  rw [base?]
  generalize (t.get id).base = base at hbase
  cases hbase
  rfl

-- Instances that mirror their definitions do not disturb the hierarchy.
theorem Hierarchical.completed (h : t.Hierarchical) (hw : t.WellFormed) (hc : t.Completes t')
    (hw' : t'.WellFormed) : t'.Hierarchical := by
  constructor
  case rootless =>
    intro id hk
    by_cases hnew : t'.contains id
    · rcases hc.mirrored hnew with hold | ⟨definition, own, hd, hs, hm⟩
      · rw [hc.grows.isGenericParameter_eq hold] at hk
        rw [Rootless, base?, hc.get_eq hold]
        exact h.rootless hk
      · rw [isGenericParameter_of_instanceOf hw' hs, hc.grows.isGenericParameter_eq hd] at hk
        exact hm.rootless (h.rootless hk).1 (h.rootless hk).2
    · rw [Rootless, base?, get_of_not_contains (by simpa using hnew)]
      exact ⟨rfl, rfl⟩
  case isOver =>
    intro id parent hs hp
    have hnew : t'.contains id := by
      rcases hp with hd | hn
      · exact contains_iff.mpr (index_lt_of_base? hd)
      · exact contains_of_names hn
    rcases hc.mirrored hnew with hold | ⟨definition, own, -, hs', -⟩
    · rw [hc.get_eq hold] at hs
      rw [Derives, Names, base?, hc.get_eq hold] at hp
      rw [genericParameters, hc.get_eq hold]
      have hparent : t.contains parent := by
        rcases hp with hd | hn
        · exact (h.tracks_derives hw).contains (show t.Derives id parent from hd)
        · exact (h.tracks_names hw).contains (show t.Names id parent from hn)
      exact isOver_grown hw hc.grows hparent (h.isOver hs hp)
    · exact absurd hs' (hs definition own)
  case mirrors =>
    intro id definition own hs
    rcases hc.mirrored (contains_of_shape hs) with hold | ⟨definition', own', hd, hs', hm⟩
    · rw [hc.get_eq hold] at hs ⊢
      rw [hc.get_eq (hw.contains_definition hs)]
      exact (h.mirrors hs).grown hc.grows
    · obtain ⟨rfl, rfl⟩ := GenericShape.instanceOf.inj (hs.symm.trans hs')
      rwa [hc.get_eq hd]

-- In a table in which parameters are derived from nothing, all other types but instances from types
-- over their own parameters, and instances from what their definitions are derived from, an
-- instance has the bases and the interfaces of its definition, each as seen from the instance; and
-- the table with a new instance is again such a table.
theorem instantiate_inherits {limit : Nat} (ht : t.Reached) (h : t.Hierarchical)
    (ho : outcome (instantiateWithin limit definition arguments) t = (.ok «instance», t')) :
    t'.Hierarchical ∧
      t'.InheritsFrom «instance» arguments (t'.baseChain definition) (t'.baseChain «instance») ∧
      t'.InheritsFrom «instance» arguments (t'.allInterfaces definition)
        (t'.allInterfaces «instance») := by
  have hrun : outcome (discard (instantiateWithin limit definition arguments)) t = (.ok (), t') :=
    outcome_bind_ok ho
  have ht' : t'.Reached :=
    .step (.instantiate definition arguments) limit ht hrun fun e he => by cases he
  have hw := ht.wellFormed.1
  by_cases ha : t.Applies definition arguments
  · rcases succeeds_instantiateWithin limit hw ha with
      ⟨id, t'', ho', hw', -, hcompletes, -, hi⟩ | ⟨e, t'', ho', -⟩
    · obtain ⟨he, rfl⟩ := Prod.mk.inj (ho'.symm.trans ho)
      obtain rfl := Except.ok.inj he
      have h' := h.completed hw hcompletes hw'
      exact ⟨h', h'.inheritsFrom ht' hi⟩
    · cases ho'.symm.trans ho
  · obtain ⟨e, t'', ho', -⟩ := refuses_instantiateWithin limit ha
    cases ho'.symm.trans ho

-- Whether one type does its part.
def keepsHierarchy (t : TypeTable) (id : TypeId) : Bool :=
  let d := t.get id
  (!t.isGenericParameter id || (d.base.isNone && d.interfaces.isEmpty)) &&
    match d.shape with
    | .instanceOf definition own =>
      let seen (type : TypeId) : Option TypeId := (t.tree type).replaced? t own
      (t.get definition).base.map seen = d.base.map some &&
        (t.get definition).interfaces.map seen = d.interfaces.map some
    | shape => (d.base.toList ++ d.interfaces).all (t.isOver shape.parameters)

theorem keepsHierarchy_of_not_contains (hc : ¬id.index < t.size) : t.keepsHierarchy id = true := by
  rw [keepsHierarchy, get_of_not_contains hc]
  cases t.isGenericParameter id <;> rfl

theorem mirrors_of_replaced? (hw : t.WellFormed) (hc : t.contains definition) {d : TypeDef}
    (hb : (t.get definition).base.map (fun type => (t.tree type).replaced? t own) = d.base.map some)
    (hi : (t.get definition).interfaces.map (fun type => (t.tree type).replaced? t own) =
      d.interfaces.map some) : t.Mirrors own (t.get definition) d := by
  have hmentioned {type : TypeId} (hm : type ∈ (t.get definition).mentioned) : t.contains type :=
    contains_iff.mpr (hw.mentioned_lt hc hm)
  constructor
  case base =>
    cases hdeclared : (t.get definition).base with
    | none =>
        rw [hdeclared] at hb
        rw [Option.map_eq_none_iff.mp hb.symm]
        exact .none
    | some declared =>
        rw [hdeclared] at hb
        obtain ⟨parent, hp, he⟩ := Option.map_eq_some_iff.mp hb.symm
        rw [hp]
        refine .some (replaced_of_replaced? hw (hmentioned ?_) he.symm)
        exact TypeDef.mem_mentioned.mpr (.inr (.inl hdeclared))
  case interfaces =>
    rw [← List.forall₂_eq_eq_eq, List.forall₂_map_left_iff, List.forall₂_map_right_iff,
      List.forall₂_iff_zip] at hi
    refine List.forall₂_iff_zip.mpr ⟨hi.1, fun {a b} hm => ?_⟩
    refine replaced_of_replaced? hw (hmentioned ?_) (hi.2 hm)
    exact TypeDef.mem_mentioned.mpr (.inr (.inr (.inl (List.of_mem_zip hm).1)))

theorem hierarchical_of_keepsHierarchy (hw : t.WellFormed)
    (h : ∀ i < t.size, t.keepsHierarchy ⟨i⟩ = true) : t.Hierarchical := by
  have hall (id : TypeId) : t.keepsHierarchy id = true := by
    by_cases hc : id.index < t.size
    · exact h id.index hc
    · exact keepsHierarchy_of_not_contains hc
  constructor
  case rootless =>
    intro id hk
    have hroot := ((Bool.and_eq_true _ _).mp (hall id)).1
    rw [hk] at hroot
    simpa [Rootless, base?] using hroot
  case isOver =>
    intro id parent hs hp
    have hover := ((Bool.and_eq_true _ _).mp (hall id)).2
    have hmem : parent ∈ (t.get id).base.toList ++ (t.get id).interfaces := by
      rw [List.mem_append, Option.mem_toList]
      exact hp
    rw [genericParameters]
    cases hshape : (t.get id).shape with
    | plain =>
        rw [hshape] at hover
        exact List.all_eq_true.mp hover parent hmem
    | definition parameters =>
        rw [hshape] at hover
        exact List.all_eq_true.mp hover parent hmem
    | instanceOf definition own => exact absurd hshape (hs definition own)
  case mirrors =>
    intro id definition own hs
    have hmirrors := ((Bool.and_eq_true _ _).mp (hall id)).2
    rw [hs] at hmirrors
    simp only [Bool.and_eq_true, decide_eq_true_eq] at hmirrors
    exact mirrors_of_replaced? hw (hw.contains_definition hs) hmirrors.1 hmirrors.2

-- A generic interface, a generic class that implements it for its second parameter, and a generic
-- class derived from an instance of that for its only one.
def familySteps : List BuildStep :=
  [.defineGeneric "Demo" "Source" .interfaceType ["T"],
    .defineGeneric "Demo" "Pair" .classType ["A", "B"],
    .instantiate ⟨21⟩ [⟨25⟩],
    .addInterface ⟨23⟩ ⟨26⟩,
    .defineGeneric "Demo" "Box" .classType ["T"],
    .instantiate ⟨23⟩ [.string, ⟨28⟩],
    .setBase ⟨27⟩ ⟨29⟩]

def family : TypeTable :=
  familySteps.foldl (fun t s => (outcome (s.run nestingLimit) t).2) .initial

-- A box of whole numbers is derived from a pair of a text and a whole number, and so it is a source
-- of whole numbers.
theorem instantiate_inherits_family :
    let made := (outcome (instantiateWithin nestingLimit ⟨27⟩ [.numeric .int32]) family).2
    family.Reached ∧ family.Hierarchical ∧
      outcome (instantiateWithin nestingLimit ⟨27⟩ [.numeric .int32]) family = (.ok ⟨31⟩, made) ∧
      made.Hierarchical ∧ made.seenFrom ⟨29⟩ ⟨31⟩ = ⟨32⟩ ∧ ⟨32⟩ ∈ made.baseChain ⟨31⟩ ∧
      made.seenFrom ⟨30⟩ ⟨31⟩ = ⟨33⟩ ∧ ⟨33⟩ ∈ made.allInterfaces ⟨31⟩ := by
  intro made
  have hreached : family.Reached := Reached.initial.foldl (by decide +kernel)
  have hierarchy : family.Hierarchical :=
    hierarchical_of_keepsHierarchy hreached.wellFormed.1 (by decide +kernel)
  have hanswer : (outcome (instantiateWithin nestingLimit ⟨27⟩ [.numeric .int32]) family).1 =
      .ok ⟨31⟩ := by decide +kernel
  have ho : outcome (instantiateWithin nestingLimit ⟨27⟩ [.numeric .int32]) family =
      (.ok ⟨31⟩, made) := Prod.ext hanswer rfl
  obtain ⟨hmade, hbases, hfaces⟩ := instantiate_inherits hreached hierarchy ho
  have hbase : made.seenFrom ⟨29⟩ ⟨31⟩ = ⟨32⟩ := by decide +kernel
  have hface : made.seenFrom ⟨30⟩ ⟨31⟩ = ⟨33⟩ := by decide +kernel
  refine ⟨hreached, hierarchy, ho, hmade, hbase, ?_, hface, ?_⟩
  · rw [← hbase]
    exact (hbases ⟨29⟩ (by decide +kernel)).2
  · rw [← hface]
    exact (hfaces ⟨30⟩ (by decide +kernel)).2

end TypeTable

end EventScript
