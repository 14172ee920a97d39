import EventScript.Proofs.FullName.Text
import EventScript.Proofs.Host.InstanceNames
import EventScript.Proofs.Runtime

namespace EventScript

theorem TypeDef.fullName_of_home {d : TypeDef} {home : String} (h : d.home = some home) :
    d.fullName.toList = home.toList ++ '.' :: d.name.toList := by
  rw [TypeDef.fullName, h]
  simp

namespace TypeTable

variable {t : TypeTable} {id definition : TypeId} {arguments : List TypeId}

theorem displayName_of_plain (hs : (t.get id).shape = .plain) :
    t.displayName id = (t.get id).fullName := by
  rw [displayName, tree_eq, TypeTree.displayName, hs]

theorem displayName_of_instance (hs : (t.get id).shape = .instanceOf definition arguments) :
    t.displayName id =
      (t.get id).fullName ++ "<" ++ ", ".intercalate (arguments.map t.displayName) ++ ">" := by
  have hnames : (arguments.map t.tree).map (TypeTree.displayName t) = arguments.map t.displayName :=
    List.map_map
  rw [displayName, tree_eq, genericArguments_of_shape hs, TypeTree.displayName, hs, hnames]

theorem toList_displayName (hs : (t.get id).shape = .instanceOf definition arguments) :
    (t.displayName id).toList = (t.get id).fullName.toList ++
      '<' :: ([','].intercalate (spaced (arguments.map fun a => (t.displayName a).toList)) ++
        ['>']) := by
  rw [displayName_of_instance hs, ← intercalate_spaced]
  simp [String.toList_intercalate, Function.comp_def]

end TypeTable

-- Whether the name of a type in a namespace keeps apart from what is put around it: the points
-- between namespaces, the brackets and commas around arguments, and blanks.
def TypeDef.hasPlainName (d : TypeDef) : Bool :=
  match d.home with
  | none => true
  | some home => d.name.toList.all (fun c => c ≠ '.' && !setsOff c) &&
      home.toList.all (fun c => !setsOff c) && Text.isTrimmed d.fullName.toList

namespace TypeDef

variable {d : TypeDef} {home : String}

theorem hasPlainName_iff (hh : d.home = some home) :
    d.hasPlainName = true ↔ (∀ c ∈ d.name.toList, c ≠ '.' ∧ setsOff c = false) ∧
      (∀ c ∈ home.toList, setsOff c = false) ∧ Text.isTrimmed d.fullName.toList = true := by
  unfold hasPlainName
  rw [hh]
  simp [and_assoc]

theorem setsOff_fullName (h : d.hasPlainName = true) (hh : d.home = some home) :
    ∀ c ∈ d.fullName.toList, setsOff c = false := by
  obtain ⟨hname, hhome, -⟩ := (hasPlainName_iff hh).mp h
  rw [fullName_of_home hh]
  intro c hc
  rcases List.mem_append.mp hc with hc | hc
  · exact hhome c hc
  · rcases List.mem_cons.mp hc with rfl | hc
    · decide
    · exact (hname c hc).2

end TypeDef

namespace TypeTable

variable {t : TypeTable} {id definition : TypeId} {arguments : List TypeId}

def PlainNames (t : TypeTable) : Prop := ∀ id, (t.get id).hasPlainName = true

-- Closed types that can be written: those in namespaces, and definitions applied to such types.
inductive Nameable (t : TypeTable) : TypeId → Prop
  | plain {id : TypeId} : t.contains id → t.isGenericParameter id = false →
      (t.get id).shape = .plain → (t.get id).home.isSome → Nameable t id
  | applied {id definition : TypeId} {arguments : List TypeId} : t.contains id →
      t.isGenericParameter id = false → (t.get id).shape = .instanceOf definition arguments →
      arguments ≠ [] → (∀ a ∈ arguments, Nameable t a) → Nameable t id

theorem isNamed_of_shape (hk : t.isGenericParameter id = false)
    (hs : ∀ definition arguments, (t.get id).shape ≠ .instanceOf definition arguments) :
    (t.get id).isNamed = true := by
  unfold isGenericParameter kind at hk
  unfold TypeDef.isNamed
  split
  · rename_i hp
    rw [hp] at hk
    cases hk
  · rename_i definition arguments hi _
    exact absurd hi (hs definition arguments)
  · rfl

-- An instance has a definition that goes by the same name and can be looked up by it.
theorem NamesInstances.exists_home (h : t.NamesInstances) (hw : t.WellFormed)
    (hk : t.isGenericParameter id = false)
    (hs : (t.get id).shape = .instanceOf definition arguments) :
    ∃ home, (t.get id).home = some home ∧ (t.get definition).home = some home ∧
      (t.get definition).name = (t.get id).name ∧ t.contains definition ∧
      (t.get definition).isNamed ∧ (t.get definition).arity = arguments.length := by
  obtain ⟨hc, hhome, hname⟩ := h.name_of_instance hs
  obtain ⟨parameters, hp, hl⟩ := hw.exists_parameters hs
  obtain ⟨home, hh⟩ := Option.isSome_iff_exists.mp (h.home_of_definition hp)
  have hnamed : (t.get definition).isNamed := by
    refine isNamed_of_shape ((isGenericParameter_of_instanceOf hw hs).symm.trans hk) ?_
    intro _ _ hi
    cases hp.symm.trans hi
  exact ⟨home, hhome.trans hh, hh, hname.symm, hc, hnamed, by rwa [TypeDef.arity, hp]⟩

theorem Nameable.mentionsParameter (h : t.Nameable id) : t.mentionsParameter id = false := by
  induction h with
  | plain _ hk hs => exact mentionsParameter_of_plain hk hs
  | applied _ hk hs _ _ ih => exact (mentionsParameter_instanceOf_eq_false hk hs).mpr ih

-- The names of arguments stay in one piece between the commas.
theorem Nameable.passes (h : t.Nameable id) (hn : t.PlainNames) (ht : t.NamesInstances)
    (hw : t.WellFormed) (depth : Nat) : Passes depth depth (t.displayName id).toList := by
  induction h generalizing depth with
  | @plain id _ _ hs hh =>
      obtain ⟨home, hh⟩ := Option.isSome_iff_exists.mp hh
      rw [displayName_of_plain hs]
      exact .of_setsOff (TypeDef.setsOff_fullName (hn id) hh)
  | @applied id definition arguments _ hk hs _ _ ih =>
      obtain ⟨home, hh, -⟩ := ht.exists_home hw hk hs
      rw [toList_displayName hs]
      refine .bracketed (TypeDef.setsOff_fullName (hn id) hh) (Passes.spaced ?_)
      intro part hm
      obtain ⟨a, ha, rfl⟩ := List.mem_map.mp hm
      exact ih a ha (depth + 1)

end TypeTable

namespace Runtime

variable {r : Runtime} {id : TypeId} {arity : Nat} {cs cs' : List Char}

-- Named types

theorem findNamed?_eq_some_iff (hw : r.types.WellFormed) :
    r.findNamed? cs arity = some id ↔
      ∃ home, r.types.contains id ∧ (r.types.get id).isNamed ∧
        (r.types.get id).home = some home ∧ (r.types.get id).arity = arity ∧
        cs = home.toList ++ '.' :: (r.types.get id).name.toList ∧
        '.' ∉ (r.types.get id).name.toList := by
  refine Option.bind_eq_some_iff.trans ?_
  constructor
  · rintro ⟨⟨home, name⟩, hcut, hfind⟩
    obtain ⟨rfl, hn⟩ := Text.cutLast?_eq_some_iff.mp hcut
    obtain ⟨hc, hnamed, hl⟩ := hw.lookup_names_eq_some.mp hfind
    simp only [TypeDef.lookupName, Prod.mk.injEq] at hl
    obtain ⟨hhome, hname, harity⟩ := hl
    refine ⟨_, hc, hnamed, hhome, harity, ?_, ?_⟩
    · rw [hname, String.toList_ofList, String.toList_ofList]
    · rwa [hname, String.toList_ofList]
  · rintro ⟨home, hc, hnamed, hhome, harity, rfl, hn⟩
    refine ⟨_, Text.cutLast?_eq_some_iff.mpr ⟨rfl, hn⟩, ?_⟩
    refine hw.lookup_names_eq_some.mpr ⟨hc, hnamed, ?_⟩
    simp [TypeDef.lookupName, hhome, harity]

theorem findTypeChars?_congr (h : Text.trimChars cs = Text.trimChars cs') :
    r.findTypeChars? cs = r.findTypeChars? cs' := by
  cases hc : Text.cutFirst? '<' (Text.trimChars cs) with
  | none => rw [findTypeChars?_of_named hc, findTypeChars?_of_named (h ▸ hc), h]
  | some parts =>
      obtain ⟨fullName, behind⟩ := parts
      cases hd : dropClosing? behind with
      | none => rw [findTypeChars?_of_unclosed hc hd, findTypeChars?_of_unclosed (h ▸ hc) hd]
      | some inner =>
          rw [findTypeChars?_of_instance hc hd, findTypeChars?_of_instance (h ▸ hc) hd]

theorem mapM_spaced (parts : List (List Char)) :
    (spaced parts).mapM r.findTypeChars? = parts.mapM r.findTypeChars? := by
  cases parts with
  | nil => rfl
  | cons first parts =>
      have hblank (cs : List Char) : r.findTypeChars? (' ' :: cs) = r.findTypeChars? cs :=
        findTypeChars?_congr (Text.trimChars_blank_cons rfl cs)
      rw [spaced, List.mapM_cons, List.mapM_cons, List.mapM_map]
      simp only [Function.comp_def, hblank]

theorem mapM_displayName {arguments : List TypeId}
    (h : ∀ a ∈ arguments, r.findTypeChars? (r.types.displayName a).toList = some a) :
    (arguments.map fun a => (r.types.displayName a).toList).mapM r.findTypeChars? =
      some arguments := by
  induction arguments with
  | nil => rfl
  | cons a arguments ih =>
      obtain ⟨hfirst, hrest⟩ := List.forall_mem_cons.mp h
      rw [List.map_cons, List.mapM_cons, hfirst, ih hrest]
      rfl

-- Shown names are found again

theorem findTypeChars?_displayName (ht : r.types.NamesInstances) (hw : r.types.WellFormed)
    (hn : r.types.PlainNames) (h : r.types.Nameable id) :
    r.findTypeChars? (r.types.displayName id).toList = some id := by
  induction h with
  | @plain id hc hk hs hh =>
      obtain ⟨home, hhome⟩ := Option.isSome_iff_exists.mp hh
      obtain ⟨hname, -, htrimmed⟩ := (TypeDef.hasPlainName_iff hhome).mp (hn id)
      have htrim := Text.trimChars_eq_self htrimmed
      have hcut : Text.cutFirst? '<' (Text.trimChars (r.types.get id).fullName.toList) = none := by
        rw [htrim, Text.cutFirst?_eq_none_iff]
        intro hm
        cases TypeDef.setsOff_fullName (hn id) hhome '<' hm
      rw [TypeTable.displayName_of_plain hs, findTypeChars?_of_named hcut, htrim,
        findNamed?_eq_some_iff hw]
      refine ⟨home, hc, TypeTable.isNamed_of_shape hk ?_, hhome, ?_,
        TypeDef.fullName_of_home hhome, fun hm => (hname '.' hm).1 rfl⟩
      · intro _ _ hi
        cases hs.symm.trans hi
      · rw [TypeDef.arity, hs]
        rfl
  | @applied id definition arguments hc hk hs hne hargs ih =>
      obtain ⟨home, hhome, hdhome, hdname, hdc, hnamed, harity⟩ := ht.exists_home hw hk hs
      let parts := arguments.map fun a => (r.types.displayName a).toList
      have htext := TypeTable.toList_displayName hs
      obtain ⟨hname, -, htrim⟩ := (TypeDef.hasPlainName_iff hhome).mp (hn id)
      have htrimmed : Text.isTrimmed (r.types.displayName id).toList = true := by
        rw [htext]
        refine Text.isTrimmed_bracketed htrim ?_
        rw [TypeDef.fullName_of_home hhome]
        simp
      have hcut : Text.cutFirst? '<' (Text.trimChars (r.types.displayName id).toList) =
          some ((r.types.get id).fullName.toList, [','].intercalate (spaced parts) ++ ['>']) := by
        rw [Text.trimChars_eq_self htrimmed, Text.cutFirst?_eq_some_iff]
        refine ⟨htext, fun hm => ?_⟩
        cases TypeDef.setsOff_fullName (hn id) hhome '<' hm
      have hsplit : splitTypeArguments 0 ([','].intercalate (spaced parts)) = spaced parts := by
        refine splitTypeArguments_intercalate (Passes.spaced fun part hm => ?_) ?_
        · obtain ⟨a, ha, rfl⟩ := List.mem_map.mp hm
          exact (hargs a ha).passes hn ht hw 0
        · rwa [ne_eq, spaced_eq_nil_iff, List.map_eq_nil_iff]
      have hdefinition : r.findNamed? (r.types.get id).fullName.toList arguments.length =
          some definition := by
        refine (findNamed?_eq_some_iff hw).mpr ⟨home, hdc, hnamed, hdhome, harity, ?_, ?_⟩
        · rw [hdname, TypeDef.fullName_of_home hhome]
        · rw [hdname]
          exact fun hm => (hname '.' hm).1 rfl
      rw [findTypeChars?_of_instance hcut (dropClosing?_eq_some_iff.mpr rfl), hsplit, mapM_spaced,
        mapM_displayName ih]
      change (r.findNamed? _ arguments.length).bind _ = _
      rw [hdefinition]
      exact hw.findInstance?_eq_some.mpr ⟨hc, hs⟩

-- What is found is shown as it was written, but for blanks. The induction is that of the search.
theorem sameButBlanks_of_findTypeChars? (ht : r.types.NamesInstances) (hw : r.types.WellFormed)
    (hn : r.types.PlainNames) (hd : r.types.DefinitionsTakeParameters)
    (h : r.findTypeChars? cs = some id) :
    SameButBlanks cs (r.types.displayName id).toList := by
  have hnone : Text.Blank [] := fun _ hm => by cases hm
  induction cs using findTypeChars?.induct generalizing id with
  | case1 cs hc =>
      rw [findTypeChars?_of_named hc] at h
      obtain ⟨home, -, -, hhome, -, hcs, -⟩ := (findNamed?_eq_some_iff hw).mp h
      obtain ⟨before, behind, hbefore, hbehind, htext⟩ := Text.exists_trimChars cs
      have hsetsOff := TypeDef.setsOff_fullName (hn id) hhome
      have hsame := SameButBlanks.named hbefore hnone hbehind hnone hsetsOff
      rw [TypeTable.displayName_of_plain ((namedAs_of_findNamed? hw h).shape_eq_plain hd), htext,
        hcs, ← TypeDef.fullName_of_home hhome]
      simpa using hsame
  | case2 cs fullName behind hc hd =>
      rw [findTypeChars?_of_unclosed hc hd] at h
      cases h
  | case3 cs fullName behind hc inner hclosing ih =>
      rw [findTypeChars?_of_instance hc hclosing] at h
      obtain ⟨arguments, hargs, h⟩ := Option.bind_eq_some_iff.mp h
      obtain ⟨definition, hdefinition, h⟩ := Option.bind_eq_some_iff.mp h
      obtain ⟨home, -, -, hhome, -, hfull, -⟩ := (findNamed?_eq_some_iff hw).mp hdefinition
      obtain ⟨-, hs⟩ := hw.findInstance?_eq_some.mp h
      obtain ⟨-, hhome', hname⟩ := ht.name_of_instance hs
      obtain ⟨before, after, hbefore, hafter, htext⟩ := Text.exists_trimChars cs
      obtain ⟨hcut, -⟩ := Text.cutFirst?_eq_some_iff.mp hc
      have hparts : List.Forall₂ SameButBlanks (splitTypeArguments 0 inner)
          (spaced (arguments.map fun a => (r.types.displayName a).toList)) := by
        refine SameButBlanks.spaced (List.forall₂_map_right_iff.mpr ?_)
        have hfound := List.forall₂_iff_zip.mp (forall₂_of_mapM hargs)
        refine List.forall₂_iff_zip.mpr ⟨hfound.1, fun {part a} hm => ?_⟩
        exact ih ⟨part, (List.of_mem_zip hm).1⟩ (hfound.2 hm)
      have hsetsOff := TypeDef.setsOff_fullName (hn id) (hhome'.trans hhome)
      have hsame := SameButBlanks.applied hbefore hnone hafter hnone hsetsOff hparts
      have hinner := intercalate_splitTypeArguments 0 inner
      have hfullName : (r.types.get id).fullName.toList = fullName := by
        rw [hfull, TypeDef.fullName_of_home (hhome'.trans hhome), hname]
      rw [hinner, hfullName] at hsame
      rw [TypeTable.toList_displayName hs, htext, hcut, dropClosing?_eq_some_iff.mp hclosing,
        hfullName]
      simpa using hsame

-- The name that a type is shown by finds it, and nothing finds it but that name, up to blanks.
theorem findType?_displayName (h : r.Reachable) (hn : r.types.PlainNames)
    (hd : r.types.DefinitionsTakeParameters) :
    (∀ id, r.types.Nameable id → r.findType? (r.types.displayName id) = some id) ∧
    ∀ name id, r.findType? name = some id →
      SameButBlanks name.toList (r.types.displayName id).toList := by
  obtain ⟨ht, -⟩ := h.reached
  have hw := ht.wellFormed.1
  constructor
  · exact fun id hid => findTypeChars?_displayName ht.namesInstances hw hn hid
  · exact fun name id hf => sameButBlanks_of_findTypeChars? ht.namesInstances hw hn hd hf

-- A pair of a pair and a flag.
def pairSteps : List BuildStep :=
  [.defineGeneric "Demo" "Pair" .classType ["A", "B"],
    .instantiate ⟨21⟩ [.string, .numeric .int32],
    .instantiate ⟨21⟩ [⟨24⟩, .boolean]]

def pairs : Runtime :=
  .ofTable (pairSteps.foldl (fun t s => (Building.outcome (s.run Building.nestingLimit) t).2)
    .initial)

theorem reachable_pairs : pairs.Reachable := .ofTable (.foldl .initial (by decide +kernel))

theorem plainNames_pairs : pairs.types.PlainNames :=
  TypeTable.forall_get (P := fun d => d.hasPlainName = true) (by decide +kernel) rfl

theorem takeParameters_pairs : pairs.types.DefinitionsTakeParameters :=
  TypeTable.definitionsTakeParameters_of_forall (by decide +kernel)

theorem shape_pairs :
    (pairs.types.get ⟨24⟩).shape = .instanceOf ⟨21⟩ [.string, .numeric .int32] ∧
      (pairs.types.get ⟨25⟩).shape = .instanceOf ⟨21⟩ [⟨24⟩, .boolean] := by decide +kernel

theorem nameable_pairs : pairs.types.Nameable ⟨25⟩ := by
  have hplain (id : TypeId) (h : (pairs.types.contains id && !pairs.types.isGenericParameter id &&
      (pairs.types.get id).shape = .plain && (pairs.types.get id).home.isSome) = true) :
      pairs.types.Nameable id := by
    simp only [Bool.and_eq_true, Bool.not_eq_true', decide_eq_true_eq] at h
    exact .plain h.1.1.1 h.1.1.2 h.1.2 h.2
  have hinner : pairs.types.Nameable ⟨24⟩ := by
    refine .applied (by decide +kernel) (by decide +kernel) shape_pairs.1 (by decide) ?_
    exact List.forall_mem_cons.mpr ⟨hplain _ (by decide +kernel),
      List.forall_mem_singleton.mpr (hplain _ (by decide +kernel))⟩
  refine .applied (by decide +kernel) (by decide +kernel) shape_pairs.2 (by decide) ?_
  exact List.forall_mem_cons.mpr ⟨hinner,
    List.forall_mem_singleton.mpr (hplain _ (by decide +kernel))⟩

theorem displayName_pairs : pairs.types.displayName ⟨25⟩ =
    "Demo.Pair<Demo.Pair<System.String, System.Int32>, System.Boolean>" := by
  have hplain (id : TypeId) (name : String) (h : (pairs.types.get id).shape = .plain ∧
      (pairs.types.get id).fullName = name) : pairs.types.displayName id = name := by
    rw [TypeTable.displayName_of_plain h.1, h.2]
  have hstring := hplain .string "System.String" (by decide +kernel)
  have hint := hplain (.numeric .int32) "System.Int32" (by decide +kernel)
  have hboolean := hplain .boolean "System.Boolean" (by decide +kernel)
  rw [TypeTable.displayName_of_instance shape_pairs.2, List.map_cons, List.map_singleton,
    TypeTable.displayName_of_instance shape_pairs.1, List.map_cons, List.map_singleton, hstring,
    hint, hboolean]
  decide +kernel

-- The blanks behind the commas are not what a script has to write.
theorem findType?_displayName_pairs :
    pairs.types.displayName ⟨25⟩ =
        "Demo.Pair<Demo.Pair<System.String, System.Int32>, System.Boolean>" ∧
      pairs.findType? (pairs.types.displayName ⟨25⟩) = some ⟨25⟩ ∧
      pairs.findType? " Demo.Pair<Demo.Pair<System.String,System.Int32> ,System.Boolean>" =
        some ⟨25⟩ ∧
      SameButBlanks " Demo.Pair<Demo.Pair<System.String,System.Int32> ,System.Boolean>".toList
        (pairs.types.displayName ⟨25⟩).toList := by
  have hall := findType?_displayName reachable_pairs plainNames_pairs takeParameters_pairs
  have hfound :
      pairs.findType? " Demo.Pair<Demo.Pair<System.String,System.Int32> ,System.Boolean>" =
        some ⟨25⟩ := by decide +kernel
  exact ⟨displayName_pairs, hall.1 _ nameable_pairs, hfound, hall.2 _ _ hfound⟩

end Runtime

end EventScript
