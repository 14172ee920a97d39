import EventScript.Host.Extensions
import Mathlib.Data.List.Basic

namespace EventScript

-- Lists to which items are added that are not in them yet

namespace Extensions

variable {α β : Type} [DecidableEq α] [DecidableEq β]

theorem insertNew_of_mem {items : List α} {item : α} (h : item ∈ items) :
    insertNew items item = items :=
  if_pos h

theorem insertNew_of_not_mem {items : List α} {item : α} (h : item ∉ items) :
    insertNew items item = items ++ [item] :=
  if_neg h

theorem nodup_insertNew {items : List α} (h : items.Nodup) (item : α) :
    (insertNew items item).Nodup := by
  by_cases hm : item ∈ items
  · rwa [insertNew_of_mem hm]
  · rw [insertNew_of_not_mem hm, List.nodup_append]
    refine ⟨h, by simp, fun a ha b hb => ?_⟩
    obtain rfl := List.mem_singleton.mp hb
    exact fun he => hm (he ▸ ha)

theorem nodup_foldl_insertNew {items : List α} (h : items.Nodup) (more : List α) :
    (more.foldl insertNew items).Nodup := by
  induction more generalizing items with
  | nil => exact h
  | cons item more ih => exact ih (nodup_insertNew h item)

-- Of equal items the first is kept, unless the list has one from the start.
theorem foldl_insertNew_eq (items more : List α) :
    more.foldl insertNew items = items ++ (more.filter (· ∉ items)).eraseDups := by
  induction more generalizing items with
  | nil => simp
  | cons item more ih =>
      rw [List.foldl_cons, ih]
      by_cases hm : item ∈ items
      · rw [insertNew_of_mem hm, List.filter_cons_of_neg (by simpa using hm)]
      · have hrest : more.filter (· ∉ items ++ [item]) =
            (more.filter (· ∉ items)).filter fun b => !b == item := by
          rw [List.filter_filter]
          apply List.filter_congr
          intro b _
          simp [and_comm, Bool.beq_eq_decide_eq]
        rw [insertNew_of_not_mem hm, List.filter_cons_of_pos (by simpa using hm),
          List.eraseDups_cons, hrest, List.append_assoc, List.singleton_append]

theorem foldl_insertNew_nil (more : List α) : more.foldl insertNew [] = more.eraseDups := by
  simp [foldl_insertNew_eq]

theorem foldl_insertNew_of_subset {items more : List α} (h : ∀ item ∈ more, item ∈ items) :
    more.foldl insertNew items = items := by
  induction more with
  | nil => rfl
  | cons item more ih =>
      obtain ⟨hitem, hmore⟩ := List.forall_mem_cons.mp h
      rw [List.foldl_cons, insertNew_of_mem hitem, ih hmore]

-- What has been collected without repetition is added as if it were added one by one.
theorem foldl_insertNew_foldl (more found items : List α) :
    (more.foldl insertNew found).foldl insertNew items =
      more.foldl insertNew (found.foldl insertNew items) := by
  induction more generalizing found with
  | nil => rfl
  | cons item more ih =>
      rw [List.foldl_cons, List.foldl_cons, ih]
      by_cases hm : item ∈ found
      · rw [insertNew_of_mem hm, insertNew_of_mem (mem_foldl_insertNew.mpr (.inr hm))]
      · rw [insertNew_of_not_mem hm, List.foldl_append, List.foldl_cons, List.foldl_nil]

-- A part of the items is collected as if there were no others.
theorem map_filter_foldl_insertNew {p : α → Bool} {f : α → β}
    (hf : ∀ a b, p a → p b → f a = f b → a = b) (items more : List α) :
    ((more.foldl insertNew items).filter p).map f =
      ((more.filter p).map f).foldl insertNew ((items.filter p).map f) := by
  induction more generalizing items with
  | nil => rfl
  | cons item more ih =>
      rw [List.foldl_cons, ih]
      have hnew : item ∉ items → p item → f item ∉ (items.filter p).map f := by
        intro hm hp hmem
        obtain ⟨other, ho, he⟩ := List.mem_map.mp hmem
        obtain ⟨hother, hpother⟩ := List.mem_filter.mp ho
        exact hm (hf _ _ hpother hp he ▸ hother)
      by_cases hp : p item = true
      · rw [List.filter_cons_of_pos hp, List.map_cons, List.foldl_cons]
        by_cases hm : item ∈ items
        · have hmem : f item ∈ (items.filter p).map f :=
            List.mem_map_of_mem (List.mem_filter.mpr ⟨hm, hp⟩)
          rw [insertNew_of_mem hm, insertNew_of_mem hmem]
        · rw [insertNew_of_not_mem hm, insertNew_of_not_mem (hnew hm hp), List.filter_append,
            List.filter_cons_of_pos hp, List.map_append, List.filter_nil, List.map_singleton]
      · rw [List.filter_cons_of_neg hp]
        by_cases hm : item ∈ items
        · rw [insertNew_of_mem hm]
        · rw [insertNew_of_not_mem hm, List.filter_append, List.filter_cons_of_neg hp,
            List.filter_nil, List.append_nil]

-- Each item counts once, however often it comes in a row.
theorem foldl_insertNew_flatMap {f : α → List α} (hf : ∀ a, ∀ b ∈ f a, b = a)
    (more items : List α) :
    (more.flatMap f).foldl insertNew items =
      (more.filter fun a => !(f a).isEmpty).foldl insertNew items := by
  induction more generalizing items with
  | nil => rfl
  | cons item more ih =>
      rw [List.flatMap_cons, List.foldl_append, ih]
      cases hc : f item with
      | nil => simp [hc]
      | cons first rest =>
          obtain ⟨rfl, hrest⟩ := List.forall_mem_cons.mp (hc ▸ hf item)
          have hsame : ∀ b ∈ rest, b ∈ insertNew items first :=
            fun b hb => mem_insertNew.mpr (.inr (hrest b hb))
          rw [List.foldl_cons, foldl_insertNew_of_subset hsame,
            List.filter_cons_of_pos (by simp [hc]), List.foldl_cons]

end Extensions

-- The extension methods of a module

namespace TypeTable

-- The pair that a method of a provider makes, if it is an extension method that scripts can call.
def extensionPair? (t : TypeTable) (provider : TypeId) (id : MethodId) : Option ExtensionPair :=
  if (t.method id).isUsableExtension then
    (t.method id).parameters.head?.map fun receiver => ⟨t.openDefinition receiver, provider⟩
  else none

-- Whether a type declares an extension method on an open type that scripts can call.
def declaresExtensionOn (t : TypeTable) (provider extended : TypeId) : Bool :=
  (t.get provider).methods.any fun id => t.extensionPair? provider id = some ⟨extended, provider⟩

-- Whether every extension method of a type that scripts can call has a receiver.
def ReceiversGiven (t : TypeTable) (ids : List MethodId) : Prop :=
  ∀ id ∈ ids, (t.method id).isUsableExtension → (t.method id).parameters ≠ []

instance (t : TypeTable) (ids : List MethodId) : Decidable (t.ReceiversGiven ids) :=
  inferInstanceAs (Decidable (∀ id ∈ ids, _))

-- The pairs that the methods of some types make, with repetitions.
def extensionPairs (t : TypeTable) (types : List TypeId) : List ExtensionPair :=
  types.flatMap fun provider => (t.get provider).methods.filterMap (t.extensionPair? provider)

variable {t : TypeTable} {provider extended : TypeId}

theorem provider_of_extensionPair? {id : MethodId} {pair : ExtensionPair}
    (h : t.extensionPair? provider id = some pair) : pair.provider = provider := by
  unfold extensionPair? at h
  split at h
  · obtain ⟨receiver, -, rfl⟩ := Option.map_eq_some_iff.mp h
    rfl
  · cases h

theorem mem_extensionPairs {types : List TypeId} {pair : ExtensionPair} :
    pair ∈ t.extensionPairs types ↔
      pair.provider ∈ types ∧ t.declaresExtensionOn pair.provider pair.extended := by
  simp only [extensionPairs, declaresExtensionOn, List.mem_flatMap, List.mem_filterMap,
    List.any_eq_true, decide_eq_true_eq]
  constructor
  · rintro ⟨provider, hp, id, hid, he⟩
    obtain rfl := provider_of_extensionPair? he
    exact ⟨hp, id, hid, he⟩
  · rintro ⟨hp, id, hid, he⟩
    exact ⟨pair.provider, hp, id, hid, he⟩

end TypeTable

-- Whether a module can be loaded: it has types of the table only, and these have no extension method
-- without a receiver.
def HostModule.Admissible (t : TypeTable) (m : HostModule) : Prop :=
  ∀ provider ∈ m.types, t.contains provider ∧ t.ReceiversGiven (t.get provider).methods

instance (t : TypeTable) (m : HostModule) : Decidable (m.Admissible t) :=
  inferInstanceAs (Decidable (∀ provider ∈ m.types, _ ∧ _))

namespace Extensions

variable {t : TypeTable}

theorem scanMethods_eq_ok {provider : TypeId} {ids : List MethodId}
    (found : List ExtensionPair) (h : t.ReceiversGiven ids) :
    scanMethods t provider found ids =
      .ok ((ids.filterMap (t.extensionPair? provider)).foldl insertNew found) := by
  induction ids generalizing found with
  | nil => rfl
  | cons id rest ih =>
      obtain ⟨hid, hrest⟩ := List.forall_mem_cons.mp h
      rw [scanMethods]
      split
      · rename_i hu
        cases hp : (t.method id).parameters with
        | nil => exact absurd hp (hid hu)
        | cons receiver others =>
            have hpair : t.extensionPair? provider id =
                some ⟨t.openDefinition receiver, provider⟩ := by
              simp [TypeTable.extensionPair?, hu, hp]
            rw [List.filterMap_cons_some hpair, List.foldl_cons]
            exact ih _ hrest
      · rename_i hu
        have hpair : t.extensionPair? provider id = Option.none := if_neg hu
        rw [List.filterMap_cons_none hpair]
        exact ih _ hrest

theorem receiversGiven_of_scanMethods {provider : TypeId} {ids : List MethodId}
    {found result : List ExtensionPair} (h : scanMethods t provider found ids = .ok result) :
    t.ReceiversGiven ids := by
  induction ids generalizing found with
  | nil => exact fun _ hm => absurd hm List.not_mem_nil
  | cons id rest ih =>
      rw [scanMethods] at h
      split at h
      · cases hp : (t.method id).parameters with
        | nil =>
            rw [hp] at h
            cases h
        | cons receiver others =>
            rw [hp] at h
            exact List.forall_mem_cons.mpr ⟨fun _ => by simp [hp], ih h⟩
      · rename_i hu
        exact List.forall_mem_cons.mpr ⟨fun hu' => absurd hu' hu, ih h⟩

theorem scanTypes_eq_ok (moduleName : String) {types : List TypeId} (found : List ExtensionPair)
    (h : ∀ provider ∈ types, t.contains provider ∧ t.ReceiversGiven (t.get provider).methods) :
    scanTypes t moduleName found types =
      .ok ((t.extensionPairs types).foldl insertNew found) := by
  induction types generalizing found with
  | nil => rfl
  | cons provider rest ih =>
      obtain ⟨⟨hc, hgiven⟩, hrest⟩ := List.forall_mem_cons.mp h
      rw [scanTypes, if_pos hc, scanMethods_eq_ok found hgiven, TypeTable.extensionPairs,
        List.flatMap_cons, List.foldl_append]
      exact ih _ hrest

theorem forall_mem_of_scanTypes {moduleName : String} {types : List TypeId}
    {found result : List ExtensionPair} (h : scanTypes t moduleName found types = .ok result) :
    ∀ provider ∈ types, t.contains provider ∧ t.ReceiversGiven (t.get provider).methods := by
  induction types generalizing found with
  | nil => exact fun _ hm => absurd hm List.not_mem_nil
  | cons provider rest ih =>
      rw [scanTypes] at h
      split at h
      · rename_i hc
        cases hs : scanMethods t provider found (t.get provider).methods with
        | error e =>
            rw [hs] at h
            cases h
        | ok scanned =>
            rw [hs] at h
            exact List.forall_mem_cons.mpr ⟨⟨hc, receiversGiven_of_scanMethods hs⟩, ih h⟩
      · cases h

end Extensions

end EventScript
