import EventScript.ExtensionListing
import EventScript.Proofs.ExtensionSearch
import EventScript.Proofs.MethodOwners

namespace EventScript

-- All extension methods are static.
theorem MethodDef.isUsableExtension_eq (m : MethodDef) :
    m.isUsableExtension = (m.isPublic && m.isExtension) := by
  have hstatic := m.isStatic_of_isExtension
  unfold isUsableExtension
  revert hstatic
  cases m.isExtension <;> cases m.isStatic <;> simp

namespace NameScope

variable {r : Runtime} {scope : NameScope} {receiver provider : TypeId} {id : MethodId}

-- Whether a provider is one of those that a listing looks through: the script sees it, and it is
-- registered for a type on the way from the receiver itself to its ancestors. The search starts at
-- the definition of the receiver instead.
def Shows (scope : NameScope) (r : Runtime) (receiver provider : TypeId) : Prop :=
  scope.isTypeVisible r provider ∧
    ∃ extended ∈ r.extensions.searched r.types receiver, ⟨extended, provider⟩ ∈ r.extensions.pairs

-- A script can call what a listing shows if it is public.
theorem extends?_eq_isListed : extends? r receiver id =
    ((r.types.method id).isPublic && r.isListed receiver id) := by
  unfold extends? Runtime.isListed
  dsimp only
  rw [MethodDef.isUsableExtension_eq]
  cases (r.types.method id).parameters with
  | nil => simp
  | cons first rest => exact Bool.and_assoc _ _ _

theorem extends_iff :
    Extends r receiver (r.types.method id).name id ↔
      (r.types.method id).isPublic ∧ r.isListed receiver id := by
  rw [Extends, extends?_eq_isListed, Bool.and_eq_true]
  exact and_iff_right rfl

end NameScope

namespace Runtime

open NameScope

variable {r : Runtime} {receiver provider : TypeId} {imports : List String} {id : MethodId}

theorem mem_listedExtensions :
    id ∈ r.listedExtensions receiver imports ↔
      r.isListed receiver id ∧ ∃ provider,
        (NameScope.ofImports r imports).Shows r receiver provider ∧
          id ∈ (r.types.get provider).methods := by
  simp only [listedExtensions, List.mem_filter, List.mem_flatMap, Extensions.mem_providers, Shows]
  constructor
  · rintro ⟨⟨provider, ⟨hp, hv⟩, hid⟩, hl⟩
    exact ⟨hl, provider, ⟨hv, hp⟩, hid⟩
  · rintro ⟨hl, provider, ⟨hv, hp⟩, hid⟩
    exact ⟨⟨provider, ⟨hp, hv⟩, hid⟩, hl⟩

section

variable (h : r.types.OwnsMethods)
include h

-- No method is declared by two providers, and no provider is visited twice.
theorem nodup_listedExtensions (receiver : TypeId) (imports : List String) :
    (r.listedExtensions receiver imports).Nodup := by
  refine List.Nodup.filter _ (List.nodup_flatMap.mpr ⟨fun provider _ => h.nodup provider, ?_⟩)
  have hproviders : (r.extensions.providers r.types receiver).Nodup :=
    Extensions.nodup_foldl_insertNew List.nodup_nil _
  refine (hproviders.filter _).imp fun hne id hid hid' => hne ?_
  rw [← h.declaring_eq hid, h.declaring_eq hid']

theorem mem_listedExtensions_iff_shows (hid : id ∈ (r.types.get provider).methods) :
    id ∈ r.listedExtensions receiver imports ↔
      r.isListed receiver id ∧ (NameScope.ofImports r imports).Shows r receiver provider := by
  rw [mem_listedExtensions]
  refine and_congr_right fun _ => ⟨?_, fun hs => ⟨provider, hs, hid⟩⟩
  rintro ⟨other, hs, hother⟩
  rwa [← h.declaring_eq hid, h.declaring_eq hother]

end

-- A method is found under its own name if it is public, listed, and declared by what a provider of
-- the search is an instance of.
theorem mem_extensionMethods_own {caches : Caches} (hc : caches.members.Sound r.types)
    (scope : NameScope) (receiver : TypeId) (id : MethodId) :
    id ∈ (scope.extensionMethods r receiver (r.types.method id).name caches.members).1 ↔
      ((r.types.method id).isPublic ∧ r.isListed receiver id) ∧ ∃ provider,
        scope.Searches r receiver provider ∧
          id ∈ (r.types.get (r.types.openDefinition provider)).methods := by
  have hsearch := (steady_extensionMethods scope receiver (r.types.method id).name
    caches.members hc).1
  rw [← extends_iff, ← mem_answer_extensionMethods, ← hsearch]

-- The listing for a receiver beside the search: a listed method is found if it is public and a
-- provider with its declaring type as definition is registered on the way of the receiver's
-- definition, and a found one is listed if its declaring type is registered on the way of the
-- receiver. So where no provider is an instance and the receiver goes the way of its definition,
-- what is found are the public methods of the listing.
theorem listedExtensions_exact {caches : Caches} (hr : r.Reachable)
    (hc : caches.Reachable r.types) (receiver : TypeId) (imports : List String) :
    let scope := NameScope.ofImports r imports
    let listed := r.listedExtensions receiver imports
    let found := fun id : MethodId =>
      (scope.extensionMethods r receiver (r.types.method id).name caches.members).1
    listed.Nodup ∧
      (∀ id ∈ listed, id ∈ found id ↔ (r.types.method id).isPublic ∧ ∃ provider,
        r.types.openDefinition provider = (r.types.method id).declaring ∧
          scope.Searches r receiver provider) ∧
      (∀ id, id ∈ found id →
        (id ∈ listed ↔ scope.Shows r receiver (r.types.method id).declaring)) ∧
      ((∀ pair ∈ r.extensions.pairs,
          r.types.openDefinition pair.provider = pair.provider) →
        (∀ type, type ∈ r.extensions.searched r.types receiver ↔
          type ∈ r.extensions.searched r.types (r.types.openDefinition receiver)) →
        ∀ id, id ∈ found id ↔ id ∈ listed ∧ (r.types.method id).isPublic) := by
  intro scope listed found
  have hown : r.types.OwnsMethods := hr.reached.1.ownsMethods
  have hfound (id : MethodId) := mem_extensionMethods_own hc.sound scope receiver id
  refine ⟨nodup_listedExtensions hown receiver imports, fun id hid => ?_, fun id hid => ?_, ?_⟩
  · obtain ⟨hlisted, provider, -, hdeclared⟩ := mem_listedExtensions.mp hid
    rw [hfound, hown.declaring_eq hdeclared]
    constructor
    · rintro ⟨⟨hp, -⟩, other, hs, hother⟩
      exact ⟨hp, other, (hown.declaring_eq hother).symm.trans (hown.declaring_eq hdeclared), hs⟩
    · rintro ⟨hp, other, rfl, hs⟩
      exact ⟨⟨hp, hlisted⟩, other, hs, hdeclared⟩
  · obtain ⟨⟨-, hlisted⟩, provider, -, hdeclared⟩ := (hfound id).mp hid
    rw [mem_listedExtensions_iff_shows hown hdeclared, hown.declaring_eq hdeclared]
    exact and_iff_right hlisted
  · intro hdefinitions hway id
    have hsame (provider : TypeId) :
        scope.Shows r receiver provider ↔ scope.Searches r receiver provider := by
      simp only [Shows, Searches, hway]
    rw [hfound, mem_listedExtensions]
    constructor
    · rintro ⟨⟨hp, hlisted⟩, provider, hs, hdeclared⟩
      obtain ⟨extended, -, hpair⟩ := hs.2
      rw [hdefinitions _ hpair] at hdeclared
      exact ⟨⟨hlisted, provider, (hsame provider).mpr hs, hdeclared⟩, hp⟩
    · rintro ⟨⟨hlisted, provider, hs, hdeclared⟩, hp⟩
      obtain ⟨extended, -, hpair⟩ := hs.2
      refine ⟨⟨hp, hlisted⟩, provider, (hsame provider).mp hs, ?_⟩
      rwa [hdefinitions _ hpair]

-- Tools with one extension method for all and one that is not public, and a call for this one.
open Building in
def declareTools : Building (HostModule × ExtensionCall) := do
  let tools ← define "Demo" "Tools" .classType
  let _ ← addExtension tools "Tag" tools
  let secret : MethodSpec :=
    { name := "Secret", parameters := [tools], returns := .void, isPublic := false }
  let id ← addMethod tools secret.asExtension
  return ({ name := "Demo", types := [tools], visible := ["Demo"] }, ⟨tools, tools, id⟩)

def tools : Runtime × ExtensionCall :=
  match Building.outcome declareTools .initial with
  | (.ok (m, call), t) => ((Runtime.load m (.ofTable t)).2, call)
  | (.error _, _) => (.ofTable .initial, ⟨.object, .object, ⟨0⟩⟩)

open Building in
theorem reachable_tools : tools.1.Reachable := by
  have hbuild : Reaches declareTools := by
    unfold declareTools
    refine (Reaches.define _ _ _).bind fun owner => ?_
    refine (Reaches.addMethod _ _).bind fun tag => ?_
    exact (Reaches.addMethod _ _).bind fun secret => .pure _
  unfold tools
  split
  · rename_i m call t hrun
    exact Runtime.Reachable.load (.ofTable (hbuild .initial .initial _ t hrun)) m
  · exact .ofTable .initial

-- Whether a listing without imports shows a method that the search does not find.
def isListedOnly (r : Runtime) (call : ExtensionCall) : Bool :=
  let scope := NameScope.ofImports r []
  let name := (r.types.method call.method).name
  (r.listedExtensions call.receiver []).contains call.method &&
    !(scope.extensionMethods r call.receiver name .empty).1.contains call.method

-- A listing shows what is not public, and what an instance declares or only the ancestors of an
-- instance lead to.
theorem isListedOnly_secret :
    tools.1.Reachable ∧ (tools.1.types.method tools.2.method).isPublic = false ∧
      isListedOnly tools.1 tools.2 ∧
      strays.1.Reachable ∧ (strays.2.filter (isListedOnly strays.1)).length = 2 :=
  ⟨reachable_tools, by decide +kernel, by decide +kernel, reachable_strays, by decide +kernel⟩

theorem listedExtensions_exact_tools :
    let scope := NameScope.ofImports tools.1 []
    let receiver := tools.2.receiver
    let listed := tools.1.listedExtensions receiver []
    let found := fun id : MethodId =>
      (scope.extensionMethods tools.1 receiver (tools.1.types.method id).name .empty).1
    listed.length = 2 ∧ listed.Nodup ∧
      ∀ id, id ∈ found id ↔ id ∈ listed ∧ (tools.1.types.method id).isPublic := by
  intro scope receiver listed found
  obtain ⟨hnodup, -, -, hpublic⟩ :=
    listedExtensions_exact reachable_tools (.empty tools.1.types) receiver []
  have hdefinition : tools.1.types.openDefinition receiver = receiver := by decide +kernel
  refine ⟨by decide +kernel, hnodup, hpublic (by decide +kernel) ?_⟩
  rw [hdefinition]
  exact fun _ => Iff.rfl

end Runtime

end EventScript
