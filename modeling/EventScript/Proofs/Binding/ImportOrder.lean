import EventScript.Binding.Naming
import EventScript.Proofs.Binding.Compiling
import EventScript.Proofs.Host.Extensions
import EventScript.Proofs.Host.Reached

namespace EventScript

namespace NameScope

variable {r : Runtime} {names : NameScope} {requests : List NamespaceId} {name : String}
  {arity : Nat}

-- Imports

theorem foldl_importNamespace (names : NameScope) (requests : List NamespaceId) :
    requests.foldl importNamespace names =
      { names with imports := requests.foldl Extensions.insertNew names.imports } := by
  induction requests generalizing names with
  | nil => rfl
  | cons home requests ih => rw [List.foldl_cons, ih, importNamespace, List.foldl_cons]

theorem mem_searched_iff {home : NamespaceId} :
    home ∈ names.searched r ↔ home ∈ names.imports ∨ home ∈ r.visible :=
  Extensions.mem_foldl_insertNew

-- What some of these namespaces have under a name.
def Yields (tree : NamespaceTree) (homes : List NamespaceId) (name : String) (arity : Nat)
    (entity : Entity) : Prop :=
  ∃ home ∈ homes, tree.lookup? home name arity = some entity

-- The scope of a script with these aliases that asks for these imports.
def importing (aliases : List (String × Entity)) (requests : List NamespaceId) : NameScope :=
  requests.foldl importNamespace ⟨aliases, []⟩

theorem aliases_importing (aliases : List (String × Entity)) (requests : List NamespaceId) :
    (importing aliases requests).aliases = aliases := by
  rw [importing, foldl_importNamespace]

theorem yields_importing_iff {aliases : List (String × Entity)} {entity : Entity} :
    Yields r.tree ((importing aliases requests).searched r) name arity entity ↔
      Yields r.tree (requests ++ r.visible) name arity entity := by
  refine exists_congr fun home => and_congr_left fun _ => ?_
  rw [mem_searched_iff, importing, foldl_importNamespace, List.mem_append,
    Extensions.mem_foldl_insertNew]
  simp

-- What a search comes to, by what the namespaces have: the only type, or two types that are
-- different, or a namespace if there is no type.
inductive Settles (yields : Entity → Prop) : NameResolution → Prop
  | type {id : TypeId} : yields (.type id) → (∀ other, yields (.type other) → other = id) →
      Settles yields (.found (.type id))
  | ambiguous {first second : TypeId} : yields (.type first) → yields (.type second) →
      first ≠ second → Settles yields (.ambiguous first second)
  | «namespace» {home : NamespaceId} : yields (.namespace home) → (∀ id, ¬yields (.type id)) →
      Settles yields (.found (.namespace home))
  | unknown : (∀ entity, ¬yields entity) → Settles yields .unknown

namespace Settles

variable {yields : Entity → Prop} {x : NameResolution} {id first second : TypeId}

theorem eq_type (h : Settles yields x) (hid : yields (.type id))
    (honly : ∀ other, yields (.type other) → other = id) : x = .found (.type id) := by
  cases h with
  | type hother => rw [honly _ hother]
  | ambiguous hfirst hsecond hne =>
      exact absurd ((honly _ hfirst).trans (honly _ hsecond).symm) hne
  | «namespace» _ hnone => exact absurd hid (hnone id)
  | unknown hnone => exact absurd hid (hnone _)

theorem exists_ambiguous (h : Settles yields x) (hfirst : yields (.type first))
    (hsecond : yields (.type second)) (hne : first ≠ second) :
    ∃ one other, x = .ambiguous one other := by
  cases h with
  | type _ honly => exact absurd ((honly _ hfirst).trans (honly _ hsecond).symm) hne
  | ambiguous => exact ⟨_, _, rfl⟩
  | «namespace» _ hnone => exact absurd hfirst (hnone _)
  | unknown hnone => exact absurd hfirst (hnone _)

theorem exists_namespace (h : Settles yields x) {home : NamespaceId}
    (hhome : yields (.namespace home)) (hnone : ∀ id, ¬yields (.type id)) :
    ∃ other, x = .found (.namespace other) := by
  cases h with
  | type hid => exact absurd hid (hnone _)
  | ambiguous hfirst => exact absurd hfirst (hnone _)
  | «namespace» => exact ⟨_, rfl⟩
  | unknown hnothing => exact absurd hhome (hnothing _)

theorem eq_unknown (h : Settles yields x) (hnothing : ∀ entity, ¬yields entity) :
    x = .unknown := by
  cases h with
  | type hid => exact absurd hid (hnothing _)
  | ambiguous hfirst => exact absurd hfirst (hnothing _)
  | «namespace» hhome => exact absurd hhome (hnothing _)
  | unknown => rfl

end Settles

theorem lookup?_ne_group {tree : NamespaceTree} {home : NamespaceId} {group : String}
    {members : List NamespaceId} : tree.lookup? home name arity ≠ some (.group group members) := by
  unfold NamespaceTree.lookup?
  cases tree.child? home name with
  | some child => exact fun h => by cases h
  | none => cases tree.type? home name arity <;> exact fun h => by cases h

-- The order of the search decides between namespaces, but neither what type is found nor whether
-- types are ambiguous.
theorem settles_resolveSearched (names : NameScope) (r : Runtime) (name : String) (arity : Nat) :
    Settles (Yields r.tree (names.searched r) name arity)
      (names.resolveSearched r name arity) := by
  let hits := (names.searched r).filterMap fun home => r.tree.lookup? home name arity
  let types := (hits.filterMap Entity.type?).foldl Extensions.insertNew []
  have hhits (entity : Entity) :
      entity ∈ hits ↔ Yields r.tree (names.searched r) name arity entity := List.mem_filterMap
  have htypes (id : TypeId) :
      id ∈ types ↔ Yields r.tree (names.searched r) name arity (.type id) := by
    rw [Extensions.mem_foldl_insertNew, ← hhits, List.mem_filterMap]
    constructor
    · rintro (hm | ⟨entity, hm, hid⟩)
      · cases hm
      · cases entity with
        | type => exact Option.some.inj hid ▸ hm
        | _ => cases hid
    · exact fun hm => .inr ⟨_, hm, rfl⟩
  have hnodup : types.Nodup := Extensions.nodup_foldl_insertNew List.nodup_nil _
  unfold resolveSearched
  dsimp only
  split
  · rename_i hempty
    have hnone (id : TypeId) : ¬Yields r.tree (names.searched r) name arity (.type id) := by
      rw [← htypes, show types = [] from hempty]
      exact List.not_mem_nil
    split
    · rename_i entity hhead
      have hyields := (hhits entity).mp (List.mem_of_head? hhead)
      cases entity with
      | type id => exact absurd hyields (hnone id)
      | group => obtain ⟨_, -, hl⟩ := hyields; exact absurd hl lookup?_ne_group
      | «namespace» => exact .namespace hyields hnone
    · rename_i hhead
      refine .unknown fun entity => ?_
      rw [← hhits, show hits = [] from List.head?_eq_none_iff.mp hhead]
      exact List.not_mem_nil
  · rename_i only hsingle
    have hmem (id : TypeId) : id ∈ types ↔ id = only := by
      rw [show types = [only] from hsingle, List.mem_singleton]
    exact .type ((htypes only).mp ((hmem only).mpr rfl)) fun id hid =>
      (hmem id).mp ((htypes id).mpr hid)
  · rename_i first second rest hmore
    have hmore : types = first :: second :: rest := hmore
    rw [hmore] at htypes hnodup
    refine .ambiguous ((htypes first).mp ?_) ((htypes second).mp ?_) ?_
    · exact List.mem_cons_self
    · exact List.mem_cons_of_mem _ List.mem_cons_self
    · rintro rfl
      exact (List.nodup_cons.mp hnodup).1 List.mem_cons_self

section

variable {aliases : List (String × Entity)}

theorem resolve_alias {entity : Entity} (ha : aliases.lookup name = some entity) :
    (importing aliases requests).resolve r name arity = .found entity := by
  rw [resolve, aliases_importing, ha]

theorem resolve_top {top : NamespaceId} (ha : aliases.lookup name = none)
    (htop : r.tree.child? .root name = some top) :
    (importing aliases requests).resolve r name arity = .found (.namespace top) := by
  rw [resolve, aliases_importing, ha, htop]

theorem settles_resolve (ha : aliases.lookup name = none)
    (htop : r.tree.child? .root name = none) :
    Settles (Yields r.tree (requests ++ r.visible) name arity)
      ((importing aliases requests).resolve r name arity) := by
  have hsearched : Yields r.tree ((importing aliases requests).searched r) name arity =
      Yields r.tree (requests ++ r.visible) name arity := by
    funext entity
    exact propext yields_importing_iff
  rw [resolve, aliases_importing, ha, htop, ← hsearched]
  exact settles_resolveSearched _ _ _ _

end

end NameScope

-- The compilation with one more message.
def Compilation.reporting (s : Compilation) (d : Diagnostic) : Compilation :=
  { s with diagnostics := s.diagnostics ++ [d] }

namespace Binding

open Compiling NameScope

variable {scope : BindingScope} {name : String} {span : Span} {arity : Nat} {s s' : Compilation}
  {yields : Entity → Prop}

theorem resolveName_of_found {entity : Entity}
    (h : scope.names.resolve scope.runtime name arity = .found entity) :
    resolveName scope name span arity = pure (some entity) := by
  rw [resolveName, h]

theorem resolveName_of_unknown (h : scope.names.resolve scope.runtime name arity = .unknown) :
    resolveName scope name span arity = pure none := by
  rw [resolveName, h]

-- An ambiguity is reported once, where the name stands.
theorem resolveName_of_ambiguous {first second : TypeId}
    (h : scope.names.resolve scope.runtime name arity = .ambiguous first second)
    (hs : s.flags.hasAll .probingMode = false) :
    ∃ d : Diagnostic, d.code = Code.ambiguousReference ∧ d.span = span ∧
      resolveName scope name span arity s = (none, s.reporting d) := by
  refine ⟨(BindingFault.ambiguousName name first second).toDiagnostic scope.runtime span, rfl, rfl,
    ?_⟩
  rw [resolveName, h]
  exact congrArg (fun run : Unit × Compilation => (none, run.2)) (fault_kept _ _ _ hs)

-- Two answers to a name that are alike: the same type, or ambiguities, or, if there is no type, two
-- namespaces or nothing. Nothing but an ambiguity is reported.
inductive AnsweredAlike (span : Span) (yields : Entity → Prop) (s s' : Compilation) :
    Option Entity × Compilation → Option Entity × Compilation → Prop
  | type {id : TypeId} : yields (.type id) → (∀ other, yields (.type other) → other = id) →
      AnsweredAlike span yields s s' (some (.type id), s) (some (.type id), s')
  | ambiguous {first second : TypeId} {d d' : Diagnostic} : yields (.type first) →
      yields (.type second) → first ≠ second →
      d.code = Code.ambiguousReference → d.span = span →
      d'.code = Code.ambiguousReference → d'.span = span →
      AnsweredAlike span yields s s' (none, s.reporting d) (none, s'.reporting d')
  | namespaces {home home' : NamespaceId} : (∀ id, ¬yields (.type id)) →
      AnsweredAlike span yields s s' (some (.namespace home), s) (some (.namespace home'), s')
  | nothing : (∀ id, ¬yields (.type id)) → AnsweredAlike span yields s s' (none, s) (none, s')

theorem AnsweredAlike.ambiguous_iff {answer answer' : Option Entity × Compilation}
    (h : AnsweredAlike span yields s s' answer answer') :
    (∃ d, answer = (none, s.reporting d)) ↔
      ∃ first second, first ≠ second ∧ yields (.type first) ∧ yields (.type second) := by
  have hmore (d : Diagnostic) : s ≠ s.reporting d := by
    intro he
    have hlength := congrArg (·.diagnostics.length) he
    simp [Compilation.reporting] at hlength
  cases h with
  | type _ honly =>
      constructor
      · rintro ⟨d, hd⟩
        cases (Prod.mk.inj hd).1
      · rintro ⟨first, second, hne, hfirst, hsecond⟩
        exact absurd ((honly _ hfirst).trans (honly _ hsecond).symm) hne
  | ambiguous hfirst hsecond hne => exact ⟨fun _ => ⟨_, _, hne, hfirst, hsecond⟩, fun _ => ⟨_, rfl⟩⟩
  | namespaces hnone =>
      constructor
      · rintro ⟨d, hd⟩
        cases (Prod.mk.inj hd).1
      · rintro ⟨first, _, -, hfirst, -⟩
        exact absurd hfirst (hnone _)
  | nothing hnone =>
      constructor
      · rintro ⟨d, hd⟩
        exact absurd (Prod.mk.inj hd).2 (hmore d)
      · rintro ⟨first, _, -, hfirst, -⟩
        exact absurd hfirst (hnone _)

theorem answeredAlike_of_settles (scope scope' : BindingScope)
    (h : Settles yields (scope.names.resolve scope.runtime name arity))
    (h' : Settles yields (scope'.names.resolve scope'.runtime name arity))
    (hs : s.flags.hasAll .probingMode = false) (hs' : s'.flags.hasAll .probingMode = false) :
    AnsweredAlike span yields s s' (resolveName scope name span arity s)
      (resolveName scope' name span arity s') := by
  generalize hx : scope.names.resolve scope.runtime name arity = x at h
  cases h with
  | type hid honly =>
      rw [resolveName_of_found hx, resolveName_of_found (h'.eq_type hid honly)]
      exact .type hid honly
  | ambiguous hfirst hsecond hne =>
      obtain ⟨_, _, hx'⟩ := h'.exists_ambiguous hfirst hsecond hne
      obtain ⟨d, hcode, hspan, hd⟩ := resolveName_of_ambiguous hx hs
      obtain ⟨d', hcode', hspan', hd'⟩ := resolveName_of_ambiguous hx' hs'
      rw [hd, hd']
      exact .ambiguous hfirst hsecond hne hcode hspan hcode' hspan'
  | «namespace» hhome hnone =>
      obtain ⟨_, hx'⟩ := h'.exists_namespace hhome hnone
      rw [resolveName_of_found hx, resolveName_of_found hx']
      exact .namespaces hnone
  | unknown hnothing =>
      rw [resolveName_of_unknown hx, resolveName_of_unknown (h'.eq_unknown hnothing)]
      exact .nothing fun id => hnothing _

-- The answer to a name depends on which namespaces a script imports, not on how often and in which
-- order.
theorem resolveName_importing (r r' : Runtime) {requests requests' : List NamespaceId}
    (htree : r'.tree = r.tree) (hvisible : ∀ home, home ∈ r'.visible ↔ home ∈ r.visible)
    (hrequests : ∀ home, home ∈ requests' ↔ home ∈ requests)
    (aliases : List (String × Entity)) (parameters parameters' : List (String × TypeId))
    (name : String) (span : Span) (arity : Nat) (s s' : Compilation)
    (hs : s.flags.hasAll .probingMode = false) (hs' : s'.flags.hasAll .probingMode = false) :
    let answer := resolveName ⟨r, .importing aliases requests, parameters⟩ name span arity s
    let answer' := resolveName ⟨r', .importing aliases requests', parameters'⟩ name span arity s'
    let yields := Yields r.tree (requests ++ r.visible) name arity
    (∀ entity, aliases.lookup name = some entity →
      answer = (some entity, s) ∧ answer' = (some entity, s')) ∧
    (∀ top, aliases.lookup name = none → r.tree.child? .root name = some top →
      answer = (some (.namespace top), s) ∧ answer' = (some (.namespace top), s')) ∧
    (aliases.lookup name = none → r.tree.child? .root name = none →
      AnsweredAlike span yields s s' answer answer' ∧
      ((∃ d, answer = (none, s.reporting d)) ↔
        ∃ first second, first ≠ second ∧ yields (.type first) ∧ yields (.type second))) := by
  intro answer answer' yields
  refine ⟨fun entity ha => ?_, fun top ha htop => ?_, fun ha htop => ?_⟩
  · exact ⟨congrFun (resolveName_of_found (resolve_alias ha)) s,
      congrFun (resolveName_of_found (resolve_alias ha)) s'⟩
  · exact ⟨congrFun (resolveName_of_found (resolve_top ha htop)) s,
      congrFun (resolveName_of_found (resolve_top ha (htree ▸ htop))) s'⟩
  · have hsettles' : Settles yields
        ((importing aliases requests').resolve r' name arity) := by
      have hyields : Yields r'.tree (requests' ++ r'.visible) name arity = yields := by
        funext entity
        refine propext (exists_congr fun home => ?_)
        rw [List.mem_append, List.mem_append, hvisible, hrequests, htree]
      rw [← hyields]
      exact settles_resolve ha (htree ▸ htop)
    have halike : AnsweredAlike span yields s s' answer answer' :=
      answeredAlike_of_settles ⟨r, .importing aliases requests, parameters⟩
        ⟨r', .importing aliases requests', parameters'⟩ (settles_resolve ha htop) hsettles' hs hs'
    exact ⟨halike, halike.ambiguous_iff⟩

-- Two types of one name, in the namespaces `One` and `Two`.
def items : Runtime :=
  .ofTable ([BuildStep.define "One" "Item" .classType, .define "Two" "Item" .classType].foldl
    (fun t step => (Building.outcome (step.run Building.nestingLimit) t).2) .initial)

theorem resolveName_importing_items :
    let r : Runtime := { items with visible := [⟨5⟩, ⟨1⟩] }
    let r' : Runtime := { items with visible := [⟨1⟩, ⟨5⟩] }
    let s : Compilation := ⟨.empty, .empty, []⟩
    let answer := resolveName ⟨r, .importing [] [⟨4⟩, ⟨1⟩, ⟨4⟩], []⟩ "Item" .none 0 s
    let answer' := resolveName ⟨r', .importing [] [⟨4⟩, ⟨4⟩, ⟨1⟩], []⟩ "Item" .none 0 s
    (∃ d, answer = (none, s.reporting d)) ∧
      AnsweredAlike .none (Yields items.tree [⟨4⟩, ⟨1⟩, ⟨4⟩, ⟨5⟩, ⟨1⟩] "Item" 0) s s answer
        answer' := by
  intro r r' s answer answer'
  have hvisible : r'.visible.Perm r.visible := by decide
  have hrequests : List.Perm [⟨4⟩, ⟨4⟩, ⟨1⟩] [⟨4⟩, ⟨1⟩, (⟨4⟩ : NamespaceId)] := by decide
  obtain ⟨-, -, hsearched⟩ := resolveName_importing r r' rfl (fun _ => hvisible.mem_iff)
    (fun _ => hrequests.mem_iff) [] [] [] "Item" .none 0 s s (by decide) (by decide)
  obtain ⟨halike, hambiguous⟩ := hsearched rfl (by decide +kernel)
  refine ⟨hambiguous.mpr ⟨⟨21⟩, ⟨22⟩, by decide, ?_, ?_⟩, halike⟩
  · exact ⟨⟨4⟩, by decide, by decide +kernel⟩
  · exact ⟨⟨5⟩, by decide, by decide +kernel⟩

end Binding

end EventScript
