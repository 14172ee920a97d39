import EventScript.Proofs.Agreement.Script

namespace EventScript

-- A host in use, with the caches that its compilations share.
structure Session where
  runtime : Runtime
  caches : Caches

namespace Session

-- What a host can be asked for while its modules stay as they are.
inductive Request where
  | compile (options : CompileOptions) (source : String)
  | resolve (source target : TypeId) (mode : ConversionMode)
  | isPossible (source target : TypeId) (level : NarrowingLevel)
  | conversion (descriptor : Descriptor) (source : TypeId)
  | members (type : TypeId)
  | lookup (type : TypeId) (name : String)
  | extensionMethods (names : NameScope) (receiver : TypeId) (name : String)
  | dispatch (request : DispatchRequest)

-- The caches that a search leaves.
def searched {α : Type} (caches : Caches) (m : MemberSearch α) : Caches :=
  { caches with members := (m caches.members).2 }

-- The caches that a request leaves.
def Request.serve (r : Runtime) (caches : Caches) : Request → Caches
  | compile options source => (EventScript.compile r options source caches).2
  | resolve source target mode => searched caches (Conversion.resolve r.types source target mode)
  | isPossible source target level =>
    searched caches (Conversion.isPossible r.types source target level)
  | conversion descriptor source => searched caches (descriptor.conversion? r.types source)
  | members type => searched caches (MemberCache.members r.types type)
  | lookup type name => searched caches (MemberCache.lookup r.types type name)
  | extensionMethods names receiver name =>
    searched caches (names.extensionMethods r receiver name)
  | dispatch request => { caches with descriptors := (request.run.run caches.descriptors).2 }

def serveAll (r : Runtime) (caches : Caches) (requests : List Request) : Caches :=
  requests.foldl (Request.serve r) caches

-- What can happen to a session: a module is loaded, or refused, or something is asked for.
inductive Event where
  | load (m : HostModule)
  | ask (request : Request)

def next (s : Session) : Event → Session
  | .load m => { s with runtime := (Runtime.load m s.runtime).2 }
  | .ask request => { s with caches := request.serve s.runtime s.caches }

def start (r : Runtime) : Session := ⟨r, .empty⟩

def after (s : Session) (events : List Event) : Session := events.foldl next s

-- What the caches are good for

section

variable {r r' : Runtime} {caches caches' : Caches}

theorem keeps_dispatch (request : DispatchRequest) :
    caches.descriptors.Keeps (Request.serve r caches (.dispatch request)).descriptors := by
  change caches.descriptors.Keeps (request.run.run caches.descriptors).2
  rw [request.run_eq_get, DescriptorCache.get_apply]
  exact DescriptorCache.keeps_settled _ _ _

theorem sound_serve (hs : caches.members.Sound r.types) (request : Request) :
    (request.serve r caches).members.Sound r.types := by
  have hsearched {α : Type} {m : MemberSearch α} (hm : MemberSearch.Steady r.types m) :
      (searched caches m).members.Sound r.types := (hm _ hs).2
  cases request with
  | compile options source => exact sound_compile hs options source
  | resolve => exact hsearched (Conversion.steady_resolve _ _ _)
  | isPossible => exact hsearched (Conversion.steady_isPossible _ _ _)
  | conversion => exact hsearched (Descriptor.steady_conversion? _ _)
  | members => exact hsearched (MemberSearch.steady_members _)
  | lookup => exact hsearched (MemberSearch.steady_lookup _ _)
  | extensionMethods => exact hsearched (NameScope.steady_extensionMethods _ _ _)
  | dispatch => exact hs

theorem keeps_serve (hs : caches.members.Sound r.types) (request : Request) :
    caches.descriptors.Keeps (request.serve r caches).descriptors := by
  cases request with
  | compile options source => exact keeps_compile hs options source
  | dispatch request => exact keeps_dispatch request
  | _ => exact .refl _

-- By induction on the requests: indices stay right, and descriptors stay known.
theorem keeps_serveAll (hs : caches.members.Sound r.types) (requests : List Request) :
    (serveAll r caches requests).members.Sound r.types ∧
      caches.descriptors.Keeps (serveAll r caches requests).descriptors := by
  induction requests generalizing caches with
  | nil => exact ⟨hs, .refl _⟩
  | cons request requests ih =>
      obtain ⟨hsound, hkeeps⟩ := ih (sound_serve hs request)
      exact ⟨hsound, (keeps_serve hs request).trans hkeeps⟩

end

-- Every index of a session is right for the types of its host.
def Sound (s : Session) : Prop := s.caches.members.Sound s.runtime.types

theorem sound_start (r : Runtime) : (start r).Sound := MemberSearch.sound_empty r.types

variable {s : Session}

theorem Sound.next (hs : s.Sound) (event : Event) : (s.next event).Sound := by
  cases event with
  | load m =>
      change s.caches.members.Sound (Runtime.load m s.runtime).2.types
      rw [(Runtime.types_tree_load s.runtime m).1]
      exact hs
  | ask request => exact sound_serve hs request

theorem Sound.after (hs : s.Sound) (events : List Event) : (s.after events).Sound := by
  induction events generalizing s with
  | nil => exact hs
  | cons event events ih => exact ih (hs.next event)

-- Caches never change an answer. Whatever has happened in a session, a compilation comes out as it
-- would with empty caches, but for the numbers of its descriptors; and once it has been done, it is
-- done again with the same descriptors and without new ones, whatever has been asked for since.
theorem compile_after (r : Runtime) (earlier : List Event) (later : List Request)
    (options : CompileOptions) (source : String) :
    let s := (start r).after earlier
    let first := compile s.runtime options source s.caches
    let caches := serveAll s.runtime first.2 later
    let second := compile s.runtime options source caches
    first.1.unnumbered = (compile s.runtime options source .empty).1.unnumbered ∧
      second.1 = first.1 ∧ second.2.descriptors = caches.descriptors := by
  intro s first caches second
  have hs : s.Sound := (sound_start r).after earlier
  have hempty : Caches.empty.members.Sound s.runtime.types := MemberSearch.sound_empty _
  have hfresh := unnumbered_compile hs options source (.refl s.runtime) hempty
  obtain ⟨hsound, hkeeps⟩ := keeps_serveAll (sound_compile hs options source) later
  obtain ⟨hsame, hdescriptors⟩ := compile_replay hs options source hsound hkeeps
  exact ⟨hfresh, hsame, hdescriptors⟩

-- Sessions on hosts that agree

end Session

namespace TypeTable

-- The extension methods of a type that scripts can call.
def usableExtensions (t : TypeTable) (provider : TypeId) : List MethodId :=
  (t.get provider).methods.filter fun id => (t.method id).isUsableExtension

theorem receiversGiven_iff (t : TypeTable) (provider : TypeId) :
    t.ReceiversGiven (t.get provider).methods ↔
      ∀ id ∈ t.usableExtensions provider, (t.method id).parameters ≠ [] := by
  simp only [ReceiversGiven, usableExtensions, List.mem_filter, and_imp]

theorem filterMap_extensionPair? (t : TypeTable) (provider : TypeId) :
    (t.get provider).methods.filterMap (t.extensionPair? provider) =
      (t.usableExtensions provider).filterMap (t.extensionPair? provider) := by
  rw [usableExtensions, List.filterMap_filter]
  refine List.filterMap_congr fun id _ => ?_
  unfold extensionPair?
  split <;> rfl

namespace Agrees

variable {t t' : TypeTable} (h : t.Agrees t')
include h

theorem shared_usableExtensions (provider : TypeId) :
    t.Shared (t.usableExtensions provider) (t'.usableExtensions provider) := by
  refine h.shared_filter (h.methods_eq provider) fun m hm => ?_
  exact (Bool.and_eq_true_iff.mp (Bool.and_eq_true_iff.mp hm).1).1

theorem receiversGiven_iff (provider : TypeId) :
    t'.ReceiversGiven (t'.get provider).methods ↔ t.ReceiversGiven (t.get provider).methods := by
  have hids := h.shared_usableExtensions provider
  rw [TypeTable.receiversGiven_iff, TypeTable.receiversGiven_iff, hids.1]
  refine forall₂_congr fun id hm => ?_
  rw [h.method_eq_of_shared hids id hm]

theorem extensionPairs_eq (types : List TypeId) :
    t'.extensionPairs types = t.extensionPairs types := by
  unfold extensionPairs
  congr 1
  funext provider
  have hids := h.shared_usableExtensions provider
  rw [filterMap_extensionPair?, filterMap_extensionPair?, hids.1]
  refine List.filterMap_congr fun id hm => ?_
  simp only [extensionPair?, h.method_eq_of_shared hids id hm, h.openDefinition_eq]

end Agrees

end TypeTable

namespace Runtime.Agrees

variable {r r' : Runtime} (h : r.Agrees r')
include h

theorem admissible_iff (m : HostModule) : m.Admissible r'.types ↔ m.Admissible r.types := by
  simp only [HostModule.Admissible, h.types.contains_eq, h.types.receiversGiven_iff]

theorem including (m : HostModule) : (r.including m).Agrees (r'.including m) where
  types := h.types
  tree_eq := h.tree_eq
  extensions_eq := by
    simp only [Runtime.including, Extensions.addPairs, h.extensions_eq, h.types.extensionPairs_eq,
      h.types.isInterface_eq]
  visible_eq := by
    simp only [Runtime.including, h.tree_eq, h.visible_eq]
  aliasGroups_eq := by
    simp only [Runtime.including, h.tree_eq, h.aliasGroups_eq]
  loaded_eq := by
    simp only [Runtime.including, h.loaded_eq]

theorem load (m : HostModule) : (Runtime.load m r).2.Agrees (Runtime.load m r').2 := by
  have hloaded : r'.isLoaded m.name = r.isLoaded m.name := by
    rw [isLoaded, isLoaded, h.loaded_eq]
  obtain ⟨hn, hl⟩ | ⟨hn, ha, hl⟩ | ⟨hn, ha, e, hl⟩ := load_cases r m
  · rw [hl, load_of_isLoaded (hloaded.trans hn)]
    exact h
  · rw [hl, load_of_admissible (hloaded.trans hn) ((h.admissible_iff m).mpr ha)]
    exact h.including m
  · obtain ⟨e', hl'⟩ := load_of_not_admissible (hloaded.trans hn) (mt (h.admissible_iff m).mp ha)
    rw [hl, hl']
    exact h

end Runtime.Agrees

theorem Runtime.Agrees.loadAll {r r' : Runtime} (h : r.Agrees r') (modules : List HostModule) :
    (Runtime.loadAll modules r).2.Agrees (Runtime.loadAll modules r').2 := by
  induction modules generalizing r r' with
  | nil => exact h
  | cons m rest ih =>
      rw [Runtime.loadAll_cons, Runtime.loadAll_cons]
      exact ih (h.load m)

namespace Session

def Event.module? : Event → Option HostModule
  | load m => some m
  | ask _ => none

-- The modules that were to be loaded.
def loads (events : List Event) : List HostModule := events.filterMap Event.module?

theorem runtime_after (s : Session) (events : List Event) :
    (s.after events).runtime = (Runtime.loadAll (loads events) s.runtime).2 := by
  induction events generalizing s with
  | nil => rfl
  | cons event events ih =>
      cases event with
      | load m =>
          have hloads : loads (.load m :: events) = m :: loads events := rfl
          rw [hloads, Runtime.loadAll_cons]
          exact ih (s.next (.load m))
      | ask request => exact ih (s.next (.ask request))

-- Two sessions that have come to the same descriptors on hosts that agree.
structure InStep (s s' : Session) : Prop where
  agrees : s.runtime.Agrees s'.runtime
  sound : s.Sound
  sound' : s'.Sound
  descriptors_eq : s'.caches.descriptors = s.caches.descriptors

variable {s s' : Session}

theorem InStep.start {r r' : Runtime} (h : r.Agrees r') : InStep (start r) (start r') :=
  ⟨h, sound_start r, sound_start r', rfl⟩

theorem InStep.compile_eq (h : s.InStep s') (options : CompileOptions) (source : String) :
    (compile s'.runtime options source s'.caches).1 =
      (compile s.runtime options source s.caches).1 :=
  (compile_lockstep h.sound options source h.agrees h.sound' h.descriptors_eq).1

theorem InStep.descriptors_serve_eq (h : s.InStep s') (request : Request) :
    (request.serve s'.runtime s'.caches).descriptors =
      (request.serve s.runtime s.caches).descriptors := by
  cases request with
  | compile options source =>
      exact (compile_lockstep h.sound options source h.agrees h.sound' h.descriptors_eq).2
  | dispatch request => exact congrArg (fun cache => (request.run.run cache).2) h.descriptors_eq
  | _ => exact h.descriptors_eq

theorem InStep.next (h : s.InStep s') (event : Event) : (s.next event).InStep (s'.next event) where
  agrees := by
    cases event with
    | load m => exact h.agrees.load m
    | ask request => exact h.agrees
  sound := h.sound.next event
  sound' := h.sound'.next event
  descriptors_eq := by
    cases event with
    | load m => exact h.descriptors_eq
    | ask request => exact h.descriptors_serve_eq request

theorem InStep.after (h : s.InStep s') (events : List Event) :
    (s.after events).InStep (s'.after events) := by
  induction events generalizing s s' with
  | nil => exact h
  | cons event events ih => exact ih (h.next event)

end Session

end EventScript
