import EventScript.Proofs.Host.Inheritance
import EventScript.Proofs.Host.Reached

namespace EventScript.TypeTable

open Building Relation

variable {t : TypeTable} {found order other starts more : List TypeId}

-- The walk

-- What a walk through some interfaces comes by for the first time, one after another: each with all
-- below it before the next one. What has been found before is passed over, so a circle is left as
-- soon as it closes.
inductive DepthFirst (t : TypeTable) : (found starts order : List TypeId) → Prop
  | done {found : List TypeId} : DepthFirst t found [] []
  | passed {found starts order : List TypeId} {face : TypeId} :
      face ∈ found → DepthFirst t found starts order → DepthFirst t found (face :: starts) order
  | entered {found starts below behind : List TypeId} {face : TypeId} :
      face ∉ found → DepthFirst t (found ++ [face]) (t.get face).interfaces below →
      DepthFirst t (found ++ face :: below) starts behind →
      DepthFirst t found (face :: starts) (face :: (below ++ behind))

namespace DepthFirst

theorem unique (h : DepthFirst t found starts order) (ho : DepthFirst t found starts other) :
    order = other := by
  induction h generalizing other with
  | done =>
      cases ho
      rfl
  | passed hm _ ih =>
      cases ho with
      | passed _ ho => exact ih ho
      | entered hn _ _ => exact absurd hm hn
  | entered hn _ _ ihbelow ihbehind =>
      cases ho with
      | passed hm _ => exact absurd hm hn
      | entered _ hbelow hbehind =>
          obtain rfl := ihbelow hbelow
          rw [ihbehind hbehind]

-- A walk through two lists is one through the first and, from there on, one through the second.
theorem of_append (h : DepthFirst t found (starts ++ more) order) :
    ∃ front behind, order = front ++ behind ∧ DepthFirst t found starts front ∧
      DepthFirst t (found ++ front) more behind := by
  generalize hall : starts ++ more = all at h
  induction h generalizing starts with
  | done =>
      obtain ⟨rfl, rfl⟩ := List.append_eq_nil_iff.mp hall
      exact ⟨[], [], rfl, .done, .done⟩
  | @passed found all order face hm hrest ih =>
      cases starts with
      | nil =>
          rw [List.nil_append] at hall
          subst hall
          exact ⟨[], order, rfl, .done, by rw [List.append_nil]; exact .passed hm hrest⟩
      | cons start starts =>
          obtain ⟨rfl, rfl⟩ := List.cons.inj hall
          obtain ⟨front, behind, rfl, hfront, hbehind⟩ := ih rfl
          exact ⟨front, behind, rfl, .passed hm hfront, hbehind⟩
  | @entered found all below behind face hn hbelow hrest _ ih =>
      cases starts with
      | nil =>
          rw [List.nil_append] at hall
          subst hall
          exact ⟨[], _, rfl, .done, by rw [List.append_nil]; exact .entered hn hbelow hrest⟩
      | cons start starts =>
          obtain ⟨rfl, rfl⟩ := List.cons.inj hall
          obtain ⟨front, last, rfl, hfront, hlast⟩ := ih rfl
          refine ⟨start :: (below ++ front), last, ?_, .entered hn hbelow hfront, ?_⟩
          · rw [List.cons_append, List.append_assoc]
          · rwa [List.append_assoc, List.cons_append] at hlast

-- Nothing is come by twice, and nothing that has been found before.
theorem nodup (h : DepthFirst t found starts order) (hf : found.Nodup) :
    (found ++ order).Nodup := by
  induction h with
  | done => rwa [List.append_nil]
  | passed _ _ ih => exact ih hf
  | @entered found starts below behind face hn _ _ ihbelow ihbehind =>
      have hface : (found ++ [face]).Nodup := by
        rw [← List.concat_eq_append]
        exact hf.concat hn
      have hbelow := ihbelow hface
      rw [List.append_assoc, List.singleton_append] at hbelow
      have hbehind := ihbehind hbelow
      rwa [List.append_assoc, List.cons_append] at hbehind

end DepthFirst

-- The search

-- One turn of the search: the interface that waits in front is dropped if it has been found, and
-- otherwise taken, and those that it extends come to wait in front of all others.
inductive SearchStep (t : TypeTable) :
    (before after : List TypeId × List TypeId) → Prop
  | drop {found pending : List TypeId} {face : TypeId} :
      face ∈ found → SearchStep t (found, face :: pending) (found, pending)
  | take {found pending : List TypeId} {face : TypeId} :
      face ∉ found →
      SearchStep t (found, face :: pending) (found ++ [face], (t.get face).interfaces ++ pending)

-- No search goes on for ever, wherever it starts: with each turn there is less to come to look at.
theorem wellFounded_searchStep (t : TypeTable) : WellFounded (flip t.SearchStep) := by
  refine Subrelation.wf ?_
    (InvImage.wf (fun state => (t.unsearched state.1 state.2).length) Nat.lt_wfRel.wf)
  intro after before h
  cases h with
  | drop _ => exact Nat.lt_succ_self _
  | take hn => exact length_unsearched_lt t _ hn

theorem reflTransGen_searchStep (found pending : List TypeId) :
    ReflTransGen t.SearchStep (found, pending) (t.searchInterfaces found pending, []) := by
  induction found, pending using searchInterfaces.induct t with
  | case1 found => rw [searchInterfaces]
  | case2 found face rest hm ih =>
      rw [searchInterfaces, if_pos hm]
      exact .head (.drop hm) ih
  | case3 found face rest hn ih =>
      rw [searchInterfaces, if_neg hn]
      exact .head (.take hn) ih

-- The search is the walk: what an interface extends is put in front of what still waits, and that is
-- where the walk is cut in two.
theorem exists_depthFirst (found pending : List TypeId) :
    ∃ order, t.searchInterfaces found pending = found ++ order ∧
      DepthFirst t found pending order := by
  induction found, pending using searchInterfaces.induct t with
  | case1 found =>
      rw [searchInterfaces]
      exact ⟨[], (List.append_nil _).symm, .done⟩
  | case2 found face rest hm ih =>
      obtain ⟨order, hsearch, hwalk⟩ := ih
      rw [searchInterfaces, if_pos hm]
      exact ⟨order, hsearch, .passed hm hwalk⟩
  | case3 found face rest hn ih =>
      obtain ⟨order, hsearch, hwalk⟩ := ih
      obtain ⟨below, behind, rfl, hbelow, hbehind⟩ := hwalk.of_append
      rw [List.append_assoc, List.singleton_append] at hsearch hbehind
      rw [searchInterfaces, if_neg hn]
      exact ⟨face :: (below ++ behind), hsearch, .entered hn hbelow hbehind⟩

-- The interfaces that a type and its base types name themselves, in the order of the types.
def namedAlong (t : TypeTable) (types : List TypeId) : List TypeId :=
  types.flatMap fun current => (t.get current).interfaces

theorem depthFirst_allInterfaces (t : TypeTable) (id : TypeId) :
    DepthFirst t [] (t.namedAlong (t.selfAndBases id)) (t.allInterfaces id) := by
  obtain ⟨order, hsearch, hwalk⟩ := exists_depthFirst (t := t) [] (t.namedAlong (t.selfAndBases id))
  have horder : t.allInterfaces id = order := hsearch
  rwa [horder]

-- Where following the bases comes to an end, the search for interfaces does so too, whatever circles
-- the interfaces run in. It finds what one or more steps from interface to interface lead to from
-- the type or a base of it, each once, in the order of a walk in depth through what they name.
theorem allInterfaces_depthFirst (h : t.Acyclic) (id : TypeId) :
    ∃ chain, BaseWalk t id chain ∧
      WellFounded (flip t.SearchStep) ∧
      ReflTransGen t.SearchStep ([], t.namedAlong (id :: chain)) (t.allInterfaces id, []) ∧
      (t.allInterfaces id).Nodup ∧
      (∀ face, face ∈ t.allInterfaces id ↔
        ∃ current ∈ id :: chain, TransGen t.Names current face) ∧
      ∀ order, DepthFirst t [] (t.namedAlong (id :: chain)) order ↔ order = t.allInterfaces id := by
  have hwalk := depthFirst_allInterfaces t id
  refine ⟨t.baseChain id, h.baseWalk id, wellFounded_searchStep t, reflTransGen_searchStep _ _,
    hwalk.nodup List.nodup_nil, fun face => ?_, fun order => ⟨fun horder => horder.unique hwalk, ?_⟩⟩
  · rw [mem_allInterfaces_iff]
    exact exists_congr fun current => and_congr_left fun _ => mem_selfAndBases_iff.symm
  · rintro rfl
    exact hwalk

-- Two interfaces that extend each other, one of them a third one as well, a class that names the
-- third and the second, and a class derived from it that names the first.
def entangledSteps : List BuildStep :=
  [.define "Demo" "Shape" .interfaceType,
    .define "Demo" "Drawn" .interfaceType,
    .define "Demo" "Solid" .interfaceType,
    .addInterface ⟨21⟩ ⟨22⟩,
    .addInterface ⟨22⟩ ⟨21⟩,
    .addInterface ⟨21⟩ ⟨23⟩,
    .define "Demo" "Body" .classType,
    .addInterface ⟨24⟩ ⟨23⟩,
    .addInterface ⟨24⟩ ⟨22⟩,
    .define "Demo" "Cube" .classType,
    .setBase ⟨25⟩ ⟨24⟩,
    .addInterface ⟨25⟩ ⟨21⟩]

def entangled : TypeTable :=
  entangledSteps.foldl (fun t s => (outcome (s.run nestingLimit) t).2) .initial

-- The second interface is found below the first, before the third, which the base names first.
theorem allInterfaces_depthFirst_entangled :
    entangled.Acyclic ∧ entangled.namedAlong [⟨25⟩, ⟨24⟩] = [⟨21⟩, ⟨23⟩, ⟨22⟩] ∧
      entangled.allInterfaces ⟨25⟩ = [⟨21⟩, ⟨22⟩, ⟨23⟩] ∧
      ∃ chain, BaseWalk entangled ⟨25⟩ chain ∧
        DepthFirst entangled [] (entangled.namedAlong (⟨25⟩ :: chain)) [⟨21⟩, ⟨22⟩, ⟨23⟩] := by
  have hacyclic : entangled.Acyclic := acyclic_of_bases_older (by decide +kernel)
  have hfound : entangled.allInterfaces ⟨25⟩ = [⟨21⟩, ⟨22⟩, ⟨23⟩] := by decide +kernel
  obtain ⟨chain, hchain, -, -, -, -, horder⟩ := allInterfaces_depthFirst hacyclic ⟨25⟩
  exact ⟨hacyclic, by decide +kernel, hfound, chain, hchain, (horder _).mpr hfound.symm⟩

end EventScript.TypeTable
