import EventScript.Dispatch

namespace EventScript

-- The methods of one name

-- The methods that a definition declares under a name.
def TypeTable.methodsNamed (t : TypeTable) (definition : TypeId) (name : String) : List MethodId :=
  (t.get definition).methods.filter fun id => (t.method id).name = name

namespace MemberIndex

theorem lookup_add (name other : String) (m : MethodId) (groups : List (String × List MethodId)) :
    (add name m groups).lookup other =
      if other = name then some ((groups.lookup name).getD [] ++ [m]) else groups.lookup other := by
  induction groups with
  | nil => rw [add, DescriptorTables.lookup_cons_eq_ite]; rfl
  | cons entry groups ih =>
      obtain ⟨first, methods⟩ := entry
      rw [add, DescriptorTables.lookup_cons_eq_ite, DescriptorTables.lookup_cons_eq_ite]
      by_cases hf : first = name
      · subst hf
        rw [if_pos rfl, if_pos rfl, DescriptorTables.lookup_cons_eq_ite]
        by_cases ho : other = first <;> simp [ho]
      · rw [if_neg hf, if_neg (Ne.symm hf), DescriptorTables.lookup_cons_eq_ite, ih]
        by_cases ho : other = first <;> simp [ho, hf]

-- A group holds the methods of its name, and there is none for a name without methods.
theorem lookup_build (t : TypeTable) (definition : TypeId) (name : String) :
    (build t definition).groups.lookup name =
      if t.methodsNamed definition name = [] then none
      else some (t.methodsNamed definition name) := by
  have hfold (ids : List MethodId) (groups : List (String × List MethodId)) :
      (ids.foldl (fun groups id => add (t.method id).name id groups) groups).lookup name =
        if (ids.filter fun id => (t.method id).name = name) = [] then groups.lookup name
        else some ((groups.lookup name).getD [] ++
          ids.filter fun id => (t.method id).name = name) := by
    induction ids generalizing groups with
    | nil => rfl
    | cons id ids ih =>
        rw [List.foldl_cons, ih, lookup_add]
        by_cases hn : (t.method id).name = name
        · rw [List.filter_cons_of_pos (by simpa using hn)]
          by_cases hrest : (ids.filter fun id => (t.method id).name = name) = [] <;>
            simp [hn, hrest]
        · rw [List.filter_cons_of_neg (by simpa using hn), if_neg (Ne.symm hn)]
  exact hfold _ []

theorem named_build (t : TypeTable) (definition : TypeId) (name : String) :
    (build t definition).named name = t.methodsNamed definition name := by
  rw [named, lookup_build]
  split
  · rename_i hnone
    exact hnone.symm
  · rfl

theorem contains_build (t : TypeTable) (definition : TypeId) (name : String) :
    (build t definition).contains name ↔ t.methodsNamed definition name ≠ [] := by
  rw [contains, lookup_build]
  split <;> simp_all

end MemberIndex

-- Every index is the one that would be built for its definition now.
def MemberCache.Sound (t : TypeTable) (cache : MemberCache) : Prop :=
  ∀ entry ∈ cache.entries, entry.2 = MemberIndex.build t entry.1

namespace MemberSearch

variable {t : TypeTable} {α β : Type}

@[simp] theorem pure_apply (a : α) (cache : MemberCache) :
    (pure a : MemberSearch α) cache = (a, cache) := rfl

@[simp] theorem bind_apply (m : MemberSearch α) (f : α → MemberSearch β) (cache : MemberCache) :
    (m >>= f) cache = f (m cache).1 (m cache).2 := rfl

-- What the search finds when nothing has been indexed before it.
def answer (m : MemberSearch α) : α := (m .empty).1

theorem answer_bind_pure (m : MemberSearch α) (f : α → β) :
    (m >>= fun a => pure (f a)).answer = f m.answer := rfl

-- What a search finds among indices of which something is known, and goes on to be known.
def Finds (I : MemberCache → Prop) (m : MemberSearch α) (Q : α → Prop) : Prop :=
  ∀ cache, I cache → Q (m cache).1 ∧ I (m cache).2

namespace Finds

variable {I : MemberCache → Prop} {P Q : α → Prop} {R : β → Prop}

theorem imp {m : MemberSearch α} (h : Finds I m P) (hq : ∀ a, P a → Q a) : Finds I m Q :=
  fun cache hc => (h cache hc).imp_left (hq _)

theorem pure {a : α} (h : Q a) : Finds I (pure a) Q := fun _ hc => ⟨h, hc⟩

theorem bind {m : MemberSearch α} {f : α → MemberSearch β} (hm : Finds I m P)
    (hf : ∀ a, P a → Finds I (f a) R) : Finds I (m >>= f) R := by
  intro cache hc
  obtain ⟨hp, hc⟩ := hm cache hc
  exact hf _ hp _ hc

end Finds

-- Indices built before, by whatever searches, change nothing about what is found.
def Steady (t : TypeTable) (m : MemberSearch α) : Prop :=
  ∀ cache, cache.Sound t → (m cache).1 = m.answer ∧ (m cache).2.Sound t

theorem Steady.finds {m : MemberSearch α} (h : Steady t m) :
    Finds (MemberCache.Sound t) m (· = m.answer) := h

theorem sound_empty (t : TypeTable) : MemberCache.empty.Sound t := by
  simp [MemberCache.Sound, MemberCache.empty]

theorem Steady.pure (a : α) : Steady t (pure a : MemberSearch α) :=
  fun _ hc => ⟨rfl, hc⟩

theorem Steady.answer_bind {m : MemberSearch α} {f : α → MemberSearch β}
    (hm : Steady t m) (hf : Steady t (f m.answer)) : (m >>= f).answer = (f m.answer).answer :=
  (hf _ (hm _ (sound_empty t)).2).1

theorem Steady.bind {m : MemberSearch α} {f : α → MemberSearch β}
    (hm : Steady t m) (hf : Steady t (f m.answer)) : Steady t (m >>= f) := by
  intro cache hc
  obtain ⟨ha, hs⟩ := hm cache hc
  rw [bind_apply, ha, hm.answer_bind hf]
  exact hf _ hs

@[simp] theorem answer_members (type : TypeId) :
    (MemberCache.members t type).answer = MemberIndex.build t (t.openDefinition type) := rfl

theorem steady_members (type : TypeId) : Steady t (MemberCache.members t type) := by
  intro cache hc
  rw [answer_members]
  unfold MemberCache.members
  cases hl : cache.entries.lookup (t.openDefinition type) with
  | some index =>
      obtain ⟨before, behind, he, _⟩ := List.lookup_eq_some_iff.mp hl
      simp only [hl]
      exact ⟨hc (t.openDefinition type, index) (by simp [he]), hc⟩
  | none =>
      simp only [hl]
      refine ⟨trivial, fun entry he => ?_⟩
      rcases List.mem_append.mp he with he | he
      · exact hc entry he
      · rw [List.mem_singleton.mp he]

theorem steady_lookupAlong (name : String) (owners : List TypeId) :
    Steady t (MemberCache.lookupAlong t name owners) := by
  induction owners with
  | nil => exact .pure []
  | cons owner owners ih =>
      refine (steady_members owner).bind ?_
      split
      · exact .pure _
      · exact ih

theorem steady_lookup (type : TypeId) (name : String) :
    Steady t (MemberCache.lookup t type name) :=
  steady_lookupAlong name _

variable {name : String}

theorem answer_lookupAlong_cons (owner : TypeId) (owners : List TypeId) :
    (MemberCache.lookupAlong t name (owner :: owners)).answer =
      if t.methodsNamed (t.openDefinition owner) name = [] then
        (MemberCache.lookupAlong t name owners).answer
      else t.methodsNamed (t.openDefinition owner) name := by
  let index := MemberIndex.build t (t.openDefinition owner)
  have hcontains := MemberIndex.contains_build t (t.openDefinition owner) name
  have hrest : Steady t (if index.contains name then pure (index.named name)
      else MemberCache.lookupAlong t name owners) := by
    split
    · exact .pure _
    · exact steady_lookupAlong name owners
  rw [MemberCache.lookupAlong, (steady_members owner).answer_bind hrest, answer_members]
  by_cases h : t.methodsNamed (t.openDefinition owner) name = []
  · rw [if_neg fun hc => hcontains.mp hc h, if_pos h]
  · rw [if_pos (hcontains.mpr h), if_neg h, MemberIndex.named_build]
    rfl

theorem answer_lookupAlong_append {passed : List TypeId}
    (h : ∀ owner ∈ passed, t.methodsNamed (t.openDefinition owner) name = [])
    (behind : List TypeId) :
    (MemberCache.lookupAlong t name (passed ++ behind)).answer =
      (MemberCache.lookupAlong t name behind).answer := by
  induction passed with
  | nil => rfl
  | cons owner passed ih =>
      obtain ⟨howner, hpassed⟩ := List.forall_mem_cons.mp h
      rw [List.cons_append, answer_lookupAlong_cons, if_pos howner, ih hpassed]

end MemberSearch

end EventScript
