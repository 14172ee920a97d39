import EventScript.Proofs.Binding.Compiling
import EventScript.Proofs.Lexical.Compiling

namespace EventScript

theorem Diagnostic.countErrors_append (ds ds' : List Diagnostic) :
    countErrors (ds ++ ds') = countErrors ds + countErrors ds' := by
  simp [countErrors]

namespace Compiling

variable {α β : Type} {before : List Diagnostic} {m : Compiling α}
  {P Q : α → List Diagnostic → Prop} {R : β → List Diagnostic → Prop}

-- Behind these messages the step always has the same answer and reports the same errors, whatever
-- else there is, as long as faults are kept.
def Says (before : List Diagnostic) (m : Compiling α) (Q : α → List Diagnostic → Prop) : Prop :=
  ∃ a ds, Q a ds ∧ (∀ d ∈ ds, d.isError) ∧
    ∀ s : Compilation, s.diagnostics = before → s.flags.hasAll .probingMode = false →
      m s = (a, { s with diagnostics := before ++ ds })

theorem eq_nil_of_countErrors {ds : List Diagnostic} (he : ∀ d ∈ ds, d.isError)
    (h : Diagnostic.countErrors (before ++ ds) = Diagnostic.countErrors before) : ds = [] := by
  have hall : Diagnostic.countErrors ds = ds.length := List.countP_eq_length.mpr he
  rw [Diagnostic.countErrors_append, hall] at h
  exact List.eq_nil_of_length_eq_zero (by omega)

namespace Says

theorem pure {a : α} (h : Q a []) : Says before (pure a) Q := by
  refine ⟨a, [], h, nofun, ?_⟩
  rintro s rfl hs
  rw [List.append_nil]
  rfl

theorem bind {f : α → Compiling β} (hm : Says before m P)
    (hf : ∀ a ds, P a ds → (∀ d ∈ ds, d.isError) →
      Says (before ++ ds) (f a) fun b ds' => R b (ds ++ ds')) :
    Says before (m >>= f) R := by
  obtain ⟨a, ds, hp, he, hrun⟩ := hm
  obtain ⟨b, ds', hr, he', hrun'⟩ := hf a ds hp he
  refine ⟨b, ds ++ ds', hr, ?_, fun s hs hflags => ?_⟩
  · exact List.forall_mem_append.mpr ⟨he, he'⟩
  · change f (m s).1 (m s).2 = _
    rw [hrun s hs hflags, ← List.append_assoc]
    exact hrun' _ rfl hflags

theorem errorCount : Says before errorCount fun count ds =>
    count = Diagnostic.countErrors before ∧ ds = [] := by
  refine ⟨_, [], ⟨rfl, rfl⟩, nofun, ?_⟩
  rintro s rfl hs
  rw [List.append_nil]
  rfl

theorem fault {r : Runtime} {f : BindingFault} {span : Span} :
    Says before (fault r f span) fun _ ds => ds = [f.toDiagnostic r span] := by
  refine ⟨(), _, rfl, ?_, ?_⟩
  · rintro d hd
    rw [List.mem_singleton.mp hd]
    rfl
  · rintro s rfl hs
    exact fault_kept r f span hs

-- A step that reports a fault and gives up.
theorem giveUp {r : Runtime} {f : BindingFault} {span : Span} {a : α}
    (h : Q a [f.toDiagnostic r span]) : Says before (do Compiling.fault r f span; return a) Q := by
  refine fault.bind fun _ ds hd _ => .pure ?_
  rwa [List.append_nil, hd]

theorem flagless (h : ∀ before, Says before m Q) : Flagless m := by
  intro s hs
  obtain ⟨a, ds, -, -, hrun⟩ := h s.diagnostics
  have hbare := hrun ⟨s.caches, .empty, s.diagnostics⟩ rfl hasAll_probingMode_empty
  rw [hrun s rfl hs, Recording.keepingFlags, Recording.unflagged, hbare]

end Says

end Compiling

namespace Binding

open Compiling

variable {scope : BindingScope} {before : List Diagnostic}

theorem says_resolveName (name : String) (span : Span) (arity : Nat) :
    Says before (resolveName scope name span arity) fun found ds => found.isSome → ds = [] := by
  unfold resolveName
  split
  · exact .pure fun _ => rfl
  · exact .pure fun _ => rfl
  · exact .giveUp nofun

theorem says_lookupName (ident : Ident) (arity : Nat) :
    Says before (lookupName scope ident arity) fun found ds => found.isSome → ds = [] := by
  unfold lookupName
  refine Says.errorCount.bind fun count _ hcount _ => ?_
  obtain ⟨rfl, rfl⟩ := hcount
  refine (says_resolveName ident.name ident.span arity).bind fun found ds hf he => ?_
  cases found with
  | some entity => exact .pure fun _ => by simpa using hf rfl
  | none =>
      refine Says.errorCount.bind fun count _ hcount _ => ?_
      obtain ⟨rfl, rfl⟩ := hcount
      split
      · rename_i heq
        refine .pure fun _ => ?_
        simpa using eq_nil_of_countErrors he (by simpa using heq)
      · exact .pure nofun

theorem says_resolvePath (path : DottedName) (arity : Nat) :
    Says before (resolvePath scope path arity) fun found ds => found.isSome → ds = [] := by
  unfold resolvePath
  split
  · exact says_resolveName _ _ _
  · refine (says_lookupName _ 0).bind fun start ds hs _ => .pure fun hfound => ?_
    cases start with
    | some entity => simpa using hs rfl
    | none => cases hfound

theorem says_existingInstance (definition : TypeId) (arguments : List TypeId) (name : TypeName) :
    Says before (existingInstance scope definition arguments name) fun found ds =>
      found.isSome ↔ ds = [] := by
  unfold existingInstance
  split
  · exact .pure (by simp)
  · exact .giveUp (by simp)

theorem says_markedNullable (type : TypeId) (name : TypeName) :
    Says before (markedNullable scope type name) fun found ds => found.isSome ↔ ds = [] := by
  unfold markedNullable
  split
  · exact says_existingInstance _ _ _
  · exact .pure (by simp)

theorem says_resolveDefinition (name : TypeName) :
    Says before (resolveDefinition scope name) fun found ds => found.isSome ↔ ds = [] := by
  unfold resolveDefinition
  refine Says.errorCount.bind fun count _ hcount _ => ?_
  obtain ⟨rfl, rfl⟩ := hcount
  refine (says_resolvePath name.path name.arguments.length).bind fun found ds hf he => ?_
  split
  · rename_i definition hd
    have hsome : found.isSome := by
      cases found with
      | some entity => rfl
      | none => cases hd
    exact .pure (by simp [hf hsome])
  · refine Says.errorCount.bind fun count _ hcount _ => ?_
    obtain ⟨rfl, rfl⟩ := hcount
    split
    · exact .giveUp (by simp)
    · rename_i hne
      refine .pure ?_
      have hds : ds ≠ [] := by
        rintro rfl
        exact hne (by simp)
      simpa using hds

mutual

-- The induction is that of the search on the type name. A name that stands for nothing is the
-- first that is reported.
theorem says_resolveType (name : TypeName) (before : List Diagnostic) :
    Says before (resolveType scope name) fun found ds => found.isSome ↔ ds = [] := by
  match name with
  | .mk path arguments nullable span =>
      rw [resolveType]
      refine (says_resolveDefinition _).bind fun found ds hd _ => ?_
      cases found with
      | none => exact .pure (by simpa using hd)
      | some definition =>
          obtain rfl : ds = [] := hd.mp rfl
          cases arguments with
          | nil => exact says_markedNullable _ _
          | cons first rest =>
              refine (says_resolveType first _).bind fun found ds hf _ => ?_
              cases found with
              | none => exact .pure (by simpa using hf)
              | some firstType =>
                  obtain rfl : ds = [] := hf.mp rfl
                  refine (says_resolveTypes rest _).bind fun found ds hr _ => ?_
                  cases found with
                  | none => exact .pure (by simpa using hr)
                  | some restTypes =>
                      obtain rfl : ds = [] := hr.mp rfl
                      refine (says_existingInstance _ _ _).bind fun found ds hi _ => ?_
                      cases found with
                      | none => exact .pure (by simpa using hi)
                      | some type =>
                          obtain rfl : ds = [] := hi.mp rfl
                          exact says_markedNullable _ _

theorem says_resolveTypes (names : List TypeName) (before : List Diagnostic) :
    Says before (resolveTypes scope names) fun found ds => found.isSome ↔ ds = [] := by
  match names with
  | [] =>
      rw [resolveTypes]
      exact .pure (by simp)
  | name :: rest =>
      rw [resolveTypes]
      refine (says_resolveType name _).bind fun found ds hf _ => ?_
      cases found with
      | none => exact .pure (by simpa using hf)
      | some type =>
          obtain rfl : ds = [] := hf.mp rfl
          exact (says_resolveTypes rest _).bind fun found ds hr _ => .pure (by simpa using hr)

end

end Binding

end EventScript
