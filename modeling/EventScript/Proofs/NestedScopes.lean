import EventScript.Proofs.ScopeFlags
import Mathlib.Tactic.Common

namespace EventScript

-- A scope of flags, by the way in which it is entered.
inductive FlagScope where
  | replacing (mask value : ScopeFlags)
  | on (mask : ScopeFlags)
  | switched (mask : ScopeFlags) (isOn : Bool)
deriving DecidableEq, Repr

namespace FlagScope

def mask : FlagScope → ScopeFlags
  | replacing mask _ | on mask | switched mask _ => mask

-- What the scope asks for under its mask.
def value : FlagScope → ScopeFlags
  | replacing _ value => value
  | on mask => mask
  | switched mask isOn => if isOn then mask else .empty

def enter : FlagScope → ScopeFlags → ScopeFlags × FlagsGuard
  | replacing mask value, flags => flags.enter mask value
  | on mask, flags => flags.enterOn mask
  | switched mask isOn, flags => flags.enterWith mask isOn

theorem enter_eq (scope : FlagScope) (flags : ScopeFlags) :
    scope.enter flags = flags.enter scope.mask scope.value := by
  cases scope <;> rfl

end FlagScope

-- Runs

-- What happens to the flags: a scope is entered, or the one entered last is left.
inductive ScopeStep where
  | enter (scope : FlagScope)
  | leave
deriving DecidableEq, Repr

-- A moment of a run: the flags, and the open scopes with what they put back, the innermost first.
structure ScopeRun where
  flags : ScopeFlags
  opened : List (FlagScope × FlagsGuard)
deriving DecidableEq, Repr

namespace ScopeRun

def start (initial : ScopeFlags) : ScopeRun := ⟨initial, []⟩

def step? (s : ScopeRun) : ScopeStep → Option ScopeRun
  | .enter scope =>
    let (flags, guard) := scope.enter s.flags
    some ⟨flags, (scope, guard) :: s.opened⟩
  | .leave =>
    match s.opened with
    | [] => none
    | (_, guard) :: below => some ⟨s.flags.leave guard, below⟩

-- The moment after some steps, if they are properly nested.
def run? (s : ScopeRun) (steps : List ScopeStep) : Option ScopeRun := steps.foldlM step? s

def scopes (s : ScopeRun) : List FlagScope := s.opened.map (·.1)

variable {s s' : ScopeRun} {initial : ScopeFlags} {scope : FlagScope} {guard : FlagsGuard}
  {opened : List (FlagScope × FlagsGuard)} {scopes : List FlagScope} {steps : List ScopeStep}

theorem run?_append (s : ScopeRun) (steps more : List ScopeStep) :
    s.run? (steps ++ more) = (s.run? steps).bind (·.run? more) :=
  List.foldlM_append

theorem run?_enter (s : ScopeRun) (scope : FlagScope) (steps : List ScopeStep) :
    s.run? (.enter scope :: steps) =
      run? ⟨(scope.enter s.flags).1, (scope, (scope.enter s.flags).2) :: s.opened⟩ steps := rfl

theorem run?_leave (flags : ScopeFlags) :
    run? ⟨flags, (scope, guard) :: opened⟩ [.leave] = some ⟨flags.leave guard, opened⟩ := rfl

-- What a step can do.
theorem step?_cases {step : ScopeStep} (h : s.step? step = some s') :
    (∃ scope, step = .enter scope ∧ s' = ⟨(scope.enter s.flags).1,
        (scope, (scope.enter s.flags).2) :: s.opened⟩) ∨
      ∃ scope guard below, step = .leave ∧ s.opened = (scope, guard) :: below ∧
        s' = ⟨s.flags.leave guard, below⟩ := by
  cases step with
  | enter scope => exact .inl ⟨scope, rfl, (Option.some.inj h).symm⟩
  | leave =>
      cases hopened : s.opened with
      | nil =>
          rw [step?, hopened] at h
          cases h
      | cons innermost below =>
          rw [step?, hopened] at h
          exact .inr ⟨innermost.1, innermost.2, below, rfl, rfl, (Option.some.inj h).symm⟩

-- The bit that scopes around a place ask for: that of the innermost one with the bit under its
-- mask, and the initial one if there is none.
def bitWithin (initial : ScopeFlags) (scopes : List FlagScope) (i : Nat) : Bool :=
  match scopes.find? (·.mask.bits.getLsbD i) with
  | some scope => scope.value.bits.getLsbD i
  | none => initial.bits.getLsbD i

theorem bitWithin_cons (i : Nat) : bitWithin initial (scope :: scopes) i =
    if scope.mask.bits.getLsbD i then scope.value.bits.getLsbD i
    else bitWithin initial scopes i := by
  unfold bitWithin
  rw [List.find?_cons]
  cases scope.mask.bits.getLsbD i <;> rfl

-- The flags that have a name are as these scopes ask for.
def Shows (initial : ScopeFlags) (scopes : List FlagScope) (flags : ScopeFlags) : Prop :=
  ∀ i, ScopeFlags.declared.bits.getLsbD i = true →
    flags.bits.getLsbD i = bitWithin initial scopes i

theorem Shows.enter {flags : ScopeFlags} (h : Shows initial scopes flags) (scope : FlagScope) :
    Shows initial (scope :: scopes) (scope.enter flags).1 := by
  intro i hd
  rw [FlagScope.enter_eq, ScopeFlags.getLsbD_enter hd, bitWithin_cons, h i hd]

-- The bits outside of the mask are those of the scopes below, since the scope has not asked for
-- them; those under it have been saved when these scopes were the only ones.
theorem Shows.leave {flags before : ScopeFlags} (h : Shows initial (scope :: scopes) flags)
    (hbefore : Shows initial scopes before) :
    Shows initial scopes (flags.leave (scope.enter before).2) := by
  intro i hd
  rw [FlagScope.enter_eq, ScopeFlags.getLsbD_leave hd, hbefore i hd, h i hd, bitWithin_cons]
  cases scope.mask.bits.getLsbD i <;> rfl

-- Each open scope puts back what it has found, and it has found what the scopes around it ask for.
def Keeps (initial : ScopeFlags) : List (FlagScope × FlagsGuard) → Prop
  | [] => True
  | (scope, guard) :: below =>
    (∃ before, guard = (scope.enter before).2 ∧ Shows initial (below.map (·.1)) before) ∧
      Keeps initial below

structure Sound (initial : ScopeFlags) (s : ScopeRun) : Prop where
  shows : Shows initial s.scopes s.flags
  keeps : Keeps initial s.opened

theorem sound_start (initial : ScopeFlags) : Sound initial (start initial) :=
  ⟨fun _ _ => rfl, trivial⟩

theorem Sound.step (h : Sound initial s) {step : ScopeStep} (hs : s.step? step = some s') :
    Sound initial s' := by
  obtain ⟨scope, rfl, rfl⟩ | ⟨scope, guard, below, rfl, hopened, rfl⟩ := step?_cases hs
  · exact ⟨h.shows.enter scope, ⟨s.flags, rfl, h.shows⟩, h.keeps⟩
  · obtain ⟨hshows, hkeeps⟩ := h
    rw [ScopeRun.scopes, hopened, List.map_cons] at hshows
    rw [hopened] at hkeeps
    obtain ⟨⟨before, rfl, hbefore⟩, hbelow⟩ := hkeeps
    exact ⟨hshows.leave hbefore, hbelow⟩

theorem Sound.run (h : Sound initial s) (hr : s.run? steps = some s') : Sound initial s' := by
  induction steps generalizing s with
  | nil => exact Option.some.inj hr ▸ h
  | cons step steps ih =>
      obtain ⟨next, hstep, hrest⟩ := Option.bind_eq_some_iff.mp hr
      exact ih (h.step hstep) hrest

end ScopeRun

-- Code with scopes

-- How a piece of code is left.
inductive ScopeExit where
  | finished
  | returned
  | failed
  | panicked
deriving DecidableEq, Repr

-- Code as far as it has to do with flags. What follows a part runs only if the part is finished.
inductive ScopedCode where
  | exit (how : ScopeExit)
  | sequence (first rest : ScopedCode)
  | within (scope : FlagScope) (body : ScopedCode)
  -- A place that an early return, an error or a panic reaches, and no further.
  | handled (body : ScopedCode)
deriving DecidableEq, Repr

namespace ScopedCode

-- The steps that code takes and how it is left. However that is, its scopes are left before.
def run : ScopedCode → List ScopeStep × ScopeExit
  | exit how => ([], how)
  | sequence first rest =>
    if first.run.2 = .finished then (first.run.1 ++ rest.run.1, rest.run.2) else first.run
  | within scope body => (.enter scope :: (body.run.1 ++ [.leave]), body.run.2)
  | handled body => (body.run.1, .finished)

def steps (code : ScopedCode) : List ScopeStep := code.run.1

theorem steps_sequence (first rest : ScopedCode) :
    (sequence first rest).steps = first.steps ++ rest.steps ∨
      (sequence first rest).steps = first.steps := by
  unfold steps
  rw [run]
  split
  · exact .inl rfl
  · exact .inr rfl

-- Code closes the scopes that it opens and no others, whichever way it is left.
theorem exists_run? (code : ScopedCode) (s : ScopeRun) :
    ∃ s', s.run? code.steps = some s' ∧ s'.opened = s.opened := by
  induction code generalizing s with
  | exit how => exact ⟨s, rfl, rfl⟩
  | sequence first rest ihf ihr =>
      obtain ⟨mid, hmid, hopened⟩ := ihf s
      obtain hsteps | hsteps := steps_sequence first rest
      · obtain ⟨s', hs', hopened'⟩ := ihr mid
        exact ⟨s', by rw [hsteps, ScopeRun.run?_append, hmid, Option.bind_some, hs'],
          hopened'.trans hopened⟩
      · exact ⟨mid, hsteps ▸ hmid, hopened⟩
  | within scope body ih =>
      have hsteps : (within scope body).steps = .enter scope :: (body.steps ++ [.leave]) := rfl
      let inside : ScopeRun :=
        ⟨(scope.enter s.flags).1, (scope, (scope.enter s.flags).2) :: s.opened⟩
      obtain ⟨⟨flags, opened⟩, hbody, rfl⟩ := ih inside
      refine ⟨⟨flags.leave (scope.enter s.flags).2, s.opened⟩, ?_, rfl⟩
      rw [hsteps, ScopeRun.run?_enter, ScopeRun.run?_append, hbody, Option.bind_some]
      exact ScopeRun.run?_leave flags
  | handled body ih => exact ih s

end ScopedCode

namespace ScopeRun

-- At every moment of a nested run the innermost scopes decide on the flags that have a name; where
-- the same scopes are open again, these flags are the same again; and code that runs from such a
-- moment, however it is left, comes back to its scopes and to its flags.
theorem innermost_wins {initial : ScopeFlags} {steps : List ScopeStep} {s : ScopeRun}
    (h : (start initial).run? steps = some s) :
    Shows initial s.scopes s.flags ∧
      (∀ later s', s.run? later = some s' → s'.scopes = s.scopes →
        ∀ i, ScopeFlags.declared.bits.getLsbD i = true →
          s'.flags.bits.getLsbD i = s.flags.bits.getLsbD i) ∧
      ∀ code : ScopedCode, ∃ s', s.run? code.steps = some s' ∧ s'.opened = s.opened ∧
        ∀ i, ScopeFlags.declared.bits.getLsbD i = true →
          s'.flags.bits.getLsbD i = s.flags.bits.getLsbD i := by
  have hsound := (sound_start initial).run h
  have hsame : ∀ later s', s.run? later = some s' → s'.scopes = s.scopes →
      ∀ i, ScopeFlags.declared.bits.getLsbD i = true →
        s'.flags.bits.getLsbD i = s.flags.bits.getLsbD i := by
    intro later s' hlater hscopes i hd
    have hlast := (hsound.run hlater).shows i hd
    rw [hscopes] at hlast
    exact hlast.trans (hsound.shows i hd).symm
  refine ⟨hsound.shows, hsame, fun code => ?_⟩
  obtain ⟨s', hcode, hopened⟩ := code.exists_run? s
  exact ⟨s', hcode, hopened, hsame _ _ hcode (congrArg (List.map Prod.fst) hopened)⟩

-- Two scopes with one flag in common, the outer one with a bit under its mask that names no flag.
def overlapping : List ScopeStep :=
  [.enter (.replacing (.bit 0 ||| .bit 2 ||| .probingMode) (.bit 2 ||| .probingMode)),
    .enter (.switched (.probingMode ||| .omitDebuggingInfo) false)]

-- Code that panics two scopes deep, in front of what would have been its last scope.
def panicking : ScopedCode :=
  .sequence
    (.within (.on .checkedScope) (.within (.on (.bit 5 ||| .probingMode)) (.exit .panicked)))
    (.within (.on .inferReturnType) (.exit .finished))

-- In the middle of the scopes: the inner one has turned off the flag that both are about, the flag
-- that neither is about is on as it was, and the panic leaves all that as it is.
theorem innermost_wins_overlapping :
    ∃ s, (start (.checkedScope ||| .constantCheckState ||| .bit 31)).run? overlapping = some s ∧
      s.flags = .constantCheckState ∧
      Shows (.checkedScope ||| .constantCheckState ||| .bit 31) s.scopes s.flags ∧
      ∃ s', s.run? panicking.steps = some s' ∧ s'.opened = s.opened ∧
        ∀ i, ScopeFlags.declared.bits.getLsbD i = true →
          s'.flags.bits.getLsbD i = s.flags.bits.getLsbD i := by
  obtain ⟨s, hs⟩ : ∃ s,
      (start (.checkedScope ||| .constantCheckState ||| .bit 31)).run? overlapping = some s :=
    ⟨_, rfl⟩
  have hflags : s.flags = .constantCheckState := by
    obtain rfl := Option.some.inj hs
    decide
  obtain ⟨hshows, -, hcode⟩ := innermost_wins hs
  exact ⟨s, hs, hflags, hshows, hcode panicking⟩

end ScopeRun

end EventScript
