import EventScript.Proofs.Expr.Readable

namespace EventScript.Parser

variable {tokens left rest : List Token}

-- What is read is what some written form erases to, and the form is all that has been taken.
theorem moreNames_sound {names : List Ident}
    (h : (moreNames tokens).plain = .ok (names, left)) :
    ∃ rest : List (Span × Ident), rest.map (·.2) = names ∧
      tokens = ConcretePath.yieldRest rest ++ left := by
  induction hn : tokens.length using Nat.strongRecOn generalizing tokens names with
  | _ n ih =>
      rw [moreNames_plain] at h
      split at h
      · rename_i dot rest
        simp only [read_bind_eq_ok, Except.ok.injEq, Prod.mk.injEq] at h
        obtain ⟨name, behind, hi, more, _, hm, rfl, rfl⟩ := h
        have hlt := length_lt_of_plain hi
        obtain rfl := ident_plain_iff.mp hi
        rw [List.length_cons] at hn
        obtain ⟨names, rfl, rfl⟩ := ih _ (by omega) hm rfl
        exact ⟨(dot, name) :: names, rfl, rfl⟩
      · obtain ⟨rfl, rfl⟩ := Prod.mk.inj (Except.ok.inj h)
        exact ⟨[], rfl, rfl⟩

-- All points have been taken.
theorem moreNames_stops {names : List Ident} (h : (moreNames tokens).plain = .ok (names, left)) :
    (peek left).kind ≠ .symbol .dot := by
  induction hn : tokens.length using Nat.strongRecOn generalizing tokens names with
  | _ n ih =>
      by_cases hdot : (peek tokens).kind = .symbol .dot
      · obtain ⟨_, rest, rfl⟩ := eq_cons_of_peek hdot (by simp)
        rw [moreNames_plain] at h
        simp only [read_bind_eq_ok, Except.ok.injEq, Prod.mk.injEq] at h
        obtain ⟨name, behind, hi, more, _, hm, rfl, rfl⟩ := h
        have hlt := length_lt_of_plain hi
        rw [List.length_cons] at hn
        exact ih _ (by omega) hm rfl
      · rw [moreNames_stay hdot] at h
        obtain ⟨-, rfl⟩ := Prod.mk.inj (Except.ok.inj h)
        exact hdot

theorem dottedName_sound {path : DottedName}
    (h : (dottedName tokens).plain = .ok (path, left)) :
    ∃ form : ConcretePath, form.erase = path ∧ tokens = form.yield ++ left := by
  simp only [dottedName_plain, read_bind_eq_ok, Except.ok.injEq, Prod.mk.injEq] at h
  obtain ⟨first, behind, hi, names, _, hm, rfl, rfl⟩ := h
  obtain rfl := ident_plain_iff.mp hi
  obtain ⟨rest, rfl, rfl⟩ := moreNames_sound hm
  exact ⟨⟨first, rest⟩, rfl, rfl⟩

theorem dottedName_stops {path : DottedName} (h : (dottedName tokens).plain = .ok (path, left)) :
    (peek left).kind ≠ .symbol .dot := by
  simp only [dottedName_plain, read_bind_eq_ok, Except.ok.injEq, Prod.mk.injEq] at h
  obtain ⟨_, _, -, _, _, hm, -, rfl⟩ := h
  exact moreNames_stops hm

theorem ended_sound {path : DottedName} {arguments : List TypeName} {span : Span}
    {type : TypeName}
    (h : ended path arguments span tokens = (type, left)) :
    ∃ question, type = .marked path arguments span question ∧
      tokens = questionYield question ++ left ∧
      (question = none → (peek left).kind ≠ .symbol .question) := by
  unfold ended at h
  split at h
  · rename_i stop rest
    obtain ⟨rfl, rfl⟩ := Prod.mk.inj h
    exact ⟨some stop, rfl, rfl, nofun⟩
  · rename_i hne
    obtain ⟨rfl, rfl⟩ := Prod.mk.inj h
    refine ⟨none, rfl, rfl, fun _ hquestion => ?_⟩
    obtain ⟨stop, rest, rfl⟩ := eq_cons_of_peek hquestion nofun
    exact hne _ _ rfl

theorem typeName_sound_of {type : TypeName}
    (ih : ∀ rest : List Token, rest.length < tokens.length → ∀ types left,
      (typeArguments rest).plain = .ok (types, left) →
      ∃ forms : ConcreteTypes, forms.erase = types ∧ rest = forms.yield ++ left)
    (h : (typeName tokens).plain = .ok (type, left)) :
    ∃ form : ConcreteType, form.erase = type ∧ tokens = form.yield ++ left ∧
      form.EndsBefore (peek left).kind := by
  rw [typeName_plain, read_bind_eq_ok] at h
  obtain ⟨path, behind, hp, h⟩ := h
  have hlt := length_lt_of_plain hp
  have hdot := dottedName_stops hp
  obtain ⟨form, rfl, rfl⟩ := dottedName_sound hp
  simp only at h
  split at h
  · rename_i opened rest
    rw [List.length_cons] at hlt
    simp only [read_bind_eq_ok, Except.ok.injEq] at h
    obtain ⟨arguments, _, ha, stop, _, hs, he⟩ := h
    obtain ⟨forms, rfl, rfl⟩ := ih rest (by omega) _ _ ha
    obtain rfl := expect_plain_iff.mp hs
    obtain ⟨question, rfl, rfl, hquestion⟩ := ended_sound he
    refine ⟨.generic form opened forms stop question, rfl, by
      simp [ConcreteType.yield, Symbol.token], ?_⟩
    cases question with
    | none => exact hquestion rfl
    | some _ => trivial
  · rename_i hne
    obtain ⟨question, rfl, rfl, hquestion⟩ := ended_sound (Except.ok.inj h)
    refine ⟨.simple form question, rfl, by simp [ConcreteType.yield], ?_⟩
    cases question with
    | none =>
        refine ⟨hdot, fun hopen => ?_, hquestion rfl⟩
        obtain ⟨opened, rest, rfl⟩ := eq_cons_of_peek hopen nofun
        exact hne _ _ rfl
    | some _ => trivial

theorem typeArguments_sound {types : List TypeName}
    (h : (typeArguments tokens).plain = .ok (types, left)) :
    ∃ forms : ConcreteTypes, forms.erase = types ∧ tokens = forms.yield ++ left := by
  induction hn : tokens.length using Nat.strongRecOn generalizing tokens types left with
  | _ n ih =>
      rw [typeArguments_plain, read_bind_eq_ok] at h
      obtain ⟨type, behind, ht, h⟩ := h
      have hlt := length_lt_of_plain ht
      obtain ⟨form, rfl, rfl, -⟩ := typeName_sound_of
        (fun rest hr types left ha => ih rest.length (hn ▸ hr) ha rfl) ht
      simp only at h
      split at h
      · rename_i comma rest
        rw [List.length_cons] at hlt
        simp only [read_bind_eq_ok, Except.ok.injEq, Prod.mk.injEq] at h
        obtain ⟨more, _, hm, rfl, rfl⟩ := h
        obtain ⟨forms, rfl, rfl⟩ := ih rest.length (by omega) hm rfl
        exact ⟨.more form comma forms, rfl, by simp [ConcreteTypes.yield, Symbol.token]⟩
      · obtain ⟨rfl, rfl⟩ := Prod.mk.inj (Except.ok.inj h)
        exact ⟨.last form, rfl, rfl⟩

-- A type is read as far as it goes.
theorem typeName_sound {type : TypeName} (h : (typeName tokens).plain = .ok (type, left)) :
    ∃ form : ConcreteType, form.erase = type ∧ tokens = form.yield ++ left ∧
      form.EndsBefore (peek left).kind :=
  typeName_sound_of (fun _ _ _ _ => typeArguments_sound) h

theorem cast?_sound {type : TypeName} {span : Span} (h : cast? tokens = some (type, span, left)) :
    ∃ opened form closed, type = ConcreteType.erase form ∧ span = opened.hull closed ∧
      tokens = Symbol.lparen.token opened :: form.yield ++ Symbol.rparen.token closed :: left ∧
      startsCastOperand (peek left).kind = true := by
  obtain ⟨opened, closed, rest, rfl, hread, hstarts, rfl⟩ := cast?_eq_some.mp h
  obtain ⟨form, rfl, rfl, -⟩ := typeName_sound hread
  exact ⟨opened, form, closed, rfl, rfl, rfl, hstarts⟩

theorem moreNames_complete (names : List (Span × Ident))
    (h : (peek rest).kind ≠ .symbol .dot) :
    (moreNames (ConcretePath.yieldRest names ++ rest)).plain = .ok (names.map (·.2), rest) := by
  induction names with
  | nil => exact moreNames_stay h
  | cons first names ih =>
      obtain ⟨dot, name⟩ := first
      have hident : (ident (name.token :: (ConcretePath.yieldRest names ++ rest))).plain =
          .ok (name, ConcretePath.yieldRest names ++ rest) := ident_plain_iff.mpr rfl
      show (moreNames (Symbol.dot.token dot :: name.token ::
        (ConcretePath.yieldRest names ++ rest))).plain = _
      rw [moreNames_plain]
      simp only [Symbol.token, hident, ok_bind, ih, List.map_cons]

theorem dottedName_complete (path : ConcretePath) (h : (peek rest).kind ≠ .symbol .dot) :
    (dottedName (path.yield ++ rest)).plain = .ok (path.erase, rest) := by
  have hident : (ident (path.yield ++ rest)).plain =
      .ok (path.first, ConcretePath.yieldRest path.rest ++ rest) := ident_plain_iff.mpr rfl
  rw [dottedName_plain, hident, ok_bind]
  simp only [moreNames_complete path.rest h, ok_bind]
  rfl

theorem ended_complete (path : DottedName) (arguments : List TypeName) (span : Span)
    (question : Option Span) (h : question = none → (peek rest).kind ≠ .symbol .question) :
    ended path arguments span (questionYield question ++ rest) =
      (.marked path arguments span question, rest) := by
  cases question with
  | none => exact ended_stay (h rfl)
  | some stop => rfl

mutual

theorem typeName_complete (type : ConcreteType) (rest : List Token)
    (h : type.EndsBefore (peek rest).kind) :
    (typeName (type.yield ++ rest)).plain = .ok (type.erase, rest) := by
  match type with
  | .simple path question =>
      have hq : question = none → (peek rest).kind ≠ .symbol .question := by
        rintro rfl
        exact h.2.2
      have hdot : (peek (questionYield question ++ rest)).kind ≠ .symbol .dot := by
        cases question with
        | none => exact h.1
        | some _ => exact nofun
      have hopen : (peek (questionYield question ++ rest)).kind ≠ .symbol .lt := by
        cases question with
        | none => exact h.2.1
        | some _ => exact nofun
      rw [ConcreteType.yield, List.append_assoc, typeName_plain, dottedName_complete path hdot,
        ok_bind]
      dsimp only
      split
      · rename_i hlt
        rw [hlt] at hopen
        exact absurd rfl hopen
      · rw [ended_complete _ _ _ _ hq]
        rfl
  | .generic path opened arguments closed question =>
      have hq : question = none → (peek rest).kind ≠ .symbol .question := by
        rintro rfl
        exact h
      have hdot : (peek (Symbol.lt.token opened :: (arguments.yield ++
          Symbol.gt.token closed :: (questionYield question ++ rest)))).kind ≠ .symbol .dot := nofun
      have hyield : (ConcreteType.generic path opened arguments closed question).yield ++ rest =
          path.yield ++ Symbol.lt.token opened :: (arguments.yield ++
            Symbol.gt.token closed :: (questionYield question ++ rest)) := by
        simp [ConcreteType.yield]
      have hstop : (expectSymbol .gt (Symbol.gt.token closed ::
          (questionYield question ++ rest))).plain = .ok (closed, questionYield question ++ rest) :=
        expect_plain_iff.mpr rfl
      rw [hyield, typeName_plain, dottedName_complete path hdot, ok_bind, Symbol.token]
      dsimp only
      rw [typeArguments_complete arguments closed, ok_bind, hstop, ok_bind]
      dsimp only
      rw [ended_complete _ _ _ _ hq]
      rfl

theorem typeArguments_complete (types : ConcreteTypes) (closed : Span) (rest : List Token) :
    (typeArguments (types.yield ++ Symbol.gt.token closed :: rest)).plain =
      .ok (types.erase, Symbol.gt.token closed :: rest) := by
  match types with
  | .last type =>
      have htype : (typeName (type.yield ++ Symbol.gt.token closed :: rest)).plain =
          .ok (type.erase, Symbol.gt.token closed :: rest) :=
        typeName_complete type _ (type.endsBefore nofun nofun nofun)
      rw [typeArguments_plain, ConcreteTypes.yield, htype, ok_bind]
      rfl
  | .more type comma types =>
      have htype : (typeName (type.yield ++ Symbol.comma.token comma :: (types.yield ++
          Symbol.gt.token closed :: rest))).plain = .ok (type.erase, Symbol.comma.token comma ::
            (types.yield ++ Symbol.gt.token closed :: rest)) :=
        typeName_complete type _ (type.endsBefore nofun nofun nofun)
      rw [typeArguments_plain, ConcreteTypes.yield, List.append_assoc, List.cons_append, htype,
        ok_bind]
      rw [Symbol.token]
      dsimp only
      rw [typeArguments_complete types closed, ok_bind]
      rfl

end

theorem cast?_complete (type : ConcreteType) {opened closed : Span}
    (h : startsCastOperand (peek rest).kind = true) :
    cast? (Symbol.lparen.token opened :: (type.yield ++ Symbol.rparen.token closed :: rest)) =
      some (type.erase, opened.hull closed, rest) := by
  have htype : (typeName (type.yield ++ Symbol.rparen.token closed :: rest)).plain =
      .ok (type.erase, Symbol.rparen.token closed :: rest) :=
    typeName_complete type _ (type.endsBefore nofun nofun nofun)
  exact cast?_eq_some.mpr ⟨opened, closed, _, rfl, htype, h, rfl⟩

end EventScript.Parser
