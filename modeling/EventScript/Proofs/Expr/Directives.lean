import EventScript.Proofs.Expr.Completeness

namespace EventScript

-- A directive as it is written, with the place of every sign.
structure ConcreteUsing where
  word : Span
  nickname : Option (Ident × Span)
  path : ConcretePath
  semicolon : Span

namespace ConcreteUsing

def erase (directive : ConcreteUsing) : UsingDirective :=
  ⟨directive.nickname.map (·.1), directive.path.erase, directive.word.hull directive.semicolon⟩

def yieldNickname (nickname : Option (Ident × Span)) : List Token :=
  nickname.elim [] fun (name, assign) => [name.token, Symbol.assign.token assign]

def yield (directive : ConcreteUsing) : List Token :=
  Keyword.usingWord.token directive.word :: yieldNickname directive.nickname ++
    directive.path.yield ++ [Symbol.semicolon.token directive.semicolon]

end ConcreteUsing

structure ConcreteScript where
  usings : List ConcreteUsing
  body : ConcreteExpr

namespace ConcreteScript

def erase (script : ConcreteScript) : Script :=
  ⟨script.usings.map ConcreteUsing.erase, script.body.erase⟩

def yield (script : ConcreteScript) : List Token :=
  script.usings.flatMap ConcreteUsing.yield ++ script.body.yield

end ConcreteScript

namespace Parser

variable {tokens left rest : List Token}

theorem usingDirective_sound {start : Span} {directive : UsingDirective}
    (h : (usingDirective start tokens).plain = .ok (directive, left)) :
    ∃ form : ConcreteUsing, form.erase = directive ∧
      Keyword.usingWord.token start :: tokens = form.yield ++ left := by
  rw [usingDirective_plain, read_bind_eq_ok] at h
  obtain ⟨first, behind, hi, h⟩ := h
  obtain rfl := ident_plain_iff.mp hi
  simp only at h
  split at h
  · rename_i assign rest
    simp only [read_bind_eq_ok, Except.ok.injEq, Prod.mk.injEq] at h
    obtain ⟨path, _, hp, stop, _, hs, rfl, rfl⟩ := h
    obtain ⟨path, rfl, rfl⟩ := dottedName_sound hp
    obtain rfl := expect_plain_iff.mp hs
    refine ⟨⟨start, some (first, assign), path, stop⟩, rfl, ?_⟩
    simp [ConcreteUsing.yield, ConcreteUsing.yieldNickname, Ident.token, Symbol.token]
  · simp only [read_bind_eq_ok, Except.ok.injEq, Prod.mk.injEq] at h
    obtain ⟨names, _, hn, stop, _, hs, rfl, rfl⟩ := h
    obtain ⟨more, rfl, rfl⟩ := moreNames_sound hn
    obtain rfl := expect_plain_iff.mp hs
    refine ⟨⟨start, none, ⟨first, more⟩, stop⟩, rfl, ?_⟩
    simp [ConcreteUsing.yield, ConcreteUsing.yieldNickname, ConcretePath.yield, Ident.token,
      Symbol.token]

theorem usingDirectives_sound {directives : List UsingDirective}
    (h : (usingDirectives tokens).plain = .ok (directives, left)) :
    ∃ forms : List ConcreteUsing, forms.map ConcreteUsing.erase = directives ∧
      tokens = forms.flatMap ConcreteUsing.yield ++ left := by
  induction hn : tokens.length using Nat.strongRecOn generalizing tokens directives with
  | _ n ih =>
      rw [usingDirectives_plain] at h
      split at h
      · rename_i start rest
        simp only [read_bind_eq_ok, Except.ok.injEq, Prod.mk.injEq] at h
        obtain ⟨directive, behind, hd, more, _, hm, rfl, rfl⟩ := h
        have hlt := length_lt_of_plain hd
        rw [List.length_cons] at hn
        obtain ⟨form, rfl, hyield⟩ := usingDirective_sound hd
        obtain ⟨forms, rfl, rfl⟩ := ih _ (by omega) hm rfl
        refine ⟨form :: forms, rfl, ?_⟩
        rw [List.flatMap_cons, List.append_assoc]
        exact hyield
      · obtain ⟨rfl, rfl⟩ := Prod.mk.inj (Except.ok.inj h)
        exact ⟨[], rfl, rfl⟩

theorem script_sound {result : Script} (h : script tokens = .ok result) :
    ∃ form : ConcreteScript, ∃ stop left, form.erase = result ∧
      tokens = form.yield ++ ⟨.eof, stop⟩ :: left ∧ form.body.Grouped := by
  rw [script_eq, read_bind_eq_ok] at h
  obtain ⟨directives, behind, hd, h⟩ := h
  obtain ⟨body, hb, h⟩ := bind_eq_ok.mp h
  obtain rfl := Except.ok.inj h
  obtain ⟨forms, rfl, rfl⟩ := usingDirectives_sound hd
  obtain ⟨tree, stop, left, rfl, rfl, hg⟩ := wholeExpression_reads hb
  exact ⟨⟨forms, tree⟩, stop, left, rfl, by simp [ConcreteScript.yield], hg⟩

theorem usingDirective_complete (directive : ConcreteUsing) :
    (usingDirective directive.word (ConcreteUsing.yieldNickname directive.nickname ++
      (directive.path.yield ++ Symbol.semicolon.token directive.semicolon :: rest))).plain =
      .ok (directive.erase, rest) := by
  obtain ⟨word, nickname, path, semicolon⟩ := directive
  have hstop : (expectSymbol .semicolon (Symbol.semicolon.token semicolon :: rest)).plain =
      .ok (semicolon, rest) := expect_plain_iff.mpr rfl
  have hdot : (peek (Symbol.semicolon.token semicolon :: rest)).kind ≠ .symbol .dot := nofun
  cases nickname with
  | some name =>
      obtain ⟨name, assign⟩ := name
      have hident : (ident (ConcreteUsing.yieldNickname (some (name, assign)) ++
          (path.yield ++ Symbol.semicolon.token semicolon :: rest))).plain =
          .ok (name, Symbol.assign.token assign ::
            (path.yield ++ Symbol.semicolon.token semicolon :: rest)) :=
        ident_plain_iff.mpr rfl
      rw [usingDirective_plain, hident, ok_bind, Symbol.token]
      dsimp only
      rw [dottedName_complete path hdot, ok_bind]
      dsimp only
      rw [hstop, ok_bind]
      rfl
  | none =>
      have hident : (ident (ConcreteUsing.yieldNickname none ++
          (path.yield ++ Symbol.semicolon.token semicolon :: rest))).plain =
          .ok (path.first, ConcretePath.yieldRest path.rest ++
            Symbol.semicolon.token semicolon :: rest) :=
        ident_plain_iff.mpr rfl
      rw [usingDirective_plain, hident, ok_bind]
      dsimp only
      split
      · rename_i hassign
        cases hrest : path.rest <;> rw [hrest] at hassign <;> cases hassign
      · rw [moreNames_complete path.rest hdot, ok_bind]
        dsimp only
        rw [hstop, ok_bind]
        rfl

theorem usingDirectives_complete (directives : List ConcreteUsing)
    (h : (peek rest).kind ≠ .keyword .usingWord) :
    (usingDirectives (directives.flatMap ConcreteUsing.yield ++ rest)).plain =
      .ok (directives.map ConcreteUsing.erase, rest) := by
  induction directives with
  | nil => exact usingDirectives_stay h
  | cons directive directives ih =>
      have hyield : (directive :: directives).flatMap ConcreteUsing.yield ++ rest =
          Keyword.usingWord.token directive.word ::
            (ConcreteUsing.yieldNickname directive.nickname ++ (directive.path.yield ++
              Symbol.semicolon.token directive.semicolon ::
                (directives.flatMap ConcreteUsing.yield ++ rest))) := by
        simp [ConcreteUsing.yield]
      rw [hyield, usingDirectives_plain, Keyword.token]
      dsimp only
      rw [usingDirective_complete, ok_bind]
      dsimp only
      rw [ih, ok_bind]
      rfl

theorem script_complete {form : ConcreteScript} (hg : form.body.Grouped)
    (hread : form.body.Readable .eof) (stop : Span) (rest : List Token) :
    script (form.yield ++ ⟨.eof, stop⟩ :: rest) = .ok form.erase := by
  have hfirst : (peek (form.body.yield ++ ⟨.eof, stop⟩ :: rest)).kind ≠ .keyword .usingWord := by
    rw [form.body.peek_yield_append]
    exact form.body.peek_yield_ne rfl
  rw [ConcreteScript.yield, List.append_assoc, script_eq,
    usingDirectives_complete form.usings hfirst, ok_bind]
  dsimp only
  rw [wholeExpression_complete hg hread, ok_bind]
  rfl

end Parser

end EventScript
