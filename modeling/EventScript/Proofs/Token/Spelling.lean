import EventScript.Proofs.Token.Scanning

namespace EventScript

def kinds (tokens : List Token) : List TokenKind := tokens.map (·.kind)

@[simp] theorem kinds_nil : kinds [] = [] := rfl

@[simp] theorem kinds_cons (token : Token) (tokens : List Token) :
    kinds (token :: tokens) = token.kind :: kinds tokens := rfl

@[simp] theorem kinds_append (tokens others : List Token) :
    kinds (tokens ++ others) = kinds tokens ++ kinds others := List.map_append

namespace Lexer

variable {c : Char} {input rest text : List Char}

-- White space

theorem skipTrivia_blank (h : Text.isBlank c = true) :
    skipTrivia (c :: rest) = skipTrivia rest := by
  have hslash : c ≠ '/' := by
    rintro rfl
    exact absurd h (by decide)
  rw [skipTrivia, if_pos h]
  · exact fun _ he => absurd he hslash
  · exact fun _ he => absurd he hslash

theorem skipTrivia_stay (hblank : Text.isBlank c = false) (h : c = '/' → AfterSign rest) :
    skipTrivia (c :: rest) = c :: rest := by
  rw [skipTrivia, if_neg (by simp [hblank])]
  · rintro tail rfl rfl
    exact (h rfl '/' tail rfl).2.1 rfl
  · rintro tail rfl rfl
    exact (h rfl '*' tail rfl).2.2 rfl

theorem tokensFrom_eq (total : Nat) (input : List Char) :
    tokensFrom total input = match skipTrivia input with
      | [] => .ok [⟨.eof, ⟨offsetOf total [], offsetOf total []⟩⟩]
      | c :: rest =>
        let start := offsetOf total (c :: rest)
        if opensComment (c :: rest) then
          .error ⟨.unterminatedComment, ⟨start, start + c.utf8Size⟩⟩
        else
          match scanToken? (c :: rest) with
          | none => .error ⟨faultAt c, ⟨start, start + c.utf8Size⟩⟩
          | some (kind, after) =>
            (tokensFrom total after).map (⟨kind, ⟨start, offsetOf total after⟩⟩ :: ·) := by
  rw [tokensFrom]
  split
  · rename_i hs
    rw [hs]
  · rename_i c rest hs
    rw [hs]
    dsimp only
    split_ifs
    · rfl
    · split
      · rename_i ht
        rw [ht]
      · rename_i kind after ht
        rw [ht]
        dsimp only
        cases tokensFrom total after <;> rfl

-- A text that is split is at its end, or has a token in front and is split behind it.
theorem tokensFrom_cases {total : Nat} {tokens : List Token}
    (h : tokensFrom total input = .ok tokens) :
    (skipTrivia input = [] ∧ tokens = [⟨.eof, ⟨offsetOf total [], offsetOf total []⟩⟩]) ∨
      ∃ c rest kind after more, skipTrivia input = c :: rest ∧
        opensComment (c :: rest) = false ∧ scanToken? (c :: rest) = some (kind, after) ∧
        tokensFrom total after = .ok more ∧
        tokens = ⟨kind, ⟨offsetOf total (c :: rest), offsetOf total after⟩⟩ :: more := by
  rw [tokensFrom_eq] at h
  split at h
  · rename_i hs
    exact .inl ⟨hs, (Except.ok.inj h).symm⟩
  · rename_i c rest hs
    dsimp only at h
    split_ifs at h with hcomment
    split at h
    · cases h
    · rename_i kind after hscan
      cases hafter : tokensFrom total after with
      | error e =>
          rw [hafter] at h
          cases h
      | ok more =>
          rw [hafter] at h
          rw [Bool.not_eq_true] at hcomment
          exact .inr ⟨c, rest, kind, after, more, hs, hcomment, hscan, hafter,
            (Except.ok.inj h).symm⟩

theorem tokensFrom_blank (total : Nat) (h : Text.isBlank c = true) (rest : List Char) :
    tokensFrom total (c :: rest) = tokensFrom total rest := by
  rw [tokensFrom_eq, tokensFrom_eq total rest, skipTrivia_blank h]

-- The token in front is the first one.
theorem tokensFrom_token (total : Nat) {kind : TokenKind} {after : List Char}
    (hs : skipTrivia input = c :: rest) (hopens : opensComment (c :: rest) = false)
    (h : scanToken? (c :: rest) = some (kind, after)) :
    ∃ span, tokensFrom total input = (tokensFrom total after).map (⟨kind, span⟩ :: ·) := by
  refine ⟨⟨offsetOf total (c :: rest), offsetOf total after⟩, ?_⟩
  rw [tokensFrom_eq, hs]
  simp only [hopens, Bool.false_eq_true, ↓reduceIte, h]

theorem tokensFrom_scan (total : Nat) {kind : TokenKind}
    (hblank : Text.isBlank c = false) (hslash : c = '/' → AfterSign input)
    (h : scanToken? (c :: input) = some (kind, rest)) :
    ∃ span, tokensFrom total (c :: input) =
      (tokensFrom total rest).map (⟨kind, span⟩ :: ·) := by
  have hcomment : opensComment (c :: input) = false := by
    unfold opensComment
    split
    · rename_i tail he
      obtain ⟨rfl, rfl⟩ := List.cons.inj he
      exact absurd rfl (hslash rfl '*' tail rfl).2.2
    · rfl
  exact tokensFrom_token total (skipTrivia_stay hblank hslash) hcomment h

-- Tokens that have been read

-- What the lexer makes sure of: names are words of their own, and integers fit into 64 bits.
def WellSpelled : TokenKind → Prop
  | .ident name => IsWord name.toList ∧ Keyword.ofText? name = none
  | .int value _ => value < Nat.pow 2 64
  | _ => True

theorem isWord_takeWhile (h : startsWord c = true) (rest : List Char) :
    IsWord ((c :: rest).takeWhile continuesWord) := by
  rw [List.takeWhile_cons, if_pos (continuesWord_of_startsWord h)]
  exact ⟨h, fun d hd => List.all_eq_true.mp List.all_takeWhile d hd⟩

theorem wellSpelled_wordKind (h : IsWord text) : WellSpelled (wordKind (String.ofList text)) := by
  unfold wordKind
  split
  · trivial
  · rename_i hnone
    exact ⟨by rwa [String.toList_ofList], hnone⟩

theorem wellSpelled_of_scanNumber? {kind : TokenKind} (h : scanNumber? input = some (kind, rest)) :
    WellSpelled kind := by
  simp only [scanNumber?] at h
  split_ifs at h with hreal hends hfits
  · obtain ⟨rfl, -⟩ := Prod.mk.inj (Option.some.inj h)
    trivial
  · obtain ⟨rfl, -⟩ := Prod.mk.inj (Option.some.inj h)
    rw [Bool.and_eq_true, decide_eq_true_eq] at hfits
    exact hfits.1

theorem wellSpelled_of_scanToken? {kind : TokenKind} (h : scanToken? input = some (kind, rest)) :
    WellSpelled kind := by
  cases input with
  | nil => cases h
  | cons c input =>
      simp only [scanToken?] at h
      split_ifs at h with hdigit hquote hword
      · exact wellSpelled_of_scanNumber? h
      · obtain ⟨_, _, he⟩ := Option.map_eq_some_iff.mp h
        obtain ⟨rfl, -⟩ := Prod.mk.inj he
        trivial
      · obtain ⟨rfl, -⟩ := Prod.mk.inj (Option.some.inj h)
        exact wellSpelled_wordKind (isWord_takeWhile hword input)
      · obtain ⟨_, _, he⟩ := Option.map_eq_some_iff.mp h
        obtain ⟨rfl, -⟩ := Prod.mk.inj he
        trivial

theorem wellSpelled_of_tokensFrom {total : Nat} {tokens : List Token}
    (h : tokensFrom total input = .ok tokens) : ∀ token ∈ tokens, WellSpelled token.kind := by
  obtain ⟨n, hn⟩ : ∃ n, input.length = n := ⟨_, rfl⟩
  induction n using Nat.strongRecOn generalizing input tokens with
  | _ n ih =>
      intro token ht
      rcases tokensFrom_cases h with
        ⟨-, rfl⟩ | ⟨c, rest, kind, after, more, hs, -, hscan, hafter, rfl⟩
      · obtain rfl := List.mem_singleton.mp ht
        trivial
      · have hskip := (skipTrivia_suffix input).length_le
        have hle := (scanToken?_suffix hscan).length_le
        rw [hs, List.length_cons] at hskip
        rcases List.mem_cons.mp ht with rfl | ht
        · exact wellSpelled_of_scanToken? hscan
        · exact ih after.length (by omega) hafter rfl token ht

-- Texts that are split as they are meant

-- In front of what cannot join on to it, the text is split into tokens of exactly these kinds. A
-- sign in front of the text stays a sign of its own.
structure Spells (text : List Char) (spelled : List TokenKind) : Prop where
  opens : ∃ c tail, text = c :: tail ∧ c ≠ '=' ∧ c ≠ '/' ∧ c ≠ '*'
  splits : ∀ total rest, Breaks rest → ∃ tokens, kinds tokens = spelled ∧
    tokensFrom total (text ++ rest) = (tokensFrom total rest).map (tokens ++ ·)

-- What follows a token can be put between it and what may follow a token.
def BreaksOff (text : List Char) : Prop := ∀ rest, Breaks rest → Breaks (text ++ rest)

theorem breaksOff_cons (h : isBreak c = true) (hpoint : c ≠ '.') : BreaksOff (c :: text) :=
  fun _ _ => breaks_cons h hpoint

theorem breaksOff_point (h : IsWord text) : BreaksOff ('.' :: text ++ input) := by
  intro rest _
  constructor
  · intro c tail he
    obtain rfl := (List.cons.inj he).1
    rfl
  · intro c tail he
    cases text with
    | nil => exact h.elim
    | cons d text =>
        obtain rfl := (List.cons.inj (List.cons.inj he).2).1
        exact not_isDigit_of_startsWord h.1

-- Signs that may stand behind a token.
def breaksSign : Symbol → Bool
  | .comma | .semicolon | .lparen | .rparen | .lbracket | .rbracket | .question | .lt | .gt => true
  | _ => false

theorem breaksOff_sign (sign : Symbol) (h : breaksSign sign = true) (text : List Char) :
    BreaksOff (sign.text.toList ++ text) := by
  cases sign <;> first | exact breaksOff_cons rfl (by decide) | cases h

theorem breaksOff_text (sign : Symbol) (h : breaksSign sign = true) :
    BreaksOff sign.text.toList := by
  have hoff := breaksOff_sign sign h []
  rwa [List.append_nil] at hoff

namespace Spells

variable {more : List Char} {spelled others : List TokenKind} {kind : TokenKind}

theorem afterSign (h : Spells text spelled) (rest : List Char) : AfterSign (text ++ rest) := by
  obtain ⟨c, tail, rfl, hequal, hslash, hstar⟩ := h.opens
  exact afterSign_cons hequal hslash hstar

theorem append (h : Spells text spelled) (hmore : Spells more others) (hoff : BreaksOff more) :
    Spells (text ++ more) (spelled ++ others) := by
  constructor
  · obtain ⟨c, tail, rfl, hc⟩ := h.opens
    exact ⟨c, tail ++ more, rfl, hc⟩
  · intro total rest hb
    obtain ⟨tokens, rfl, hsplit⟩ := h.splits total (more ++ rest) (hoff rest hb)
    obtain ⟨left, rfl, hleft⟩ := hmore.splits total rest hb
    refine ⟨tokens ++ left, kinds_append tokens left, ?_⟩
    rw [List.append_assoc, hsplit, hleft]
    cases tokensFrom total rest with
    | error e => rfl
    | ok found => simp [Except.map]

theorem of_scan (hblank : Text.isBlank c = false) (hopens : c ≠ '=' ∧ c ≠ '/' ∧ c ≠ '*')
    (h : ∀ rest, Breaks rest → scanToken? (c :: text ++ rest) = some (kind, rest)) :
    Spells (c :: text) [kind] := by
  refine ⟨⟨c, text, rfl, hopens⟩, fun total rest hb => ?_⟩
  obtain ⟨span, htokens⟩ := tokensFrom_scan total hblank
    (fun hslash => absurd hslash hopens.2.1) (h rest hb)
  exact ⟨[⟨kind, span⟩], rfl, htokens⟩

theorem blank (h : Spells text spelled) (hc : Text.isBlank c = true)
    (hopens : c ≠ '=' ∧ c ≠ '/' ∧ c ≠ '*') : Spells (c :: text) spelled := by
  refine ⟨⟨c, text, rfl, hopens⟩, fun total rest hb => ?_⟩
  rw [List.cons_append, tokensFrom_blank total hc]
  exact h.splits total rest hb

theorem space (h : Spells text spelled) : Spells (' ' :: text) spelled :=
  h.blank (by decide) (by decide)

end Spells

-- Signs that stay what they are behind another sign.
def opensAfterSign (sign : Symbol) : Bool :=
  match sign with
  | .assign | .eqEq | .star | .slash => false
  | _ => true

theorem sign_text (sign : Symbol) :
    ∃ c tail, sign.text.toList = c :: tail ∧ Text.isBlank c = false ∧
      (c = '/' → tail = []) ∧ (opensAfterSign sign = true → c ≠ '=' ∧ c ≠ '/' ∧ c ≠ '*') := by
  cases sign <;> exact ⟨_, _, rfl, by decide, by decide, by decide⟩

theorem tokensFrom_sign (total : Nat) (sign : Symbol) (h : AfterSign rest) :
    ∃ span, tokensFrom total (sign.text.toList ++ rest) =
      (tokensFrom total rest).map (⟨.symbol sign, span⟩ :: ·) := by
  have hscan := scanToken?_sign sign h
  obtain ⟨c, tail, htext, hblank, hslash, -⟩ := sign_text sign
  rw [htext] at hscan ⊢
  refine tokensFrom_scan total hblank (fun hc => ?_) hscan
  rw [hslash hc]
  exact h

namespace Spells

variable {spelled : List TokenKind}

theorem sign (h : Spells text spelled) (sign : Symbol) (hsign : opensAfterSign sign = true) :
    Spells (sign.text.toList ++ text) (.symbol sign :: spelled) := by
  constructor
  · obtain ⟨c, tail, htext, -, -, hopens⟩ := sign_text sign
    exact ⟨c, tail ++ text, by rw [htext, List.cons_append], hopens hsign⟩
  · intro total rest hb
    obtain ⟨tokens, rfl, hsplit⟩ := h.splits total rest hb
    obtain ⟨span, hfirst⟩ := tokensFrom_sign total sign (h.afterSign rest)
    refine ⟨⟨.symbol sign, span⟩ :: tokens, rfl, ?_⟩
    rw [List.append_assoc, hfirst, hsplit]
    cases tokensFrom total rest <;> rfl

-- An operator stands between blanks.
theorem operator (h : Spells text spelled) (sign : Symbol) :
    Spells (' ' :: (sign.text.toList ++ ' ' :: text)) (.symbol sign :: spelled) := by
  refine ⟨⟨' ', _, rfl, by decide⟩, fun total rest hb => ?_⟩
  obtain ⟨tokens, rfl, hsplit⟩ := h.space.splits total rest hb
  obtain ⟨span, hfirst⟩ := tokensFrom_sign total sign (h.space.afterSign rest)
  refine ⟨⟨.symbol sign, span⟩ :: tokens, rfl, ?_⟩
  rw [List.cons_append, tokensFrom_blank total (by decide), List.append_assoc, hfirst, hsplit]
  cases tokensFrom total rest <;> rfl

end Spells

theorem spells_sign (sign : Symbol) (hsign : opensAfterSign sign = true) :
    Spells sign.text.toList [.symbol sign] := by
  obtain ⟨c, tail, htext, -, -, hopens⟩ := sign_text sign
  refine ⟨⟨c, tail, htext, hopens hsign⟩, fun total rest hb => ?_⟩
  obtain ⟨span, hfirst⟩ := tokensFrom_sign total sign hb.afterSign
  exact ⟨[⟨.symbol sign, span⟩], rfl, hfirst⟩

theorem spells_word (h : IsWord text) : Spells text [wordKind (String.ofList text)] := by
  cases text with
  | nil => exact h.elim
  | cons c text =>
      have hopens : c ≠ '=' ∧ c ≠ '/' ∧ c ≠ '*' := by
        refine ⟨?_, ?_, ?_⟩ <;>
          · rintro rfl
            exact absurd h.1 (by decide)
      have hblank := not_isBlank_of_startsWord h.1
      exact .of_scan hblank hopens fun rest hb => scanToken?_word h hb.stops_word

theorem spells_keyword (word : Keyword) : Spells word.text.toList [.keyword word] := by
  have hkind : wordKind (String.ofList word.text.toList) = .keyword word := by
    cases word <;> decide +kernel
  have hword : IsWord word.text.toList := by
    cases word <;> exact ⟨by decide +kernel, List.all_eq_true.mp (by decide +kernel)⟩
  rw [← hkind]
  exact spells_word hword

theorem spells_ident {name : String} (h : WellSpelled (.ident name)) :
    Spells name.toList [.ident name] := by
  have hkind : wordKind (String.ofList name.toList) = .ident name := by
    rw [String.ofList_toList, wordKind, h.2]
  rw [← hkind]
  exact spells_word h.1

end Lexer

end EventScript
