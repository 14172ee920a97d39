import EventScript.Proofs.Token.Scanning

namespace EventScript.Lexer

variable {α : Type} {c : Char} {input rest text after : List Char}

-- A text that is cut off behind what a scanner takes of it: the scanner takes the same. It looks
-- only one or two characters ahead of what it has taken, and would have taken those as well.
def Cuts (scan : List Char → α × List Char) : Prop :=
  ∀ text rest after, (scan (text ++ rest)).2 = after ++ rest →
    scan text = ((scan (text ++ rest)).1, after)

theorem eq_nil_of_append_suffix (h : after ++ rest <:+ rest) : after = [] := by
  have hle := h.length_le
  rw [List.length_append] at hle
  exact List.length_eq_zero_iff.mp (by omega)

theorem not_append_suffix : ¬ after ++ c :: rest <:+ rest := by
  intro h
  have hle := h.length_le
  rw [List.length_append, List.length_cons] at hle
  omega

-- What a scanner takes is at most what all scanners together take.
theorem exists_eq_append (h : after ++ rest <:+ input) : ∃ front, input = front ++ rest := by
  obtain ⟨taken, rfl⟩ := h
  exact ⟨taken ++ after, (List.append_assoc _ _ _).symm⟩

theorem Cuts.exists_front {scan : List Char → α × List Char} (hcuts : Cuts scan) {found : α}
    {left : List Char} (h : scan (text ++ rest) = (found, left)) (hleft : after ++ rest <:+ left) :
    ∃ front, left = front ++ rest ∧ scan text = (found, front) := by
  obtain ⟨front, rfl⟩ := exists_eq_append hleft
  have hcut := hcuts text rest front (congrArg Prod.snd h)
  rw [h] at hcut
  exact ⟨front, rfl, hcut⟩

-- Where nothing is left to be taken from, nothing must have been found in what follows.
theorem cuts_of {scan : List Char → α × List Char} (empty : α) (hnil : scan [] = (empty, []))
    (hsuffix : ∀ input, (scan input).2 <:+ input)
    (hstay : ∀ input, (scan input).2 = input → (scan input).1 = empty)
    (hcons : ∀ c text rest after, (scan (c :: text ++ rest)).2 = after ++ rest →
      scan (c :: text) = ((scan (c :: text ++ rest)).1, after)) : Cuts scan := by
  intro text rest after h
  cases text with
  | nil =>
      rw [List.nil_append] at h ⊢
      obtain rfl := eq_nil_of_append_suffix (h ▸ hsuffix rest)
      rw [hnil, hstay rest h]
  | cons c text => exact hcons c text rest after h

theorem takeWhile_eq_nil {p : Char → Bool} (h : rest.dropWhile p = rest) :
    rest.takeWhile p = [] := by
  have hsplit := List.takeWhile_append_dropWhile (p := p) (l := rest)
  rw [h] at hsplit
  exact List.append_left_eq_self.mp hsplit

theorem while_cut {p : Char → Bool} (h : (text ++ rest).dropWhile p = after ++ rest) :
    text.takeWhile p = (text ++ rest).takeWhile p ∧ text.dropWhile p = after := by
  induction text with
  | nil =>
      rw [List.nil_append] at h ⊢
      obtain rfl := eq_nil_of_append_suffix (h ▸ List.dropWhile_suffix p)
      exact ⟨(takeWhile_eq_nil h).symm, rfl⟩
  | cons c text ih =>
      rw [List.cons_append] at h ⊢
      by_cases hc : p c = true
      · rw [List.dropWhile_cons_of_pos hc] at h
        obtain ⟨htake, hdrop⟩ := ih h
        exact ⟨by simp [hc, htake], by simp [hc, hdrop]⟩
      · rw [List.dropWhile_cons_of_neg hc, ← List.cons_append] at h
        obtain rfl := List.append_cancel_right h
        exact ⟨by simp [hc], by simp [hc]⟩

theorem takeWhile_eq_nil_of_append {p : Char → Bool} (h : (text ++ rest).takeWhile p = []) :
    text.takeWhile p = [] := by
  cases text with
  | nil => rfl
  | cons c text =>
      by_cases hc : p c = true
      · simp [hc] at h
      · simp [hc]

-- Numbers

theorem cuts_scanFraction : Cuts scanFraction := by
  have hplain {c : Char} (hc : c ≠ '.') (tail : List Char) :
      scanFraction (c :: tail) = ([], c :: tail) := by
    rw [scanFraction]
    exact fun _ he => hc (List.cons.inj he).1
  refine cuts_of [] rfl scanFraction_suffix (fun input h => ?_)
    fun c text rest after h => ?_
  · cases input with
    | nil => rfl
    | cons c tail =>
        by_cases hc : c = '.'
        · subst hc
          simp only [scanFraction] at h ⊢
          by_cases hdigits : (tail.takeWhile Char.isDigit).isEmpty = true
          · rw [if_pos hdigits]
          · have hle := (List.dropWhile_suffix (l := tail) Char.isDigit).length_le
            rw [if_neg hdigits] at h
            dsimp only at h
            rw [h, List.length_cons] at hle
            omega
        · rw [hplain hc]
  · by_cases hc : c = '.'
    · subst hc
      simp only [List.cons_append, scanFraction] at h ⊢
      by_cases hdigits : ((text ++ rest).takeWhile Char.isDigit).isEmpty = true
      · have htake := takeWhile_eq_nil_of_append (List.isEmpty_iff.mp hdigits)
        rw [if_pos hdigits, ← List.cons_append] at h
        obtain rfl := List.append_cancel_right h
        simp [hdigits, htake]
      · rw [if_neg hdigits] at h
        obtain ⟨htake, hdrop⟩ := while_cut h
        rw [htake, if_neg hdigits, if_neg hdigits, hdrop]
    · rw [List.cons_append, hplain hc, ← List.cons_append] at h
      obtain rfl := List.append_cancel_right h
      rw [List.cons_append, hplain hc, hplain hc]

theorem cuts_scanSign : Cuts scanSign := by
  have hplain {c : Char} (hminus : c ≠ '-') (hplus : c ≠ '+') (tail : List Char) :
      scanSign (c :: tail) = (false, c :: tail) := by
    rw [scanSign]
    · exact fun _ he => hminus (List.cons.inj he).1
    · exact fun _ he => hplus (List.cons.inj he).1
  refine cuts_of false rfl scanSign_suffix (fun input h => ?_)
    fun c text rest after h => ?_
  · unfold scanSign at h ⊢
    split at h <;> simp_all
  · by_cases hminus : c = '-'
    · subst hminus
      have hrest : text ++ rest = after ++ rest := h
      rw [List.append_cancel_right hrest]
      rfl
    · by_cases hplus : c = '+'
      · subst hplus
        have hrest : text ++ rest = after ++ rest := h
        rw [List.append_cancel_right hrest]
        rfl
      · rw [List.cons_append, hplain hminus hplus, ← List.cons_append] at h
        obtain rfl := List.append_cancel_right h
        rw [List.cons_append, hplain hminus hplus, hplain hminus hplus]

-- No more digits stand behind a sign if the text goes on with fewer.
theorem digits_behind_sign (h : (scanSign (text ++ rest)).2.takeWhile Char.isDigit = []) :
    (scanSign text).2.takeWhile Char.isDigit = [] := by
  unfold scanSign at h ⊢
  split
  · exact takeWhile_eq_nil_of_append h
  · exact takeWhile_eq_nil_of_append h
  · rename_i hminus hplus
    cases text with
    | nil => rfl
    | cons c text =>
        split at h
        · rename_i he
          exact absurd (by rw [(List.cons.inj he).1]) (hminus text)
        · rename_i he
          exact absurd (by rw [(List.cons.inj he).1]) (hplus text)
        · exact takeWhile_eq_nil_of_append h

theorem scanExponent_of_digits {tail : List Char} (hletter : c = 'e' ∨ c = 'E')
    (hdigits : (scanSign tail).2.takeWhile Char.isDigit ≠ []) :
    scanExponent (c :: tail) =
      (some (if (scanSign tail).1 then
          -(digitsValue ((scanSign tail).2.takeWhile Char.isDigit) : Int)
        else digitsValue ((scanSign tail).2.takeWhile Char.isDigit)),
        (scanSign tail).2.dropWhile Char.isDigit) := by
  have hsome : ¬((scanSign tail).2.takeWhile Char.isDigit).isEmpty = true := by
    simpa using hdigits
  rw [scanExponent, if_pos hletter]
  dsimp only
  rw [if_neg hsome]

theorem scanExponent_of_none {tail : List Char}
    (h : (c = 'e' ∨ c = 'E') → (scanSign tail).2.takeWhile Char.isDigit = []) :
    scanExponent (c :: tail) = (none, c :: tail) := by
  rw [scanExponent]
  by_cases hletter : c = 'e' ∨ c = 'E'
  · rw [if_pos hletter]
    dsimp only
    rw [h hletter]
    rfl
  · rw [if_neg hletter]

theorem cuts_scanExponent : Cuts scanExponent := by
  refine cuts_of none rfl scanExponent_suffix (fun input h => ?_)
    fun c text rest after h => ?_
  · cases input with
    | nil => rfl
    | cons c tail =>
        by_cases hsome : (c = 'e' ∨ c = 'E') ∧ (scanSign tail).2.takeWhile Char.isDigit ≠ []
        · have hle := (List.dropWhile_suffix (l := (scanSign tail).2) Char.isDigit).length_le
          have hsign := (scanSign_suffix tail).length_le
          rw [scanExponent_of_digits hsome.1 hsome.2] at h
          dsimp only at h
          rw [h, List.length_cons] at hle
          omega
        · rw [scanExponent_of_none fun hletter => by simpa [hletter] using hsome]
  · rw [List.cons_append] at h ⊢
    by_cases hsome : (c = 'e' ∨ c = 'E') ∧
        (scanSign (text ++ rest)).2.takeWhile Char.isDigit ≠ []
    · obtain ⟨hletter, hdigits⟩ := hsome
      rw [scanExponent_of_digits hletter hdigits] at h ⊢
      dsimp only at h
      obtain ⟨behind, hbehind⟩ := exists_eq_append (h ▸ List.dropWhile_suffix Char.isDigit)
      have hsign := cuts_scanSign text rest behind hbehind
      rw [hbehind] at h hdigits ⊢
      obtain ⟨htake, hdrop⟩ := while_cut h
      rw [scanExponent_of_digits hletter (by rwa [hsign, htake]), hsign]
      dsimp only
      rw [htake, hdrop]
    · have hnone : (c = 'e' ∨ c = 'E') →
          (scanSign (text ++ rest)).2.takeWhile Char.isDigit = [] := by
        intro hletter
        simpa [hletter] using hsome
      rw [scanExponent_of_none hnone, ← List.cons_append] at h
      obtain rfl := List.append_cancel_right h
      rw [scanExponent_of_none hnone,
        scanExponent_of_none fun hletter => digits_behind_sign (hnone hletter)]

theorem cuts_scanRealSuffix : Cuts scanRealSuffix := by
  refine cuts_of none rfl scanRealSuffix_suffix (fun input h => ?_)
    fun c text rest after h => ?_
  · cases input with
    | nil => rfl
    | cons c tail =>
        cases hc : realSuffix? c with
        | none => simp [scanRealSuffix, hc]
        | some suffix => simp [scanRealSuffix, hc] at h
  · rw [List.cons_append] at h ⊢
    cases hc : realSuffix? c with
    | none =>
        simp only [scanRealSuffix, hc, ← List.cons_append] at h ⊢
        rw [List.append_cancel_right h]
    | some suffix =>
        simp only [scanRealSuffix, hc] at h ⊢
        rw [List.append_cancel_right h]

theorem cuts_scanLetter (lower upper : Char) : Cuts (scanLetter lower upper) := by
  refine cuts_of false rfl (scanLetter_suffix lower upper) (fun input h => ?_)
    fun c text rest after h => ?_
  · cases input with
    | nil => rfl
    | cons c tail =>
        by_cases hc : c = lower ∨ c = upper
        · simp [scanLetter, hc] at h
        · simp [scanLetter, hc]
  · rw [List.cons_append] at h ⊢
    by_cases hc : c = lower ∨ c = upper
    · simp only [scanLetter, if_pos hc] at h ⊢
      rw [List.append_cancel_right h]
    · simp only [scanLetter, if_neg hc, ← List.cons_append] at h ⊢
      rw [List.append_cancel_right h]

theorem cuts_scanIntSuffix : Cuts scanIntSuffix := by
  intro text rest after h
  have hcuts := cuts_scanLetter
  unfold scanIntSuffix at h ⊢
  rcases hfirst : scanLetter 'u' 'U' (text ++ rest) with ⟨unsigned, behind⟩
  rcases hsecond : scanLetter 'l' 'L' behind with ⟨long, left⟩
  have hleft : left <:+ behind := by simpa [hsecond] using scanLetter_suffix 'l' 'L' behind
  cases unsigned with
  | true =>
      have hafter : left = after ++ rest := by
        simp only [hfirst, hsecond] at h
        cases long <;> exact h
      obtain ⟨front, rfl, hu⟩ := (hcuts _ _).exists_front hfirst (hafter ▸ hleft)
      have hl := (hcuts 'l' 'L') front rest after (by rw [hsecond, hafter])
      rw [hsecond] at hl
      simp only [hsecond, hu, hl]
      cases long <;> rfl
  | false =>
      cases long with
      | false =>
          have hafter : left = after ++ rest := by simpa only [hfirst, hsecond] using h
          obtain ⟨front, rfl, hu⟩ := (hcuts _ _).exists_front hfirst (hafter ▸ hleft)
          have hl := (hcuts 'l' 'L') front rest after (by rw [hsecond, hafter])
          rw [hsecond] at hl
          simp only [hsecond, hu, hl]
      | true =>
          rcases hthird : scanLetter 'u' 'U' left with ⟨late, last⟩
          have hlast : last <:+ left := by simpa [hthird] using scanLetter_suffix 'u' 'U' left
          have hafter : last = after ++ rest := by
            simp only [hfirst, hsecond, hthird] at h
            cases late <;> exact h
          obtain ⟨front, rfl, hu⟩ := (hcuts _ _).exists_front hfirst
            (hafter ▸ hlast.trans hleft)
          obtain ⟨middle, rfl, hl⟩ := (hcuts _ _).exists_front hsecond (hafter ▸ hlast)
          have hlate := (hcuts 'u' 'U') middle rest after (by rw [hthird, hafter])
          rw [hthird] at hlate
          simp only [hsecond, hthird, hu, hl, hlate]
          cases late <;> rfl

theorem endsNumber_of_append (h : endsNumber (text ++ rest) = true) : endsNumber text = true := by
  cases text with
  | nil => rfl
  | cons c text => exact h

theorem scanNumber?_cut {kind : TokenKind}
    (h : scanNumber? (text ++ rest) = some (kind, after ++ rest)) :
    scanNumber? text = some (kind, after) := by
  rcases hfraction : scanFraction ((text ++ rest).dropWhile Char.isDigit) with ⟨fraction, left₁⟩
  rcases hexponent : scanExponent left₁ with ⟨exponent, left₂⟩
  rcases hsuffix : scanRealSuffix left₂ with ⟨suffix, left₃⟩
  rcases hint : scanIntSuffix left₃ with ⟨intSuffix, left₄⟩
  have hs₁ : left₁ <:+ (text ++ rest).dropWhile Char.isDigit := by
    have hsuffix := scanFraction_suffix ((text ++ rest).dropWhile Char.isDigit)
    rwa [hfraction] at hsuffix
  have hs₂ : left₂ <:+ left₁ := by simpa [hexponent] using scanExponent_suffix left₁
  have hs₃ : left₃ <:+ left₂ := by simpa [hsuffix] using scanRealSuffix_suffix left₂
  have hs₄ : left₄ <:+ left₃ := by simpa [hint] using scanIntSuffix_suffix left₃
  have hnumber := h
  simp only [scanNumber?, hfraction, hexponent, hsuffix, hint] at hnumber
  have hafter : after ++ rest <:+ left₃ := by
    split_ifs at hnumber
    · obtain ⟨-, rfl⟩ := Prod.mk.inj (Option.some.inj hnumber)
      exact List.suffix_refl _
    · obtain ⟨-, rfl⟩ := Prod.mk.inj (Option.some.inj hnumber)
      exact hs₄
  obtain ⟨front, hfront⟩ := exists_eq_append (hafter.trans (hs₃.trans (hs₂.trans hs₁)))
  obtain ⟨hdigits, hbehind⟩ := while_cut hfront
  rw [hfront] at hfraction
  obtain ⟨front₁, rfl, hfraction'⟩ :=
    cuts_scanFraction.exists_front hfraction (hafter.trans (hs₃.trans hs₂))
  obtain ⟨front₂, rfl, hexponent'⟩ :=
    cuts_scanExponent.exists_front hexponent (hafter.trans hs₃)
  obtain ⟨front₃, rfl, hsuffix'⟩ := cuts_scanRealSuffix.exists_front hsuffix hafter
  simp only [scanNumber?, hdigits, hbehind, hfraction', hexponent', hsuffix']
  split_ifs at hnumber with hreal hends hfits
  · obtain ⟨rfl, hleft⟩ := Prod.mk.inj (Option.some.inj hnumber)
    obtain rfl := List.append_cancel_right hleft
    rw [if_pos hreal, if_pos (endsNumber_of_append hends)]
  · obtain ⟨rfl, rfl⟩ := Prod.mk.inj (Option.some.inj hnumber)
    have hint' := cuts_scanIntSuffix front₃ rest after (by rw [hint])
    rw [Bool.and_eq_true] at hfits
    rw [if_neg hreal, hint', hint]
    dsimp only
    rw [if_pos (Bool.and_eq_true_iff.mpr ⟨hfits.1, endsNumber_of_append hfits.2⟩)]

-- Strings

theorem scanString?_length_lt {scanned : List Char}
    (h : scanString? input = some (scanned, after)) :
    after.length < input.length := by
  fun_induction scanString? input generalizing scanned after with
  | case1 => cases h
  | case2 tail =>
      cases h
      simp
  | case3 => cases h
  | case4 => cases h
  | case5 c tail ih =>
      obtain ⟨_, hscan, he⟩ := Option.map_eq_some_iff.mp h
      cases he
      have := ih hscan
      simp only [List.length_cons]
      omega
  | case6 c tail _ _ _ _ ih =>
      obtain ⟨_, hscan, he⟩ := Option.map_eq_some_iff.mp h
      cases he
      have := ih hscan
      simp only [List.length_cons]
      omega

theorem scanString?_cut {scanned : List Char}
    (h : scanString? (text ++ rest) = some (scanned, after ++ rest)) :
    scanString? text = some (scanned, after) := by
  fun_induction scanString? text generalizing scanned after with
  | case1 =>
      have hlt := scanString?_length_lt h
      rw [List.length_append, List.nil_append] at hlt
      omega
  | case2 tail =>
      obtain ⟨rfl, hafter⟩ := Prod.mk.inj (Option.some.inj h)
      rw [List.append_cancel_right hafter]
  | case3 => cases h
  | case4 =>
      cases rest with
      | nil => cases h
      | cons c rest =>
          rw [List.singleton_append, scanString?] at h
          obtain ⟨⟨_, left⟩, hscan, he⟩ := Option.map_eq_some_iff.mp h
          obtain ⟨rfl, rfl⟩ := Prod.mk.inj he
          have hlt := scanString?_length_lt hscan
          rw [List.length_append, List.length_cons] at hlt
          omega
  | case5 c tail ih =>
      rw [List.cons_append, List.cons_append, scanString?] at h
      obtain ⟨⟨_, left⟩, hscan, he⟩ := Option.map_eq_some_iff.mp h
      obtain ⟨rfl, rfl⟩ := Prod.mk.inj he
      rw [ih hscan]
      rfl
  | case6 c tail hquote hline hlast hescape ih =>
      have hslash : c ≠ '\\' := by
        intro hc
        cases tail with
        | nil => exact hlast hc rfl
        | cons d tail => exact hescape d tail hc rfl
      rw [List.cons_append, scanString?] at h
      · obtain ⟨⟨_, left⟩, hscan, he⟩ := Option.map_eq_some_iff.mp h
        obtain ⟨rfl, rfl⟩ := Prod.mk.inj he
        rw [ih hscan]
        rfl
      · exact hquote
      · exact hline
      · exact fun hc => absurd hc hslash
      · exact fun _ _ hc => absurd hc hslash

-- Signs

theorem scanSymbol?_cut {sign : Symbol}
    (h : scanSymbol? (text ++ rest) = some (sign, after ++ rest)) :
    scanSymbol? text = some (sign, after) := by
  cases text with
  | nil =>
      cases rest with
      | nil => cases h
      | cons c rest => exact absurd (scanSymbol?_suffix h) not_append_suffix
  | cons c text =>
      cases text with
      | nil =>
          cases rest with
          | nil => simpa using h
          | cons d rest =>
              rw [List.singleton_append, scanSymbol?] at h
              cases hpair : pairSymbol? c d with
              | some pair =>
                  rw [hpair] at h
                  have hle := congrArg (fun found => found.2.length) (Option.some.inj h)
                  simp only [List.length_append, List.length_cons] at hle
                  omega
              | none =>
                  rw [hpair] at h
                  obtain ⟨_, hsingle, he⟩ := Option.map_eq_some_iff.mp h
                  obtain ⟨rfl, hafter⟩ := Prod.mk.inj he
                  rw [List.self_eq_append_left.mp hafter, scanSymbol?, hsingle]
                  rfl
      | cons d text =>
          rw [List.cons_append, List.cons_append, scanSymbol?] at h
          rw [scanSymbol?]
          cases hpair : pairSymbol? c d with
          | some pair =>
              rw [hpair] at h
              obtain ⟨rfl, hafter⟩ := Prod.mk.inj (Option.some.inj h)
              rw [List.append_cancel_right hafter]
          | none =>
              rw [hpair, ← List.cons_append] at h
              obtain ⟨_, hsingle, he⟩ := Option.map_eq_some_iff.mp h
              obtain ⟨rfl, hafter⟩ := Prod.mk.inj he
              rw [List.append_cancel_right hafter] at *
              rw [hsingle]
              rfl

-- Tokens

-- A token is read as far as it goes, whatever stands behind it.
theorem scanToken?_cut {kind : TokenKind}
    (h : scanToken? (text ++ rest) = some (kind, after ++ rest)) :
    scanToken? text = some (kind, after) := by
  cases text with
  | nil =>
      cases rest with
      | nil => cases h
      | cons c rest => exact absurd (scanToken?_suffix h) not_append_suffix
  | cons c text =>
      rw [List.cons_append] at h
      simp only [scanToken?, ← List.cons_append] at h ⊢
      split_ifs at h ⊢ with hdigit hquote hword
      · exact scanNumber?_cut h
      · obtain ⟨⟨_, left⟩, hscan, he⟩ := Option.map_eq_some_iff.mp h
        obtain ⟨rfl, rfl⟩ := Prod.mk.inj he
        rw [scanString?_cut hscan]
        rfl
      · obtain ⟨rfl, hafter⟩ := Prod.mk.inj (Option.some.inj h)
        obtain ⟨htake, hdrop⟩ := while_cut hafter
        rw [scanWord, htake, hdrop]
      · obtain ⟨⟨_, left⟩, hscan, he⟩ := Option.map_eq_some_iff.mp h
        obtain ⟨rfl, rfl⟩ := Prod.mk.inj he
        rw [scanSymbol?_cut hscan]
        rfl

end EventScript.Lexer
