import EventScript.Proofs.Token.Spelling

namespace EventScript.Lexer

variable {c : Char} {input rest after : List Char} {total : Nat} {tokens : List Token}

-- A text that is split, with a line end and more text behind it

theorem closeComment?_append (h : closeComment? input = some after) (rest : List Char) :
    closeComment? (input ++ rest) = some (after ++ rest) := by
  fun_induction closeComment? input with
  | case1 => cases h
  | case2 tail =>
      cases h
      rfl
  | case3 c tail hclose ih =>
      rw [List.cons_append, closeComment?, ih h]
      rintro behind rfl hbehind
      cases tail with
      | nil => cases h
      | cons d tail =>
          obtain ⟨rfl, -⟩ := List.cons.inj hbehind
          exact hclose tail rfl rfl

-- A comment that goes on to the end of its line ends there.
theorem skipTrivia_line (input more : List Char) :
    skipTrivia (input ++ '\n' :: more) = skipTrivia (skipTrivia input ++ '\n' :: more) := by
  have hstops (c : Char) (tail : List Char) (h : '\n' :: more = c :: tail) :
      decide (c ≠ '\n') = false := by
    obtain ⟨rfl, -⟩ := List.cons.inj h
    rfl
  fun_induction skipTrivia input with
  | case1 => rfl
  | case2 rest ih =>
      rw [List.cons_append, List.cons_append, skipTrivia, dropWhile_append_stop hstops, ih]
  | case3 rest after hclose ih =>
      have hmore := closeComment?_append hclose ('\n' :: more)
      rw [List.cons_append, List.cons_append, skipTrivia]
      split
      · rename_i found hfound
        rw [hmore] at hfound
        cases hfound
        exact ih
      · rename_i hnone
        rw [hmore] at hnone
        cases hnone
  | case4 rest hclose => rfl
  | case5 c rest hline hcomment hblank ih =>
      rw [List.cons_append, skipTrivia_blank hblank, ih]
  | case6 c rest hline hcomment hblank => rfl

-- A line end makes no comment of what is in front of it.
theorem eq_append_line {d : Char} {more tail : List Char} (hd : d ≠ '\n')
    (h : rest ++ '\n' :: more = d :: tail) : ∃ behind, rest = d :: behind := by
  cases rest with
  | nil => exact absurd (List.cons.inj h).1.symm hd
  | cons e behind => exact ⟨behind, by rw [(List.cons.inj h).1]⟩

theorem skipTrivia_keeps (h : skipTrivia input = c :: rest)
    (hopens : opensComment (c :: rest) = false) (more : List Char) :
    skipTrivia (c :: rest ++ '\n' :: more) = c :: rest ++ '\n' :: more := by
  fun_induction skipTrivia input with
  | case1 => cases h
  | case2 tail ih => exact ih h
  | case3 tail after hclose ih => exact ih h
  | case4 tail hclose =>
      cases h
      cases hopens
  | case5 d tail hline hcomment hblank ih => exact ih h
  | case6 d tail hline hcomment hblank =>
      cases h
      rw [List.cons_append, skipTrivia, if_neg hblank]
      · intro behind hc hbehind
        obtain ⟨more, hrest⟩ := eq_append_line (by decide) hbehind
        exact hline more hc hrest
      · intro behind hc hbehind
        obtain ⟨more, hrest⟩ := eq_append_line (by decide) hbehind
        exact hcomment more hc hrest

theorem opensComment_line (hopens : opensComment (c :: rest) = false) (more : List Char) :
    opensComment (c :: rest ++ '\n' :: more) = false := by
  unfold opensComment
  split
  · rename_i tail he
    obtain ⟨rfl, hbehind⟩ := List.cons.inj he
    obtain ⟨behind, rfl⟩ := eq_append_line (by decide) hbehind
    cases hopens
  · rfl

-- The line end shields a text from what stands behind it.
theorem tokensFrom_line (h : tokensFrom total input = .ok tokens) (length : Nat)
    (more : List Char) :
    ∃ others stop, kinds tokens = kinds (others ++ [⟨.eof, stop⟩]) ∧
      tokensFrom length (input ++ '\n' :: more) = (tokensFrom length more).map (others ++ ·) := by
  obtain ⟨n, hn⟩ : ∃ n, input.length = n := ⟨_, rfl⟩
  induction n using Nat.strongRecOn generalizing input tokens with
  | _ n ih =>
      have hline := skipTrivia_line input more
      rcases tokensFrom_cases h with
        ⟨hs, rfl⟩ | ⟨c, rest, kind, after, left, hs, hopens, hscan, hafter, rfl⟩
      · rw [hs, List.nil_append, skipTrivia_blank (by decide)] at hline
        rw [tokensFrom_eq, hline, ← tokensFrom_eq]
        refine ⟨[], _, rfl, ?_⟩
        cases tokensFrom length more <;> rfl
      · have hskip := (skipTrivia_suffix input).length_le
        have hle := (scanToken?_suffix hscan).length_le
        rw [hs, List.length_cons] at hskip
        obtain ⟨others, stop, hkinds, hothers⟩ := ih after.length (by omega) hafter rfl
        have hbreak : Breaks ('\n' :: more) := breaks_cons rfl (by decide)
        rw [hs, skipTrivia_keeps hs hopens] at hline
        obtain ⟨span, htokens⟩ := tokensFrom_token length hline (opensComment_line hopens more)
          (scanToken?_append hbreak hscan)
        refine ⟨⟨kind, span⟩ :: others, stop, by rw [kinds_cons, hkinds]; rfl, ?_⟩
        rw [htokens, hothers]
        cases tokensFrom length more <;> rfl

-- Signs that make no other sign and no comment of what stands behind them.
def standsAlone : Symbol → Bool
  | .comma | .semicolon | .lparen | .rparen | .lbracket | .rbracket | .question => true
  | _ => false

theorem tokensFrom_alone (total : Nat) (sign : Symbol) (h : standsAlone sign = true)
    (rest : List Char) :
    ∃ span, tokensFrom total (sign.text.toList ++ rest) =
      (tokensFrom total rest).map (⟨.symbol sign, span⟩ :: ·) := by
  have hscan : scanToken? (sign.text.toList ++ rest) = some (.symbol sign, rest) := by
    cases sign with
    | comma | semicolon | lparen | rparen | lbracket | rbracket | question =>
        cases rest <;> rfl
    | _ => cases h
  have hafter : opensAfterSign sign = true := by cases sign <;> first | rfl | cases h
  obtain ⟨c, tail, htext, hblank, -, hopens⟩ := sign_text sign
  rw [htext] at hscan ⊢
  exact tokensFrom_scan total hblank (fun hslash => absurd hslash (hopens hafter).2.1) hscan

-- A text that is split can stand behind an opening parenthesis, with a line end behind it.
theorem spells_opened (h : tokensFrom total input = .ok tokens) {spelled : List TokenKind}
    (hspelled : kinds tokens = spelled ++ [.eof]) :
    Spells ('(' :: (input ++ ['\n'])) (.symbol .lparen :: spelled) := by
  refine ⟨⟨'(', _, rfl, by decide⟩, fun length rest _ => ?_⟩
  obtain ⟨others, stop, hkinds, hline⟩ := tokensFrom_line h length rest
  obtain ⟨span, hfirst⟩ := tokensFrom_alone length .lparen rfl (input ++ '\n' :: rest)
  have hothers : kinds others = spelled := by
    rw [hspelled, kinds_append] at hkinds
    exact (List.append_cancel_right hkinds).symm
  refine ⟨⟨.symbol .lparen, span⟩ :: others, by rw [kinds_cons, hothers], ?_⟩
  rw [List.cons_append, List.append_assoc]
  refine hfirst.trans ?_
  rw [hline]
  cases tokensFrom length rest <;> rfl

-- What is left behind the first tokens is split into the others.
theorem tokensFrom_behind {first : List Token} (h : tokensFrom total input = .ok (first ++ tokens))
    (hne : tokens ≠ []) : ∃ behind, tokensFrom total behind = .ok tokens := by
  induction first generalizing input with
  | nil => exact ⟨input, h⟩
  | cons token first ih =>
      rcases tokensFrom_cases h with ⟨-, heof⟩ | ⟨_, _, _, after, more, -, -, -, hafter, hmore⟩
      · exact absurd (List.append_eq_nil_iff.mp (List.cons.inj heof).2).2 hne
      · rw [← (List.cons.inj hmore).2] at hafter
        exact ih hafter

end EventScript.Lexer
