import EventScript.Proofs.Token.Spelling

namespace EventScript.Lexer

-- Text that stands between tokens: blanks and comments, each of them whole. A comment of one line
-- goes on to the end of the line, and only the last one to the end of the source.
inductive Skipped : (atEnd : Bool) → List Char → Prop
  | nil {atEnd : Bool} : Skipped atEnd []
  | blank {atEnd : Bool} {c : Char} {rest : List Char} :
      Text.isBlank c → Skipped atEnd rest → Skipped atEnd (c :: rest)
  | line {atEnd : Bool} {comment rest : List Char} :
      '\n' ∉ comment → Skipped atEnd rest → Skipped atEnd ('/' :: '/' :: (comment ++ '\n' :: rest))
  | block {atEnd : Bool} {comment rest : List Char} :
      ¬ ['*', '/'] <:+: comment ++ ['*'] → Skipped atEnd rest →
      Skipped atEnd ('/' :: '*' :: (comment ++ '*' :: '/' :: rest))
  | lastLine {comment : List Char} : '\n' ∉ comment → Skipped true ('/' :: '/' :: comment)

variable {c : Char} {input gap rest text comment after : List Char} {atEnd : Bool}

-- What the scanner passes over

-- A comment is closed at the first sign that closes it.
theorem eq_append_of_closeComment? (h : closeComment? input = some after) :
    ∃ comment, input = comment ++ '*' :: '/' :: after ∧ ¬ ['*', '/'] <:+: comment ++ ['*'] := by
  fun_induction closeComment? input with
  | case1 => cases h
  | case2 tail =>
      cases h
      exact ⟨[], rfl, fun hsub => absurd hsub.length_le (by decide)⟩
  | case3 c tail hclose ih =>
      obtain ⟨comment, rfl, hfirst⟩ := ih h
      refine ⟨c :: comment, rfl, fun hsub => ?_⟩
      rw [List.cons_append, List.infix_cons_iff] at hsub
      rcases hsub with hfront | hsub
      · rw [List.cons_prefix_cons] at hfront
        obtain ⟨rfl, behind, hbehind⟩ := hfront
        cases comment with
        | nil => cases hbehind
        | cons d comment =>
            obtain ⟨rfl, -⟩ := List.cons.inj hbehind
            exact hclose _ rfl rfl
      · exact hfirst hsub

theorem closeComment?_comment (h : ¬ ['*', '/'] <:+: comment ++ ['*']) (rest : List Char) :
    closeComment? (comment ++ '*' :: '/' :: rest) = some rest := by
  induction comment with
  | nil => rfl
  | cons c comment ih =>
      have hcomment : ¬ ['*', '/'] <:+: comment ++ ['*'] :=
        fun hsub => h (hsub.trans (List.suffix_cons c _).isInfix)
      rw [List.cons_append, closeComment?, ih hcomment]
      rintro tail rfl hbehind
      cases comment with
      | nil => cases hbehind
      | cons d comment =>
          obtain ⟨rfl, -⟩ := List.cons.inj hbehind
          exact h ⟨[], comment ++ ['*'], rfl⟩

theorem ne_line_of_not_mem (h : '\n' ∉ comment) : ∀ d ∈ comment, decide (d ≠ '\n') = true :=
  fun _ hd => decide_eq_true fun he => h (he ▸ hd)

theorem skipTrivia_line_comment (h : '\n' ∉ comment) (rest : List Char) :
    skipTrivia ('/' :: '/' :: (comment ++ '\n' :: rest)) = skipTrivia rest := by
  rw [skipTrivia, List.dropWhile_append_of_pos (ne_line_of_not_mem h),
    List.dropWhile_cons_of_neg (by simp), skipTrivia_blank (by decide)]

theorem skipTrivia_block_comment (h : ¬ ['*', '/'] <:+: comment ++ ['*']) (rest : List Char) :
    skipTrivia ('/' :: '*' :: (comment ++ '*' :: '/' :: rest)) = skipTrivia rest := by
  have hclose := closeComment?_comment h rest
  rw [skipTrivia]
  split
  · rename_i found hfound
    rw [hclose] at hfound
    cases hfound
    rfl
  · rename_i hnone
    rw [hclose] at hnone
    cases hnone

theorem skipTrivia_last_comment (h : '\n' ∉ comment) : skipTrivia ('/' :: '/' :: comment) = [] := by
  have hnone : (comment ++ []).dropWhile (· ≠ '\n') = [].dropWhile (· ≠ '\n') :=
    List.dropWhile_append_of_pos (ne_line_of_not_mem h)
  rw [List.append_nil, List.dropWhile_nil] at hnone
  rw [skipTrivia, hnone, skipTrivia]

-- All of a gap is passed over, and what stands behind it is looked at as if it stood alone.
theorem Skipped.skipTrivia_append (h : Skipped atEnd gap) (hrest : atEnd = true → rest = []) :
    skipTrivia (gap ++ rest) = skipTrivia rest := by
  induction h with
  | nil => rfl
  | blank hc _ ih => rw [List.cons_append, skipTrivia_blank hc, ih hrest]
  | line hcomment _ ih =>
      rw [List.cons_append, List.cons_append, List.append_assoc, List.cons_append,
        skipTrivia_line_comment hcomment, ih hrest]
  | block hcomment _ ih =>
      rw [List.cons_append, List.cons_append, List.append_assoc, List.cons_append, List.cons_append,
        skipTrivia_block_comment hcomment, ih hrest]
  | lastLine hcomment =>
      rw [hrest rfl, List.append_nil, skipTrivia_last_comment hcomment, skipTrivia]

theorem exists_line (input : List Char) :
    '\n' ∉ input ∨ ∃ comment rest, input = comment ++ '\n' :: rest ∧ '\n' ∉ comment := by
  by_cases h : '\n' ∈ input
  · obtain ⟨comment, rest, rfl, hcomment⟩ := List.eq_append_cons_of_mem h
    exact .inr ⟨comment, rest, rfl, hcomment⟩
  · exact .inl h

-- Everything that is passed over is a gap. The induction is on the length, since behind a comment
-- that ends with its line the line end is passed over as well.
theorem exists_skipped (input : List Char) :
    ∃ gap, input = gap ++ skipTrivia input ∧ Skipped (skipTrivia input).isEmpty gap := by
  obtain ⟨n, hn⟩ : ∃ n, input.length = n := ⟨_, rfl⟩
  induction n using Nat.strongRecOn generalizing input with
  | _ n ih =>
      fun_cases skipTrivia input with
      | case1 => exact ⟨[], rfl, .nil⟩
      | case2 rest =>
          rcases exists_line rest with hlast | ⟨comment, behind, rfl, hcomment⟩
          · have hskip := skipTrivia_last_comment hlast
            rw [skipTrivia] at hskip
            rw [hskip]
            exact ⟨_, (List.append_nil _).symm, .lastLine hlast⟩
          · have hskip := skipTrivia_line_comment hcomment behind
            rw [skipTrivia] at hskip
            simp only [List.length_cons, List.length_append] at hn
            obtain ⟨gap, hgap, hskipped⟩ := ih behind.length (by omega) behind rfl
            rw [hskip]
            refine ⟨'/' :: '/' :: (comment ++ '\n' :: gap), ?_, .line hcomment hskipped⟩
            simp [← hgap]
      | case3 rest after hclose =>
          obtain ⟨comment, rfl, hfirst⟩ := eq_append_of_closeComment? hclose
          simp only [List.length_cons, List.length_append] at hn
          obtain ⟨gap, hgap, hskipped⟩ := ih after.length (by omega) after rfl
          refine ⟨'/' :: '*' :: (comment ++ '*' :: '/' :: gap), ?_, .block hfirst hskipped⟩
          simp [← hgap]
      | case4 rest hclose => exact ⟨[], rfl, .nil⟩
      | case5 c rest hline hcomment hblank =>
          rw [List.length_cons] at hn
          obtain ⟨gap, hgap, hskipped⟩ := ih rest.length (by omega) rest rfl
          exact ⟨c :: gap, by rw [List.cons_append, ← hgap], .blank hblank hskipped⟩
      | case6 c rest hline hcomment hblank => exact ⟨[], rfl, .nil⟩

-- What a token can start with

-- Nothing is passed over in front of the text, and it opens no comment.
def Bare : List Char → Prop
  | [] => True
  | c :: rest => Text.isBlank c = false ∧ (c = '/' → rest.head? ≠ some '/' ∧ rest.head? ≠ some '*')

theorem bare_cons (hblank : Text.isBlank c = false)
    (hslash : c = '/' → ∀ d tail, rest = d :: tail → d ≠ '/' ∧ d ≠ '*') : Bare (c :: rest) := by
  refine ⟨hblank, fun hc => ?_⟩
  cases rest with
  | nil => exact ⟨nofun, nofun⟩
  | cons d tail =>
      obtain ⟨hline, hblock⟩ := hslash hc d tail rfl
      exact ⟨fun he => hline (Option.some.inj he), fun he => hblock (Option.some.inj he)⟩

namespace Bare

theorem skipTrivia_eq (h : Bare input) : skipTrivia input = input := by
  cases input with
  | nil => rw [skipTrivia]
  | cons c rest =>
      obtain ⟨hblank, hslash⟩ := h
      rw [skipTrivia, if_neg (by simp [hblank])]
      · rintro tail hc rfl
        exact (hslash hc).1 rfl
      · rintro tail hc rfl
        exact (hslash hc).2 rfl

theorem opensComment_eq (h : Bare input) : opensComment input = false := by
  unfold opensComment
  split
  · exact absurd rfl (h.2 rfl).2
  · rfl

theorem of_append (h : Bare (text ++ rest)) : Bare text := by
  cases text with
  | nil => trivial
  | cons c text =>
      obtain ⟨hblank, hslash⟩ := h
      refine bare_cons hblank fun hc d tail he => ?_
      subst he
      obtain ⟨hline, hblock⟩ := hslash hc
      exact ⟨fun he => hline (congrArg some he), fun he => hblock (congrArg some he)⟩

end Bare

-- What is left behind a gap is bare, unless it is a comment that does not end.
theorem bare_skipTrivia (h : opensComment (skipTrivia input) = false) :
    Bare (skipTrivia input) := by
  fun_induction skipTrivia input with
  | case1 => trivial
  | case2 rest ih => exact ih h
  | case3 rest after hclose ih => exact ih h
  | case4 rest hclose => cases h
  | case5 c rest hline hcomment hblank ih => exact ih h
  | case6 c rest hline hcomment hblank =>
      rw [Bool.not_eq_true] at hblank
      refine bare_cons hblank fun hc d tail he => ⟨?_, ?_⟩
      · rintro rfl
        exact hline tail hc he
      · rintro rfl
        exact hcomment tail hc he

end EventScript.Lexer
