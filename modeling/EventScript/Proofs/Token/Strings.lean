import EventScript.Proofs.Token.Reaching

namespace EventScript

namespace Lexer

-- What can stand behind the opening quote of a string that is still open: characters that stand for
-- themselves, and after a backslash any character, a line feed as well.
inductive Inside : List Char → Prop
  | nil : Inside []
  | plain {c : Char} {content : List Char} :
      c ≠ '"' → c ≠ '\\' → c ≠ '\n' → Inside content → Inside (c :: content)
  | escape {c : Char} {content : List Char} : Inside content → Inside ('\\' :: c :: content)

-- Where a string that is still open cannot go on: at the end of the source, a backslash in front of
-- it or not, and at the end of the line.
inductive Breaking : List Char → Prop
  | source : Breaking []
  | backslash : Breaking ['\\']
  | line {rest : List Char} : Breaking ('\n' :: rest)

variable {start : Nat} {input content scanned rest behind text after : List Char} {value : String}
  {kind : TokenKind} {token : Token} {tokens : List Token}

namespace Inside

-- A line feed inside a string stands behind a backslash that opens an escape.
theorem escaped_line {front : List Char} (h : Inside (front ++ '\n' :: rest)) :
    ∃ inner, front = inner ++ ['\\'] ∧ Inside inner := by
  generalize hcontent : front ++ '\n' :: rest = content at h
  induction h generalizing front with
  | nil => exact absurd hcontent (by simp)
  | @plain c content hquote hslash hline _ ih =>
      cases front with
      | nil => exact absurd (List.cons.inj hcontent).1.symm hline
      | cons d front =>
          obtain ⟨rfl, hrest⟩ := List.cons.inj hcontent
          obtain ⟨inner, rfl, hinner⟩ := ih hrest
          exact ⟨d :: inner, rfl, .plain hquote hslash hline hinner⟩
  | @escape c content _ ih =>
      cases front with
      | nil => exact absurd (List.cons.inj hcontent).1 (by decide)
      | cons d front =>
          obtain ⟨rfl, hrest⟩ := List.cons.inj hcontent
          cases front with
          | nil => exact ⟨[], rfl, .nil⟩
          | cons e front =>
              obtain ⟨inner, rfl, hinner⟩ := ih (List.cons.inj hrest).2
              exact ⟨'\\' :: e :: inner, rfl, .escape hinner⟩

theorem scanString?_append (h : Inside content) (hnone : scanString? behind = none) :
    scanString? (content ++ behind) = none := by
  induction h with
  | nil => exact hnone
  | @plain c content hquote hslash hline _ ih =>
      rw [List.cons_append, scanString?_plain hquote hslash hline, ih]
      rfl
  | escape _ ih =>
      rw [List.cons_append, List.cons_append, scanString?, ih]
      rfl

end Inside

theorem inside_of_scanString? (h : scanString? input = some (scanned, rest)) :
    ∃ content, input = content ++ '"' :: rest ∧ Inside content := by
  fun_induction scanString? input generalizing scanned rest with
  | case1 => cases h
  | case2 tail =>
      cases h
      exact ⟨[], rfl, .nil⟩
  | case3 => cases h
  | case4 => cases h
  | case5 c tail ih =>
      obtain ⟨⟨inner, left⟩, hscan, he⟩ := Option.map_eq_some_iff.mp h
      cases he
      obtain ⟨content, rfl, hcontent⟩ := ih hscan
      exact ⟨'\\' :: c :: content, rfl, .escape hcontent⟩
  | case6 c tail hquote hline hlast hescape ih =>
      obtain ⟨⟨inner, left⟩, hscan, he⟩ := Option.map_eq_some_iff.mp h
      cases he
      have hslash := ne_backslash hlast hescape
      obtain ⟨content, rfl, hcontent⟩ := ih hscan
      exact ⟨c :: content, rfl, .plain hquote hslash hline hcontent⟩

-- A string does not close exactly if, open still, it comes to where it cannot go on.
theorem scanString?_eq_none_iff :
    scanString? input = none ↔
      ∃ content behind, input = content ++ behind ∧ Inside content ∧ Breaking behind := by
  constructor
  · intro h
    fun_induction scanString? input with
    | case1 => exact ⟨[], [], rfl, .nil, .source⟩
    | case2 => cases h
    | case3 tail => exact ⟨[], _, rfl, .nil, .line⟩
    | case4 => exact ⟨[], _, rfl, .nil, .backslash⟩
    | case5 c tail ih =>
        obtain ⟨content, behind, rfl, hcontent, hbreaking⟩ := ih (Option.map_eq_none_iff.mp h)
        exact ⟨'\\' :: c :: content, behind, rfl, .escape hcontent, hbreaking⟩
    | case6 c tail hquote hline hlast hescape ih =>
        have hslash := ne_backslash hlast hescape
        obtain ⟨content, behind, rfl, hcontent, hbreaking⟩ := ih (Option.map_eq_none_iff.mp h)
        exact ⟨c :: content, behind, rfl, .plain hquote hslash hline hcontent, hbreaking⟩
  · rintro ⟨content, behind, rfl, hcontent, hbreaking⟩
    refine hcontent.scanString?_append ?_
    cases hbreaking <;> rfl

-- Strings among the tokens

theorem scanToken?_quote (rest : List Char) :
    scanToken? ('"' :: rest) =
      (scanString? rest).map fun found => (.str (String.ofList found.1), found.2) :=
  rfl

theorem Lexeme.inside (h : Lexeme text (.str value) after) :
    ∃ content, text = '"' :: (content ++ ['"']) ∧ Inside content := by
  have hscan := h.scans
  cases text with
  | nil => exact absurd rfl h.ne_nil
  | cons c text =>
      rw [List.cons_append] at hscan
      simp only [scanToken?] at hscan
      split_ifs at hscan with hdigit hquote hword
      · simp only [scanNumber?] at hscan
        split_ifs at hscan <;> cases hscan
      · obtain ⟨⟨scanned, left⟩, hstring, he⟩ := Option.map_eq_some_iff.mp hscan
        cases he
        subst hquote
        obtain ⟨content, hinput, hcontent⟩ := inside_of_scanString? hstring
        rw [List.append_cons] at hinput
        exact ⟨content, by rw [List.append_cancel_right hinput], hcontent⟩
      · simp only [scanWord, wordKind] at hscan
        split at hscan <;> cases hscan
      · obtain ⟨_, _, he⟩ := Option.map_eq_some_iff.mp hscan
        cases he

theorem Tiled.exists_lexeme (h : Tiled start input tokens) (hmem : token ∈ tokens)
    (hkind : token.kind ≠ .eof) :
    ∃ front text behind, input = front ++ text ++ behind ∧
      token.span = ⟨start + byteLength front, start + byteLength front + byteLength text⟩ ∧
      Lexeme text token.kind behind := by
  induction h with
  | last => exact absurd (congrArg Token.kind (List.mem_singleton.mp hmem)) hkind
  | @token start stop gap text after kind tokens hgap hlexeme hstop _ ih =>
      rcases List.mem_cons.mp hmem with rfl | hmem
      · exact ⟨gap, text, after, rfl, by rw [hstop], hlexeme⟩
      · obtain ⟨front, found, behind, rfl, hspan, hfound⟩ := ih hmem
        refine ⟨gap ++ text ++ front, found, behind, by simp only [List.append_assoc], ?_, hfound⟩
        rw [hspan, hstop]
        simp only [byteLength_append, Nat.add_assoc]

theorem faultAt_eq_unterminatedString {c : Char} : faultAt c = .unterminatedString ↔ c = '"' := by
  unfold faultAt
  split_ifs with hquote hdigit
  · exact iff_of_true rfl hquote
  · exact iff_of_false nofun hquote
  · exact iff_of_false nofun hquote

end Lexer

open Lexer

-- A string stands in one line, but for line feeds directly behind a backslash that opens an escape. A
-- string that is open still at any other end of a line, or at the end of the source, is reported at
-- its opening quote, and nothing else is reported as such.
theorem tokenize_strings (source : String) :
    (∀ tokens, tokenize source = .ok tokens → ∀ token ∈ tokens, ∀ value, token.kind = .str value →
      ∃ content, token.span.slice? source = some (String.ofList ('"' :: (content ++ ['"']))) ∧
        Inside content ∧
        ∀ front rest, content = front ++ '\n' :: rest →
          ∃ inner, front = inner ++ ['\\'] ∧ Inside inner) ∧
    ∀ span, tokenize source = .error ⟨.unterminatedString, span⟩ ↔
      ∃ tokens content behind,
        Reaches 0 source.toList tokens span.start ('"' :: (content ++ behind)) ∧
        Inside content ∧ Breaking behind ∧ span.stop = span.start + 1 := by
  refine ⟨fun tokens htokens token hmem value hkind => ?_, fun span => ?_⟩
  · have hne : token.kind ≠ .eof := by
      rw [hkind]
      nofun
    obtain ⟨front, text, behind, hsource, hspan, hlexeme⟩ :=
      (tokenize_eq_ok_iff.mp htokens).exists_lexeme hmem hne
    rw [Nat.zero_add] at hspan
    rw [hkind] at hlexeme
    obtain ⟨content, rfl, hcontent⟩ := hlexeme.inside
    refine ⟨content, Span.slice?_eq front _ behind hsource ?_ ?_, hcontent, ?_⟩
    · rw [hspan]
    · rw [hspan]
    · rintro before rest rfl
      exact hcontent.escaped_line
  · rw [tokenize_eq_error_iff]
    constructor
    · rintro ⟨tokens, c, rest, hreaches, hfails, hstop⟩
      generalize hfault : SyntaxFault.unterminatedString = fault at hfails
      cases hfails with
      | comment => cases hfault
      | token _ hscan =>
          obtain rfl := faultAt_eq_unterminatedString.mp hfault.symm
          rw [scanToken?_quote, Option.map_eq_none_iff] at hscan
          obtain ⟨content, behind, rfl, hcontent, hbreaking⟩ := scanString?_eq_none_iff.mp hscan
          exact ⟨tokens, content, behind, hreaches, hcontent, hbreaking, hstop⟩
    · rintro ⟨tokens, content, behind, hreaches, hcontent, hbreaking, hstop⟩
      have hscan : scanToken? ('"' :: (content ++ behind)) = none := by
        rw [scanToken?_quote, Option.map_eq_none_iff]
        exact scanString?_eq_none_iff.mpr ⟨content, behind, rfl, hcontent, hbreaking⟩
      exact ⟨tokens, '"', content ++ behind, hreaches, .token rfl hscan, hstop⟩

theorem tokenize_escaped_line :
    tokenize "\"a\\\nb\"" = .ok [⟨.str "a\\\nb", ⟨0, 6⟩⟩, ⟨.eof, ⟨6, 6⟩⟩] :=
  tokenize_lexeme ⟨by decide, bare_cons (by decide) fun hc => absurd hc (by decide), by decide +kernel⟩

-- A string with a line feed behind its backslash, and one that its line leaves open.
theorem tokenize_strings_escaped_and_open :
    (∃ content,
        (Span.mk 0 6).slice? "\"a\\\nb\"" = some (String.ofList ('"' :: (content ++ ['"']))) ∧
        Inside content ∧
        ∀ front rest, content = front ++ '\n' :: rest →
          ∃ inner, front = inner ++ ['\\'] ∧ Inside inner) ∧
      tokenize "x \"a\nb\"" = .error ⟨.unterminatedString, ⟨2, 3⟩⟩ := by
  have hword : Lexeme ['x'] (.ident "x") (' ' :: '"' :: 'a' :: "\nb\"".toList) :=
    ⟨by decide, bare_cons (by decide) fun hc => absurd hc (by decide), by decide +kernel⟩
  have hquote : skipTrivia ('"' :: 'a' :: "\nb\"".toList) = '"' :: 'a' :: "\nb\"".toList := by
    decide +kernel
  have hreaches : Reaches 0 "x \"a\nb\"".toList [⟨.ident "x", ⟨0, 1⟩⟩] 2
      ('"' :: 'a' :: "\nb\"".toList) :=
    .token .nil hword rfl (.here (.blank (by decide) .nil) hquote rfl)
  exact ⟨(tokenize_strings _).1 _ tokenize_escaped_line _ (.head _) _ rfl,
    ((tokenize_strings _).2 ⟨2, 3⟩).mpr ⟨_, ['a'], "\nb\"".toList, hreaches,
      .plain (by decide) (by decide) (by decide) .nil, .line, rfl⟩⟩

-- A line feed behind a backslash does not end the string.
theorem string_over_two_lines :
    ¬ ∀ source tokens, tokenize source = .ok tokens → ∀ token ∈ tokens, ∀ value,
      token.kind = .str value → ∀ slice, token.span.slice? source = some slice →
        '\n' ∉ slice.toList := by
  intro h
  have hslice : (Span.mk 0 6).slice? "\"a\\\nb\"" = some "\"a\\\nb\"" := by decide +kernel
  exact h _ _ tokenize_escaped_line _ (.head _) _ rfl _ hslice (by decide)

end EventScript
