import EventScript.Proofs.Erasure.Script
import EventScript.Proofs.Expr.Closing
import EventScript.Proofs.Expr.RoundTrip
import EventScript.Proofs.Lexical.Binder
import EventScript.Proofs.Token.Enclosing

namespace EventScript

open Compiling Lexer

-- What is split into tokens of some kinds is split in the same way inside a text of another length.
theorem Lexer.tokensFrom_kinds {total : Nat} {input : List Char} {tokens : List Token}
    (h : tokensFrom total input = .ok tokens) (total' : Nat) :
    ∃ others, tokensFrom total' input = .ok others ∧ kinds others = kinds tokens := by
  obtain ⟨n, hn⟩ : ∃ n, input.length = n := ⟨_, rfl⟩
  induction n using Nat.strongRecOn generalizing input tokens with
  | _ n ih =>
      rcases tokensFrom_cases h with
        ⟨hs, rfl⟩ | ⟨c, rest, kind, after, more, hs, hcomment, hscan, hafter, rfl⟩
      · rw [tokensFrom_eq, hs]
        exact ⟨_, rfl, rfl⟩
      · have hskip := (skipTrivia_suffix input).length_le
        have hle := (scanToken?_suffix hscan).length_le
        rw [hs, List.length_cons] at hskip
        obtain ⟨others, hothers, hkinds⟩ := ih after.length (by omega) hafter rfl
        obtain ⟨span, htokens⟩ := tokensFrom_token total' hs hcomment hscan
        rw [htokens, hothers]
        exact ⟨_, rfl, by rw [kinds_cons, kinds_cons, hkinds]⟩

-- The end of the input is told by the last token and by no other.
theorem Lexer.tokensFrom_ends {total : Nat} {input : List Char} {tokens : List Token}
    (h : tokensFrom total input = .ok tokens) :
    ∃ front stop, tokens = front ++ [⟨.eof, stop⟩] ∧ EndFree front := by
  obtain ⟨n, hn⟩ : ∃ n, input.length = n := ⟨_, rfl⟩
  induction n using Nat.strongRecOn generalizing input tokens with
  | _ n ih =>
      rcases tokensFrom_cases h with
        ⟨-, rfl⟩ | ⟨c, rest, kind, after, more, hs, -, hscan, hafter, rfl⟩
      · exact ⟨[], _, rfl, nofun⟩
      · have hskip := (skipTrivia_suffix input).length_le
        have hle := (scanToken?_suffix hscan).length_le
        rw [hs, List.length_cons] at hskip
        obtain ⟨front, stop, rfl, hfront⟩ := ih after.length (by omega) hafter rfl
        exact ⟨_ :: front, stop, rfl, List.forall_mem_cons.mpr ⟨scanToken?_ne_eof hscan, hfront⟩⟩

-- What stands in front of an end is all that has been read.
theorem eq_nil_of_ends {front read left : List Token} {stop place : Span} (hfront : EndFree front)
    (h : front ++ [⟨.eof, stop⟩] = read ++ ⟨.eof, place⟩ :: left) : left = [] := by
  rcases List.eq_nil_or_concat left with rfl | ⟨left, last, rfl⟩
  · rfl
  · rw [List.concat_eq_append, ← List.cons_append, ← List.append_assoc] at h
    obtain ⟨rfl, -⟩ := List.append_inj' h rfl
    exact absurd rfl (hfront ⟨.eof, place⟩ (by simp))

-- An import

-- The directive that imports a namespace.
def DottedName.directive (path : DottedName) : ConcreteUsing :=
  ⟨.none, none, ⟨path.first, path.rest.map (Span.none, ·)⟩, .none⟩

theorem DottedName.erase_directive (path : DottedName) :
    path.directive.erase = ⟨none, path, .none⟩ := by
  obtain ⟨first, rest⟩ := path
  simp only [directive, ConcreteUsing.erase, ConcretePath.erase, List.map_map]
  rw [show ((·.2) ∘ (Span.none, ·) : Ident → Ident) = id from rfl, List.map_id]
  rfl

theorem DottedName.spells_directive {path : DottedName}
    (h : ∀ ident ∈ path.idents, WellSpelled (.ident ident.name)) :
    Spells ("using " ++ path.render).toList
      (.keyword .usingWord :: kinds path.directive.path.yield) := by
  have herase : path.directive.path.erase = path :=
    congrArg UsingDirective.path path.erase_directive
  have hpath := path.directive.path.spells_render
    (path.directive.path.printable (by rwa [herase]))
  rw [herase] at hpath
  have hall := (spells_keyword .usingWord).append hpath.space (breaksOff_cons rfl (by decide))
  simpa [Keyword.text] using hall

-- The directive may be written in front of any source.
theorem tokenize_using {path : DottedName}
    (hpath : ∀ ident ∈ path.idents, WellSpelled (.ident ident.name)) {source : String}
    {tokens : List Token} (h : tokenize source = .ok tokens) :
    ∃ others, tokenize ("using " ++ path.render ++ ";" ++ source) = .ok others ∧
      kinds others = kinds (path.directive.yield ++ tokens) := by
  let whole := "using " ++ path.render ++ ";" ++ source
  have hwhole : whole.toList = ("using " ++ path.render).toList ++
      (Symbol.semicolon.text.toList ++ source.toList) := by
    simp [whole, Symbol.text]
  have hrun (total : Nat) : ∃ others, tokensFrom total whole.toList = .ok others ∧
      kinds others = kinds (path.directive.yield ++ tokens) := by
    have hbreaks : Breaks (Symbol.semicolon.text.toList ++ source.toList) :=
      breaks_cons rfl (by decide)
    obtain ⟨front, hfront, hsplit⟩ := (DottedName.spells_directive hpath).splits total _ hbreaks
    obtain ⟨span, hsemicolon⟩ := tokensFrom_alone total .semicolon rfl source.toList
    obtain ⟨others, hothers, hkinds⟩ := tokensFrom_kinds h total
    refine ⟨front ++ ⟨.symbol .semicolon, span⟩ :: others, ?_, ?_⟩
    · rw [hwhole, hsplit, hsemicolon, hothers]
      rfl
    · rw [kinds_append, hfront, kinds_cons, hkinds]
      simp [ConcreteUsing.yield, DottedName.directive, ConcreteUsing.yieldNickname, Keyword.token,
        Symbol.token]
  exact hrun _

namespace Compile

variable {r : Runtime}

theorem openNames_directive (imports : List String) (path : DottedName)
    (usings : List UsingDirective) :
    openNames r imports (⟨none, path, .none⟩ :: usings) =
      openNames r (imports ++ [path.render]) usings := by
  unfold openNames
  rw [List.foldlM_append]
  simp only [List.foldlM_cons, List.foldlM_nil, bind_pure, bind_assoc]
  rfl

-- Checked arithmetic

theorem flagless_importPath (names : NameScope) (path : String) (span : Span) :
    Flagless (importPath r names path span) := by
  unfold importPath
  split
  · exact .pure _
  · exact (Flagless.fault _ _ _).bind fun _ => .pure _

theorem flagless_applyUsing (names : NameScope) (directive : UsingDirective) :
    Flagless (applyUsing r names directive) := by
  unfold applyUsing
  cases directive.nickname with
  | none => exact flagless_importPath _ _ _
  | some nickname =>
      dsimp only [declareAlias]
      split
      · exact .pure _
      split
      · exact .pure _
      · exact (Flagless.fault _ _ _).bind fun _ => .pure _

theorem flagless_foldlM {α β : Type} {f : α → β → Compiling α} (h : ∀ a b, Flagless (f a b))
    (bs : List β) (a : α) : Flagless (bs.foldlM f a) := by
  induction bs generalizing a with
  | nil => exact .pure a
  | cons b bs ih =>
      rw [List.foldlM_cons]
      exact (h a b).bind ih

theorem flagless_openNames (imports : List String) (usings : List UsingDirective) :
    Flagless (openNames r imports usings) :=
  (flagless_foldlM (fun _ _ => flagless_importPath _ _ _) _ _).bind fun _ =>
    flagless_foldlM flagless_applyUsing _ _

theorem flagless_declareParameters (names : NameScope) (specs : List ParameterSpec) :
    Flagless (declareParameters r names specs) := by
  refine flagless_foldlM (fun declared spec => ?_) _ _
  unfold typeNamed
  refine Flagless.bind ?_ fun found => ?_
  · split
    · exact .pure _
    · exact (Flagless.fault _ _ _).bind fun _ => .pure _
  · cases found <;> exact .pure _

-- A script without a result type, with the place of its body told by what encloses it.
def lexicalScript (r : Runtime) (options : CompileOptions) (script : Script) (checked : Bool) :
    Recording BoundExpr := do
  let names ← Recording.unflagged (openNames r options.imports script.usings)
  let parameters ← Recording.unflagged (declareParameters r names options.parameters)
  Binding.Lexical.bind ⟨r, names, parameters⟩ checked script.body

theorem follows_bindScript {options : CompileOptions} (h : options.resultType = none)
    (script : Script) (checked : Bool) :
    Follows checked (bindScript r options script) (lexicalScript r options script checked) := by
  unfold bindScript
  refine .bindFlagless (flagless_openNames _ _) fun names => ?_
  refine .bindFlagless (flagless_declareParameters _ _) fun parameters => ?_
  rw [h]
  exact Binding.follows_bind _ _

-- Around the whole body, the word settles what the options have left open.
theorem lexicalScript_guarded (options : CompileOptions) (script : Script) (checked on : Bool)
    (span : Span) :
    lexicalScript r options { script with body := .guarded on script.body span } checked =
      lexicalScript r options script on := by
  unfold lexicalScript Binding.Lexical.bind
  simp only [Binding.Lexical.denote]

theorem plain_initialFlags (options : CompileOptions) :
    (initialFlags options).Plain options.checked := by
  unfold initialFlags
  cases options.checked with
  | true => exact ⟨by decide, by decide, by decide⟩
  | false => exact ⟨by decide, by decide, by decide⟩

end Compile

section

variable {r : Runtime} {options : CompileOptions}

theorem bindUnplaced_import (path : DottedName) (script : Script) :
    bindUnplaced r options { script with usings := ⟨none, path, .none⟩ :: script.usings } =
      bindUnplaced r { options with imports := options.imports ++ [path.render] } script := by
  unfold bindUnplaced Compile.bindScript
  let directed : Script := { script with usings := ⟨none, path, .none⟩ :: script.usings }
  have herase : directed.eraseSpans =
      { script.eraseSpans with
        usings := ⟨none, path.eraseSpans, .none⟩ :: script.eraseSpans.usings } := rfl
  rw [herase]
  dsimp only
  rw [Compile.openNames_directive, path.render_eraseSpans]
  rfl

-- Where no result type is asked for, the flags tell nothing but whether arithmetic is checked.
theorem bindUnplaced_eq_lexical (h : options.resultType = none) (script : Script)
    (caches : Caches) :
    bindUnplaced r options script caches =
      let (expr, after) :=
        Compile.lexicalScript r options script.eraseSpans options.checked ⟨caches, []⟩
      (⟨some expr, after.diagnostics⟩, after.caches) := by
  have hrun : Compile.bindScript r options script.eraseSpans
      ⟨caches, Compile.initialFlags options, []⟩ = _ :=
    Compile.follows_bindScript h script.eraseSpans options.checked
      ⟨caches, Compile.initialFlags options, []⟩ (Compile.plain_initialFlags options)
  rw [bindUnplaced, hrun]
  rfl

theorem bindUnplaced_checked (h : options.resultType = none) (script : Script) (span : Span) :
    bindUnplaced r options { script with body := .guarded true script.body span } =
      bindUnplaced r { options with checked := true } script := by
  have hasked : ({ options with checked := true } : CompileOptions).resultType = none := h
  have herase : ({ script with body := .guarded true script.body span } : Script).eraseSpans =
      { script.eraseSpans with body := .guarded true script.eraseSpans.body .none } := by
    simp only [Script.eraseSpans, Expr.eraseSpans]
  funext caches
  rw [bindUnplaced_eq_lexical h, bindUnplaced_eq_lexical hasked, herase,
    Compile.lexicalScript_guarded]
  rfl

end

theorem parseScript_of_tokenize {source : String} {tokens : List Token}
    (h : tokenize source = .ok tokens) : parseScript source = Parser.script tokens := by
  rw [parseScript, h]
  rfl

-- A source that is read as another script up to its places is compiled as that script is.
theorem compileUnplaced_of_kinds (r : Runtime) (options : CompileOptions) {source : String}
    {tokens others : List Token} {script : Script} (h : tokenize source = .ok tokens)
    (hkinds : kinds tokens = kinds others) (hothers : Parser.script others = .ok script) :
    compileUnplaced r options source = bindUnplaced r options script := by
  have halike := Parser.alike_script hkinds
  rw [hothers] at halike
  obtain ⟨again, hagain, hsame⟩ := halike.exists_ok
  rw [compileUnplaced_of_ok ((parseScript_of_tokenize h).trans hagain), bindUnplaced_congr hsame]

-- The source is the text of a script, in some layout.
def ConcreteScript.SpelledBy (form : ConcreteScript) (source : String) : Prop :=
  ∃ tokens, tokenize source = .ok tokens ∧ kinds tokens = kinds form.yield ++ [.eof]

theorem spells_directives (usings : List ConcreteUsing)
    (h : Printable (usings.flatMap ConcreteUsing.yield)) {text : List Char}
    {spelled : List TokenKind} (hnext : Spells text spelled) :
    ∃ whole, Spells whole (kinds (usings.flatMap ConcreteUsing.yield) ++ spelled) := by
  induction usings with
  | nil => exact ⟨text, hnext⟩
  | cons directive usings ih =>
      rw [List.flatMap_cons] at h ⊢
      obtain ⟨hfirst, hrest⟩ := printable_append.mp h
      obtain ⟨whole, hwhole⟩ := ih hrest
      rw [kinds_append, List.append_assoc]
      exact ⟨_, directive.spells_render hfirst hwhole⟩

namespace ConcreteScript

variable {form : ConcreteScript} {source : String}

theorem SpelledBy.printable_usings (h : form.SpelledBy source) :
    Printable (form.usings.flatMap ConcreteUsing.yield) := by
  obtain ⟨tokens, ht, hkinds⟩ := h
  have hspelled : ∀ token ∈ form.yield, WellSpelled token.kind := by
    intro token hm
    have hkind : token.kind ∈ kinds tokens := by
      rw [hkinds]
      exact List.mem_append_left _ (List.mem_map_of_mem hm)
    obtain ⟨read, hread, hsame⟩ := List.mem_map.mp hkind
    rw [← hsame]
    exact wellSpelled_of_tokensFrom ht read hread
  have hholds : HoldsLiterals [] (form.usings.flatMap ConcreteUsing.yield) := by
    intro token hm
    obtain ⟨directive, -, hd⟩ := List.mem_flatMap.mp hm
    exact directive.holdsLiterals token hd
  exact hholds.printable (fun token hm => hspelled token (List.mem_append_left _ hm))
    (List.forall_mem_nil _)

-- The text of the body can be put between the parentheses, and the directives in front of it.
theorem SpelledBy.exists_inScope (h : form.SpelledBy source) (checked : Bool) :
    ∃ source', (form.inScope checked).SpelledBy source' := by
  have husings := h.printable_usings
  obtain ⟨tokens, ht, hkinds⟩ := h
  rw [yield, kinds_append, List.append_assoc] at hkinds
  obtain ⟨first, last, rfl, -, hlast⟩ := List.map_eq_append_iff.mp hkinds
  have hne : last ≠ [] := by
    rintro rfl
    cases List.append_eq_nil_iff.mp hlast.symm
    contradiction
  obtain ⟨behind, hbehind⟩ := tokensFrom_behind ht hne
  have hinner := (spells_opened hbehind hlast).append (spells_sign .rparen rfl)
    (breaksOff_text .rparen rfl)
  have hscope := (spells_keyword (scopeWord checked)).append hinner
    (breaksOff_cons rfl (by decide))
  obtain ⟨whole, hwhole⟩ := spells_directives form.usings husings hscope
  rw [← String.toList_ofList (l := whole)] at hwhole
  obtain ⟨others, stop, hothers, hsource⟩ := hwhole.tokenize_eq
  refine ⟨String.ofList whole, _, hsource, ?_⟩
  rw [kinds_append, hothers]
  simp [inScope, yield, ConcreteExpr.yield, Keyword.token, Symbol.token]

end ConcreteScript

-- What the options ask for may be written in the source instead: an import as a directive in front
-- of all others, and checked arithmetic, unless a result type is asked for, as `checked( )` around
-- the body, in whatever layout.
theorem compile_option_spellings (r : Runtime) (options : CompileOptions) {source : String}
    {script : Script} (h : parseScript source = .ok script) :
    (∀ path : DottedName, (∀ ident ∈ path.idents, WellSpelled (.ident ident.name)) →
      compileUnplaced r { options with imports := options.imports ++ [path.render] } source =
        compileUnplaced r options ("using " ++ path.render ++ ";" ++ source)) ∧
    (∃ form : ConcreteScript, form.erase = script ∧ form.SpelledBy source) ∧
    ∀ form : ConcreteScript, form.SpelledBy source →
      (∃ source', (form.inScope true).SpelledBy source') ∧
      (options.resultType = none → ∀ source', (form.inScope true).SpelledBy source' →
        compileUnplaced r { options with checked := true } source =
          compileUnplaced r options source') := by
  obtain ⟨tokens, ht, hparse⟩ := Parser.bind_eq_ok.mp h
  refine ⟨fun path hpath => ?_, ?_, fun form hform => ⟨hform.exists_inScope true, ?_⟩⟩
  · obtain ⟨others, ho, hkinds⟩ := tokenize_using hpath ht
    rw [compileUnplaced_of_kinds r options ho hkinds (Parser.script_using path.directive hparse),
      path.erase_directive, bindUnplaced_import, compileUnplaced_of_ok h]
  · obtain ⟨form, place, left, herase, rfl, -⟩ := Parser.script_sound hparse
    obtain ⟨front, stop, hends, hfront⟩ := tokensFrom_ends ht
    obtain rfl := eq_nil_of_ends hfront hends.symm
    exact ⟨form, herase, _, ht, kinds_append _ _⟩
  · intro hresult source' hsource'
    obtain ⟨again, hagain, hkinds⟩ := hform
    obtain rfl := Except.ok.inj (ht.symm.trans hagain)
    obtain ⟨others, ho, hothers⟩ := hsource'
    have hend (form : ConcreteScript) :
        kinds form.yield ++ [.eof] = kinds (form.yield ++ Parser.ending .none) :=
      (kinds_append form.yield (Parser.ending .none)).symm
    have halike := Parser.alike_script (hkinds.trans (hend form)).symm
    rw [hparse] at halike
    obtain ⟨read, hread, hsame⟩ := halike.exists_ok
    rw [compileUnplaced_of_kinds r options ho (hothers.trans (hend _))
        (Parser.script_inScope hread true .none),
      bindUnplaced_checked hresult, compileUnplaced_of_ok h, bindUnplaced_congr hsame.symm]

theorem compile_option_spellings_sum :
    let source := "using System; 2147483647 + x"
    let options : CompileOptions := { parameters := [⟨"x", "System.Int32"⟩] }
    compileUnplaced Standard.host { options with imports := ["System.Text"] } source =
        compileUnplaced Standard.host options ("using System.Text;" ++ source) ∧
      compileUnplaced Standard.host { options with checked := true } source =
        compileUnplaced Standard.host options "using System; checked(2147483647 + x)" := by
  intro source options
  let path : DottedName := ⟨⟨"System", .none⟩, [⟨"Text", .none⟩]⟩
  let form : ConcreteScript :=
    { usings := [⟨⟨0, 5⟩, none, ⟨⟨"System", ⟨6, 12⟩⟩, []⟩, ⟨12, 13⟩⟩]
      body := .binary .add (.literal (.int 2147483647 .none) ⟨14, 24⟩) ⟨25, 26⟩
        (.name ⟨"x", ⟨27, 28⟩⟩) }
  have hparse : (parseScript source).toOption.any (fun _ => true) = true := by decide +kernel
  have hform : (tokenize source).toOption.any (kinds · = kinds form.yield ++ [.eof]) = true := by
    decide +kernel
  have hscoped : (tokenize "using System; checked(2147483647 + x)").toOption.any
      (kinds · = kinds (form.inScope true).yield ++ [.eof]) = true := by
    decide +kernel
  obtain ⟨script, hs, -⟩ := Parser.exists_ok_of_any hparse
  obtain ⟨tokens, ht, hk⟩ := Parser.exists_ok_of_any hform
  obtain ⟨others, ho, hkinds⟩ := Parser.exists_ok_of_any hscoped
  obtain ⟨husing, -, hbody⟩ := compile_option_spellings Standard.host options hs
  obtain ⟨-, hchecked⟩ := hbody form ⟨tokens, ht, of_decide_eq_true hk⟩
  refine ⟨husing path ?_, ?_⟩
  · have hsystem : IsWord "System".toList := ⟨rfl, List.all_eq_true.mp (by decide +kernel)⟩
    have htext : IsWord "Text".toList := ⟨rfl, List.all_eq_true.mp (by decide +kernel)⟩
    exact List.forall_mem_cons.mpr ⟨⟨hsystem, by decide +kernel⟩,
      List.forall_mem_singleton.mpr ⟨htext, by decide +kernel⟩⟩
  · exact hchecked rfl _ ⟨others, ho, of_decide_eq_true hkinds⟩

end EventScript
