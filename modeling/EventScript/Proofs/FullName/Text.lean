import EventScript.Runtime
import Mathlib.Data.List.Forall2
import Mathlib.Data.List.TakeWhile

namespace EventScript

-- Cutting and trimming

namespace Text

variable {separator : Char} {cs before behind : List Char}

theorem cutFirst?_eq_some_iff :
    cutFirst? separator cs = some (before, behind) ↔
      cs = before ++ separator :: behind ∧ separator ∉ before := by
  unfold cutFirst?
  constructor
  · intro h
    have hsplit : cs.takeWhile (· ≠ separator) ++ cs.dropWhile (· ≠ separator) = cs :=
      List.takeWhile_append_dropWhile
    have hhead := List.head?_dropWhile_not (· ≠ separator) cs
    split at h
    · cases h
    · rename_i c rest hd
      obtain ⟨rfl, rfl⟩ := Prod.mk.inj (Option.some.inj h)
      rw [hd] at hsplit hhead
      obtain rfl : c = separator := by simpa using hhead
      refine ⟨hsplit.symm, fun hm => ?_⟩
      simpa using List.mem_takeWhile_imp hm
  · rintro ⟨rfl, hn⟩
    have hall : ∀ c ∈ before, decide (c ≠ separator) = true := by
      intro c hc
      simpa using fun he : c = separator => hn (he ▸ hc)
    rw [List.dropWhile_append_of_pos hall, List.takeWhile_append_of_pos hall]
    simp

theorem cutFirst?_eq_none_iff : cutFirst? separator cs = none ↔ separator ∉ cs := by
  constructor
  · intro h hm
    obtain ⟨before, behind, rfl, hn⟩ := List.eq_append_cons_of_mem hm
    rw [cutFirst?_eq_some_iff.mpr ⟨rfl, hn⟩] at h
    cases h
  · intro hn
    rw [Option.eq_none_iff_forall_not_mem]
    rintro ⟨before, behind⟩ h
    obtain ⟨rfl, -⟩ := cutFirst?_eq_some_iff.mp h
    exact hn (by simp)

theorem cutLast?_eq_some_iff :
    cutLast? separator cs = some (before, behind) ↔
      cs = before ++ separator :: behind ∧ separator ∉ behind := by
  unfold cutLast?
  rw [Option.map_eq_some_iff]
  constructor
  · rintro ⟨⟨last, first⟩, hcut, he⟩
    obtain ⟨rfl, rfl⟩ := Prod.mk.inj he
    obtain ⟨hcs, hn⟩ := cutFirst?_eq_some_iff.mp hcut
    refine ⟨?_, by simpa using hn⟩
    rw [← List.reverse_inj, hcs]
    simp
  · rintro ⟨rfl, hn⟩
    exact ⟨(behind.reverse, before.reverse), cutFirst?_eq_some_iff.mpr (by simpa using hn), by simp⟩

def Blank (cs : List Char) : Prop := ∀ c ∈ cs, isBlank c = true

-- What is trimmed away is blank.
theorem exists_trimChars (cs : List Char) :
    ∃ before behind, Blank before ∧ Blank behind ∧ cs = before ++ trimChars cs ++ behind := by
  let rest := cs.dropWhile isBlank
  refine ⟨cs.takeWhile isBlank, (rest.reverse.takeWhile isBlank).reverse, ?_, ?_, ?_⟩
  · exact fun c hc => List.mem_takeWhile_imp hc
  · exact fun c hc => List.mem_takeWhile_imp (List.mem_reverse.mp hc)
  · calc cs = cs.takeWhile isBlank ++ rest := List.takeWhile_append_dropWhile.symm
      _ = cs.takeWhile isBlank ++ rest.reverse.reverse := by rw [List.reverse_reverse]
      _ = cs.takeWhile isBlank ++
          (rest.reverse.takeWhile isBlank ++ rest.reverse.dropWhile isBlank).reverse := by
        rw [List.takeWhile_append_dropWhile]
      _ = _ := by rw [List.reverse_append, List.append_assoc]; rfl

-- Whether the text neither starts nor ends with a blank.
def isTrimmed (cs : List Char) : Bool := !cs.head?.any isBlank && !cs.getLast?.any isBlank

theorem isTrimmed_iff :
    isTrimmed cs = true ↔ cs.head?.any isBlank = false ∧ cs.getLast?.any isBlank = false := by
  simp [isTrimmed]

theorem dropWhile_isBlank_eq_self (h : cs.head?.any isBlank = false) :
    cs.dropWhile isBlank = cs := by
  cases cs with
  | nil => rfl
  | cons c rest => exact List.dropWhile_cons_of_neg (by simpa using h)

theorem trimChars_eq_self (h : isTrimmed cs = true) : trimChars cs = cs := by
  obtain ⟨hhead, hlast⟩ := isTrimmed_iff.mp h
  unfold trimChars
  rw [dropWhile_isBlank_eq_self hhead, dropWhile_isBlank_eq_self, List.reverse_reverse]
  rwa [List.head?_reverse]

-- A closing bracket is no blank.
theorem isTrimmed_bracketed {inner : List Char} (h : isTrimmed cs = true) (hn : cs ≠ []) :
    isTrimmed (cs ++ '<' :: (inner ++ ['>'])) = true := by
  rw [isTrimmed_iff, List.head?_append_of_ne_nil _ hn, ← List.cons_append, ← List.append_assoc,
    List.getLast?_concat]
  exact ⟨(isTrimmed_iff.mp h).1, by decide⟩

theorem trimChars_blank_cons {c : Char} (hc : isBlank c = true) (cs : List Char) :
    trimChars (c :: cs) = trimChars cs := by
  unfold trimChars
  rw [List.dropWhile_cons_of_pos hc]

end Text

-- The characters that set off the arguments of a type.
def setsOff (c : Char) : Bool := c = '<' || c = '>' || c = ','

-- Two names of a type that differ in the blanks around the whole name and around its arguments.
inductive SameButBlanks : List Char → List Char → Prop
  | named {before before' name behind behind' : List Char} : Text.Blank before →
      Text.Blank before' → Text.Blank behind → Text.Blank behind' →
      (∀ c ∈ name, setsOff c = false) →
      SameButBlanks (before ++ name ++ behind) (before' ++ name ++ behind')
  | applied {before before' name behind behind' : List Char} {parts parts' : List (List Char)} :
      Text.Blank before → Text.Blank before' → Text.Blank behind → Text.Blank behind' →
      (∀ c ∈ name, setsOff c = false) → List.Forall₂ SameButBlanks parts parts' →
      SameButBlanks (before ++ (name ++ '<' :: ([','].intercalate parts ++ ['>'])) ++ behind)
        (before' ++ (name ++ '<' :: ([','].intercalate parts' ++ ['>'])) ++ behind')

theorem SameButBlanks.blank_cons {cs cs' : List Char} {c : Char} (h : SameButBlanks cs cs')
    (hc : Text.isBlank c = true) : SameButBlanks cs (c :: cs') := by
  cases h with
  | named hb hb' he he' hn => exact .named hb (List.forall_mem_cons.mpr ⟨hc, hb'⟩) he he' hn
  | applied hb hb' he he' hn hp =>
      exact .applied hb (List.forall_mem_cons.mpr ⟨hc, hb'⟩) he he' hn hp

-- Separating

section

variable {depth depth' depth'' : Nat} {cs cs' : List Char} {c : Char}

theorem splitTypeArguments_ne_nil (depth : Nat) (cs : List Char) :
    splitTypeArguments depth cs ≠ [] := by
  cases cs with
  | nil => exact List.cons_ne_nil _ _
  | cons c rest =>
      unfold splitTypeArguments
      split
      · exact List.cons_ne_nil _ _
      · dsimp only
        split <;> exact List.cons_ne_nil _ _

-- Nothing is lost: the parts joined by commas are the text.
theorem intercalate_splitTypeArguments (depth : Nat) (cs : List Char) :
    [','].intercalate (splitTypeArguments depth cs) = cs := by
  induction cs generalizing depth with
  | nil => rfl
  | cons c rest ih =>
      unfold splitTypeArguments
      split
      · rename_i hc
        rw [List.intercalate_cons_of_ne_nil (splitTypeArguments_ne_nil depth rest), ih, hc.1]
        rfl
      · dsimp only
        generalize hd : (if c = '<' then depth + 1 else if c = '>' then depth - 1 else depth) = d
        have hrest := ih d
        split
        · rename_i hs
          exact absurd hs (splitTypeArguments_ne_nil d rest)
        · rename_i part parts hs
          rw [hs] at hrest
          cases parts with
          | nil => simpa using hrest
          | cons second parts => simpa using hrest

-- The text is no more than a piece of a part, behind which brackets are open to another depth.
def Passes (depth depth' : Nat) (cs : List Char) : Prop :=
  ∀ rest, splitTypeArguments depth (cs ++ rest) =
    (splitTypeArguments depth' rest).modifyHead (cs ++ ·)

namespace Passes

theorem nil : Passes depth depth [] := by
  intro rest
  rw [List.nil_append]
  cases splitTypeArguments depth rest <;> rfl

theorem append (h : Passes depth depth' cs) (h' : Passes depth' depth'' cs') :
    Passes depth depth'' (cs ++ cs') := by
  intro rest
  rw [List.append_assoc, h, h', List.modifyHead_modifyHead]
  congr 1
  funext part
  exact (List.append_assoc cs cs' part).symm

theorem single (hc : ¬(c = ',' ∧ depth = 0))
    (hd : (if c = '<' then depth + 1 else if c = '>' then depth - 1 else depth) = depth') :
    Passes depth depth' [c] := by
  intro rest
  rw [List.singleton_append, splitTypeArguments, if_neg hc, hd]
  dsimp only
  split
  · rename_i hs
    exact absurd hs (splitTypeArguments_ne_nil depth' rest)
  · rename_i part parts hs
    rw [hs]
    rfl

theorem of_setsOff (h : ∀ c ∈ cs, setsOff c = false) : Passes depth depth cs := by
  induction cs with
  | nil => exact nil
  | cons c rest ih =>
      obtain ⟨hc, hrest⟩ := List.forall_mem_cons.mp h
      simp only [setsOff, Bool.or_eq_false_iff, decide_eq_false_iff_not] at hc
      have hfirst : Passes depth depth [c] :=
        single (fun hn => hc.2 hn.1) (by rw [if_neg hc.1.1, if_neg hc.1.2])
      exact hfirst.append (ih hrest)

theorem opening : Passes depth (depth + 1) ['<'] := single (by simp) rfl

theorem closing : Passes (depth + 1) depth ['>'] := single (by simp) rfl

theorem comma : Passes (depth + 1) (depth + 1) [','] := single (by simp) rfl

theorem blank : Passes depth depth [' '] := single (by simp) rfl

-- Inside brackets commas do not separate.
theorem intercalate {parts : List (List Char)}
    (h : ∀ part ∈ parts, Passes (depth + 1) (depth + 1) part) :
    Passes (depth + 1) (depth + 1) ([','].intercalate parts) := by
  induction parts with
  | nil => exact nil
  | cons part parts ih =>
      obtain ⟨hpart, hparts⟩ := List.forall_mem_cons.mp h
      by_cases hn : parts = []
      · rwa [hn, List.intercalate_singleton]
      · rw [List.intercalate_cons_of_ne_nil hn]
        exact (hpart.append comma).append (ih hparts)

theorem bracketed {name : List Char} {parts : List (List Char)}
    (hname : ∀ c ∈ name, setsOff c = false)
    (h : ∀ part ∈ parts, Passes (depth + 1) (depth + 1) part) :
    Passes depth depth (name ++ '<' :: ([','].intercalate parts ++ ['>'])) :=
  (of_setsOff hname).append (opening.append ((intercalate h).append closing))

end Passes

-- Outside of brackets they do.
theorem splitTypeArguments_intercalate {parts : List (List Char)}
    (h : ∀ part ∈ parts, Passes 0 0 part) (hn : parts ≠ []) :
    splitTypeArguments 0 ([','].intercalate parts) = parts := by
  induction parts with
  | nil => exact absurd rfl hn
  | cons part parts ih =>
      obtain ⟨hpart, hparts⟩ := List.forall_mem_cons.mp h
      by_cases he : parts = []
      · have hsplit := hpart []
        rw [List.append_nil] at hsplit
        rw [he, List.intercalate_singleton, hsplit]
        simp [splitTypeArguments]
      · rw [List.intercalate_cons_of_ne_nil he, List.append_assoc, hpart, List.singleton_append,
          splitTypeArguments, if_pos ⟨rfl, rfl⟩, ih hparts he]
        simp

-- Arguments as they are shown, with a blank before each but the first.
def spaced : List (List Char) → List (List Char)
  | [] => []
  | part :: parts => part :: parts.map (' ' :: ·)

theorem intercalate_spaced (parts : List (List Char)) :
    [',', ' '].intercalate parts = [','].intercalate (spaced parts) := by
  cases parts with
  | nil => rfl
  | cons part parts =>
      induction parts generalizing part with
      | nil => rfl
      | cons second parts ih =>
          rw [List.intercalate_cons_cons, ih]
          cases parts <;> simp [spaced]

theorem spaced_eq_nil_iff {parts : List (List Char)} : spaced parts = [] ↔ parts = [] := by
  cases parts <;> simp [spaced]

theorem Passes.spaced {parts : List (List Char)} (h : ∀ part ∈ parts, Passes depth depth part) :
    ∀ part ∈ spaced parts, Passes depth depth part := by
  cases parts with
  | nil => exact h
  | cons first parts =>
      obtain ⟨hfirst, hparts⟩ := List.forall_mem_cons.mp h
      refine List.forall_mem_cons.mpr ⟨hfirst, fun part hm => ?_⟩
      obtain ⟨inner, hinner, rfl⟩ := List.mem_map.mp hm
      exact blank.append (hparts inner hinner)

theorem SameButBlanks.spaced {parts parts' : List (List Char)}
    (h : List.Forall₂ SameButBlanks parts parts') :
    List.Forall₂ SameButBlanks parts (spaced parts') := by
  cases h with
  | nil => exact .nil
  | cons hfirst hrest =>
      refine .cons hfirst ?_
      rw [List.forall₂_map_right_iff]
      exact hrest.imp fun _ _ h => h.blank_cons rfl

end

-- The text without a closing bracket at its end and the bracket make up the text.
theorem dropClosing?_eq_some_iff {cs inner : List Char} :
    dropClosing? cs = some inner ↔ cs = inner ++ ['>'] := by
  unfold dropClosing?
  constructor
  · intro h
    split at h
    · rename_i hl
      obtain rfl := Option.some.inj h
      obtain ⟨inner, rfl⟩ := List.getLast?_eq_some_iff.mp hl
      rw [List.dropLast_concat]
    · cases h
  · rintro rfl
    simp

end EventScript
