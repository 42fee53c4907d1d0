import Backtest.Proofs.Text.Bytes
import Backtest.Proofs.Vote.Language

/-!
# Texts of votes

A text of the vote language is a list of tokens with plain spaces between them. A name goes on for as long
as it can, and so do the digits of a position value. What a text begins with is therefore cut into the same
tokens whatever comes behind it, as long as no name and no run of digits goes on across the seam.
-/

namespace Backtest.Vote

open Formula

/-! ### Characters -/

section Characters

variable {c : Char}

theorem isPlainSpace_iff : Text.isPlainSpace c = true ↔
    c.toNat = 32 ∨ c.toNat = 9 ∨ c.toNat = 10 ∨ c.toNat = 12 ∨ c.toNat = 13 := by
  unfold Text.isPlainSpace
  simp only [Bool.or_eq_true, decide_eq_true_eq, ← Char.toNat_inj, or_assoc]
  rfl

theorem continuesName_iff : continuesName c = true ↔
    ((65 ≤ c.toNat ∧ c.toNat ≤ 90 ∨ 97 ≤ c.toNat ∧ c.toNat ≤ 122) ∨ c.toNat = 95) ∨
      48 ≤ c.toNat ∧ c.toNat ≤ 57 :=
  Condition.continuesWord_iff.trans or_right_comm

theorem startsName_iff : startsName c = true ↔
    (65 ≤ c.toNat ∧ c.toNat ≤ 90 ∨ 97 ≤ c.toNat ∧ c.toNat ≤ 122) ∨ c.toNat = 95 :=
  Condition.startsWord_iff

theorem continuesName_of_isDigit (hdigit : c.isDigit = true) : continuesName c = true := by
  rw [continuesName, Char.isAlphanum, hdigit, Bool.or_true, Bool.true_or]

theorem continuesName_of_startsName (hstarts : startsName c = true) : continuesName c = true :=
  continuesName_iff.mpr (.inl (startsName_iff.mp hstarts))

theorem isDigit_of_not_continuesName (hstops : continuesName c = false) : c.isDigit = false := by
  rw [← Bool.not_eq_true] at hstops ⊢
  exact mt continuesName_of_isDigit hstops

end Characters

/-- A minus alone stands for no position. -/
theorem continuesName_of_getLast?_value {first : Char} {digits : List Char} {position : Position}
    (hfirst : startsValue first = true) (hdigits : ∀ c ∈ digits, c.isDigit = true)
    (hposition : positionOf? (first :: digits) = some position) :
    ∀ last ∈ (first :: digits).getLast?, continuesName last = true := by
  intro last hlast
  cases digits with
  | nil =>
      cases hlast
      rcases startsValue_eq_true_iff.mp hfirst with rfl | hdigit
      · cases hposition
      · exact continuesName_of_isDigit hdigit
  | cons digit others =>
      rw [List.getLast?_cons_cons] at hlast
      exact continuesName_of_isDigit (hdigits last (List.mem_of_getLast? hlast))

/-! ### Texts and their tokens -/

/-- The text consists of the tokens and of plain spaces. -/
inductive Spells : List Char → List (Token Word) → Prop
  | done : Spells [] []
  | space {c : Char} {rest : List Char} {tokens : List (Token Word)}
      (hspace : Text.isPlainSpace c = true) (hrest : Spells rest tokens) : Spells (c :: rest) tokens
  | opening {rest : List Char} {tokens : List (Token Word)} (hrest : Spells rest tokens) :
      Spells ('(' :: rest) (.opening :: tokens)
  | closing {rest : List Char} {tokens : List (Token Word)} (hrest : Spells rest tokens) :
      Spells (')' :: rest) (.closing :: tokens)
  | equals {rest : List Char} {tokens : List (Token Word)} (hrest : Spells rest tokens) :
      Spells ('=' :: '=' :: rest) (.word .equals :: tokens)
  | value {first : Char} {digits rest : List Char} {position : Position} {tokens : List (Token Word)}
      (hfirst : startsValue first = true) (hdigits : ∀ c ∈ digits, c.isDigit = true)
      (hend : ∀ c ∈ rest.head?, c.isDigit = false)
      (hposition : positionOf? (first :: digits) = some position) (hrest : Spells rest tokens) :
      Spells (first :: (digits ++ rest)) (.word (.value position) :: tokens)
  | name {first : Char} {others rest : List Char} {tokens : List (Token Word)}
      (hfirst : startsName first = true) (hothers : ∀ c ∈ others, continuesName c = true)
      (hend : ∀ c ∈ rest.head?, continuesName c = false) (hrest : Spells rest tokens) :
      Spells (first :: (others ++ rest)) (tokenOfName (String.ofList (first :: others)) :: tokens)

section Lexer

variable {position : Nat} {c : Char} {rest : List Char}

theorem tokensFrom_cons : tokensFrom position (c :: rest) =
    if Text.isPlainSpace c then tokensFrom (position + 1) rest
    else if c = '(' then (⟨.opening, position⟩ :: ·) <$> tokensFrom (position + 1) rest
    else if c = ')' then (⟨.closing, position⟩ :: ·) <$> tokensFrom (position + 1) rest
    else if c = '=' then
      match rest with
      | '=' :: rest => (⟨.word .equals, position⟩ :: ·) <$> tokensFrom (position + 2) rest
      | _ => .error ⟨.loneEqualsSign, position⟩
    else if startsValue c then
      match positionOf? (c :: rest.takeWhile Char.isDigit) with
      | some value =>
        (⟨.word (.value value), position⟩ :: ·) <$>
          tokensFrom (position + (c :: rest.takeWhile Char.isDigit).length) (rest.dropWhile Char.isDigit)
      | none => .error ⟨.noPosition (String.ofList (c :: rest.takeWhile Char.isDigit)), position⟩
    else if startsName c then
      (⟨tokenOfName (String.ofList (c :: rest.takeWhile continuesName)), position⟩ :: ·) <$>
        tokensFrom (position + (c :: rest.takeWhile continuesName).length) (rest.dropWhile continuesName)
    else .error ⟨.unexpectedCharacter c, position⟩ :=
  tokensFrom.eq_def position (c :: rest)

theorem tokensFrom_space (hspace : Text.isPlainSpace c = true) :
    tokensFrom position (c :: rest) = tokensFrom (position + 1) rest := by
  rw [tokensFrom_cons, if_pos hspace]

theorem tokensFrom_opening :
    tokensFrom position ('(' :: rest) = (⟨.opening, position⟩ :: ·) <$> tokensFrom (position + 1) rest := by
  rw [tokensFrom_cons, if_neg (by decide), if_pos rfl]

theorem tokensFrom_closing :
    tokensFrom position (')' :: rest) = (⟨.closing, position⟩ :: ·) <$> tokensFrom (position + 1) rest := by
  rw [tokensFrom_cons, if_neg (by decide), if_neg (by decide), if_pos rfl]

theorem tokensFrom_equals :
    tokensFrom position ('=' :: '=' :: rest) =
      (⟨.word .equals, position⟩ :: ·) <$> tokensFrom (position + 2) rest := by
  rw [tokensFrom_cons, if_neg (by decide), if_neg (by decide), if_neg (by decide), if_pos rfl]
  rfl

/-- A character that begins a value or a name is no space and no sign of its own. -/
theorem not_sign_of_starts (hstarts : startsValue c = true ∨ startsName c = true) :
    Text.isPlainSpace c = false ∧ c ≠ '(' ∧ c ≠ ')' ∧ c ≠ '=' := by
  rw [startsValue_iff, startsName_iff] at hstarts
  rw [← Bool.not_eq_true, isPlainSpace_iff]
  refine ⟨by omega, ?_, ?_, ?_⟩ <;>
    · rintro rfl
      exact absurd hstarts (by decide)

theorem startsValue_of_startsName (hstarts : startsName c = true) : startsValue c = false := by
  rw [← Bool.not_eq_true, startsValue_iff]
  rw [startsName_iff] at hstarts
  omega

/-- The digits that follow belong to the value, whether it stands for a position or not. -/
theorem tokensFrom_value {digits : List Char} (hfirst : startsValue c = true)
    (hdigits : ∀ digit ∈ digits, digit.isDigit = true) (hend : ∀ next ∈ rest.head?, next.isDigit = false) :
    tokensFrom position (c :: (digits ++ rest)) =
      match positionOf? (c :: digits) with
      | some value =>
        (⟨.word (.value value), position⟩ :: ·) <$> tokensFrom (position + (c :: digits).length) rest
      | none => .error ⟨.noPosition (String.ofList (c :: digits)), position⟩ := by
  obtain ⟨hspace, hopening, hclosing, hequals⟩ := not_sign_of_starts (.inl hfirst)
  rw [tokensFrom_cons, if_neg (by simp [hspace]), if_neg hopening, if_neg hclosing, if_neg hequals,
    if_pos hfirst, Text.takeWhile_append_of_stop hdigits hend, Text.dropWhile_append_of_stop hdigits hend]

theorem tokensFrom_name {others : List Char} (hfirst : startsName c = true)
    (hothers : ∀ other ∈ others, continuesName other = true)
    (hend : ∀ next ∈ rest.head?, continuesName next = false) :
    tokensFrom position (c :: (others ++ rest)) =
      (⟨tokenOfName (String.ofList (c :: others)), position⟩ :: ·) <$>
        tokensFrom (position + (c :: others).length) rest := by
  obtain ⟨hspace, hopening, hclosing, hequals⟩ := not_sign_of_starts (.inr hfirst)
  rw [tokensFrom_cons, if_neg (by simp [hspace]), if_neg hopening, if_neg hclosing, if_neg hequals,
    if_neg (by simp [startsValue_of_startsName hfirst]), if_pos hfirst,
    Text.takeWhile_append_of_stop hothers hend, Text.dropWhile_append_of_stop hothers hend]

end Lexer

theorem spells_of_tokensFrom {position : Nat} {text : List Char}
    {located : List (Located (Token Word))} (hlocated : tokensFrom position text = .ok located) :
    Spells text (located.map Located.token) := by
  fun_induction tokensFrom position text generalizing located with
  | case1 =>
      cases hlocated
      exact .done
  | case2 position c rest hspace ih => exact .space hspace (ih hlocated)
  | case3 position rest _ ih =>
      obtain ⟨others, hothers, rfl⟩ := map_eq_ok_iff.mp hlocated
      exact .opening (ih hothers)
  | case4 position rest _ _ ih =>
      obtain ⟨others, hothers, rfl⟩ := map_eq_ok_iff.mp hlocated
      exact .closing (ih hothers)
  | case5 position rest _ _ _ ih =>
      obtain ⟨others, hothers, rfl⟩ := map_eq_ok_iff.mp hlocated
      exact .equals (ih hothers)
  | case6 | case8 | case10 => cases hlocated
  | case7 position c rest _ _ _ _ hstarts text value hvalue =>
      rename_i ih
      obtain ⟨others, hothers, rfl⟩ := map_eq_ok_iff.mp hlocated
      have hend := Text.not_accepts_of_head?_dropWhile Char.isDigit rest
      have hdigits : ∀ digit ∈ rest.takeWhile Char.isDigit, digit.isDigit = true :=
        fun digit hdigit => List.mem_takeWhile_imp hdigit
      have hspells := Spells.value hstarts hdigits hend hvalue (ih hothers)
      rwa [List.takeWhile_append_dropWhile] at hspells
  | case9 position c rest _ _ _ _ _ hstarts name =>
      rename_i ih
      obtain ⟨others, hothers, rfl⟩ := map_eq_ok_iff.mp hlocated
      have hend := Text.not_accepts_of_head?_dropWhile continuesName rest
      have hcontinues : ∀ other ∈ rest.takeWhile continuesName, continuesName other = true :=
        fun other hother => List.mem_takeWhile_imp hother
      have hspells := Spells.name hstarts hcontinues hend (ih hothers)
      rwa [List.takeWhile_append_dropWhile] at hspells

/-! ### What comes behind -/

/-- No name and no run of digits goes on from the end of `front` to the beginning of `rest`. -/
def Apart (front rest : List Char) : Prop :=
  ∀ last ∈ front.getLast?, ∀ next ∈ rest.head?, continuesName last = true → continuesName next = false

theorem apart_nil_right (front : List Char) : Apart front [] := by
  intro _ _ next hnext
  cases hnext

section Behind

variable {front rest : List Char}

theorem Apart.of_append (piece : List Char) (hapart : Apart (piece ++ front) rest) : Apart front rest := by
  intro last hlast
  refine hapart last ?_
  rw [List.getLast?_append, hlast]
  rfl

/-- A run that stops before the rest of `front` stops before what comes behind `front`, too. -/
theorem Apart.stop {stops : Char → Bool} (piece : List Char) (hapart : Apart (piece ++ front) rest)
    (hsome : piece ≠ []) (hpiece : ∀ last ∈ piece.getLast?, continuesName last = true)
    (hstops : ∀ {c}, continuesName c = false → stops c = false)
    (hend : ∀ c ∈ front.head?, stops c = false) : ∀ c ∈ (front ++ rest).head?, stops c = false := by
  cases front with
  | cons next later => exact hend
  | nil =>
      intro c hc
      have hlast : piece.getLast hsome ∈ piece.getLast? := List.getLast?_eq_some_getLast hsome
      rw [List.append_nil] at hapart
      exact hstops (hapart _ hlast c hc (hpiece _ hlast))

end Behind

/-- One more token in front of tokens that are followed by others. -/
theorem exists_located_cons {token : Token Word} {tokens : List (Token Word)} {position : Nat}
    {later : Except Refusal (List (Located (Token Word)))}
    {here : Except Refusal (List (Located (Token Word)))}
    (htokens : ∃ located, located.map Located.token = tokens ∧ here = (located ++ ·) <$> later) :
    ∃ located, located.map Located.token = token :: tokens ∧
      (⟨token, position⟩ :: ·) <$> here = (located ++ ·) <$> later := by
  obtain ⟨located, rfl, rfl⟩ := htokens
  exact ⟨⟨token, position⟩ :: located, rfl, by rw [Functor.map_map]; rfl⟩

/-- The tokens of what a text begins with, and those of the rest from where the beginning ends. -/
theorem tokensFrom_append {front rest : List Char} {tokens : List (Token Word)} {finish : Nat}
    (position : Nat) (hspells : Spells front tokens) (hapart : Apart front rest)
    (hfinish : position + front.length = finish) :
    ∃ located, located.map Located.token = tokens ∧
      tokensFrom position (front ++ rest) = (located ++ ·) <$> tokensFrom finish rest := by
  induction hspells generalizing position with
  | done =>
      subst hfinish
      exact ⟨[], rfl, (id_map _).symm⟩
  | @space c front _ hspace _ ih =>
      rw [List.length_cons] at hfinish
      rw [List.cons_append, tokensFrom_space hspace]
      exact ih _ (.of_append [c] hapart) (by omega)
  | opening _ ih =>
      rw [List.length_cons] at hfinish
      rw [List.cons_append, tokensFrom_opening]
      exact exists_located_cons (ih _ (.of_append ['('] hapart) (by omega))
  | closing _ ih =>
      rw [List.length_cons] at hfinish
      rw [List.cons_append, tokensFrom_closing]
      exact exists_located_cons (ih _ (.of_append [')'] hapart) (by omega))
  | equals _ ih =>
      rw [List.length_cons, List.length_cons] at hfinish
      rw [List.cons_append, List.cons_append, tokensFrom_equals]
      exact exists_located_cons (ih _ (.of_append ['=', '='] hapart) (by omega))
  | @value first digits front value _ hfirst hdigits hend hvalue _ ih =>
      rw [List.length_cons, List.length_append] at hfinish
      have hstop : ∀ c ∈ (front ++ rest).head?, c.isDigit = false :=
        Apart.stop (first :: digits) hapart (List.cons_ne_nil _ _)
          (continuesName_of_getLast?_value hfirst hdigits hvalue) isDigit_of_not_continuesName hend
      rw [List.cons_append, List.append_assoc, tokensFrom_value hfirst hdigits hstop, hvalue]
      refine exists_located_cons (ih _ (.of_append (first :: digits) hapart) ?_)
      rw [List.length_cons]
      omega
  | @name first others front _ hfirst hothers hend _ ih =>
      rw [List.length_cons, List.length_append] at hfinish
      have hcontinues : ∀ c ∈ first :: others, continuesName c = true :=
        List.forall_mem_cons.mpr ⟨continuesName_of_startsName hfirst, hothers⟩
      have hstop : ∀ c ∈ (front ++ rest).head?, continuesName c = false :=
        Apart.stop (first :: others) hapart (List.cons_ne_nil _ _)
          (fun last hlast => hcontinues last (List.mem_of_getLast? hlast)) id hend
      rw [List.cons_append, List.append_assoc, tokensFrom_name hfirst hothers hstop]
      refine exists_located_cons (ih _ (.of_append (first :: others) hapart) ?_)
      rw [List.length_cons]
      omega

theorem exists_tokensFrom_of_spells {text : List Char} {tokens : List (Token Word)}
    (hspells : Spells text tokens) (position : Nat) :
    ∃ located, tokensFrom position text = .ok located ∧ located.map Located.token = tokens := by
  obtain ⟨located, htokens, hlocated⟩ :=
    tokensFrom_append position hspells (apart_nil_right text) rfl
  rw [List.append_nil, tokensFrom.eq_def _ []] at hlocated
  refine ⟨located, ?_, htokens⟩
  rw [hlocated]
  exact congrArg Except.ok (List.append_nil located)

theorem tokens_eq_ok_iff {text : String} {tokens : List (Token Word)} :
    (∃ located, Vote.tokens text = .ok located ∧ located.map Located.token = tokens) ↔
      Spells text.toList tokens := by
  constructor
  · rintro ⟨located, hlocated, rfl⟩
    exact spells_of_tokensFrom hlocated
  · intro hspells
    exact exists_tokensFrom_of_spells hspells 0

theorem Spells.append {front rest : List Char} {tokens more : List (Token Word)}
    (hfront : Spells front tokens) (hapart : Apart front rest) (hrest : Spells rest more) :
    Spells (front ++ rest) (tokens ++ more) := by
  obtain ⟨later, hlater, rfl⟩ := exists_tokensFrom_of_spells hrest (0 + front.length)
  obtain ⟨located, rfl, hlocated⟩ := tokensFrom_append 0 hfront hapart rfl
  rw [hlater] at hlocated
  rw [← List.map_append]
  exact spells_of_tokensFrom hlocated

/-! ### Places -/

theorem le_of_spells {text : List Char} {tokens : List (Token Word)} (hspells : Spells text tokens) :
    ∀ c ∈ text, c.toNat ≤ 127 := by
  induction hspells with
  | done => simp
  | space hspace _ ih =>
      rw [isPlainSpace_iff] at hspace
      exact List.forall_mem_cons.mpr ⟨by omega, ih⟩
  | opening _ ih | closing _ ih => exact List.forall_mem_cons.mpr ⟨by decide, ih⟩
  | equals _ ih =>
      exact List.forall_mem_cons.mpr ⟨by decide, List.forall_mem_cons.mpr ⟨by decide, ih⟩⟩
  | value hfirst hdigits _ _ _ ih =>
      rw [startsValue_iff] at hfirst
      refine List.forall_mem_cons.mpr ⟨by omega, List.forall_mem_append.mpr ⟨fun c hc => ?_, ih⟩⟩
      have hdigit := isDigit_iff.mp (hdigits c hc)
      omega
  | name hfirst hothers _ _ ih =>
      rw [startsName_iff] at hfirst
      refine List.forall_mem_cons.mpr ⟨by omega, List.forall_mem_append.mpr ⟨fun c hc => ?_, ih⟩⟩
      have hother := continuesName_iff.mp (hothers c hc)
      omega

/-- A text of tokens has as many bytes as characters. -/
theorem utf8ByteSize_of_spells {text : String} {tokens : List (Token Word)}
    (hspells : Spells text.toList tokens) : text.utf8ByteSize = text.toList.length := by
  rw [← Text.utf8Len_eq_length_iff.mpr (le_of_spells hspells), ← String.utf8ByteSize_ofList, String.ofList_toList]

end Backtest.Vote
