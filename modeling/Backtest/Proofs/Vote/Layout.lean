import Backtest.Proofs.Formula.Layout
import Backtest.Proofs.Vote.Spelling

/-!
# Tokens of votes in their text

The vote lexer counts one byte for every character that it passes. It is right to do so, because everything
that it passes is of ASCII: only the character that it stops at may be another.
-/

namespace Backtest.Vote

open Formula

/-! ### The lexicon -/

/-- The characters are a sign, a position value or a name, and the token is the one that they stand for. -/
inductive IsWritten : Token Word → List Char → Prop
  | opening : IsWritten .opening ['(']
  | closing : IsWritten .closing [')']
  | equals : IsWritten (.word .equals) ['=', '=']
  | value {first : Char} {digits : List Char} {position : Position} (hfirst : startsValue first = true)
      (hdigits : ∀ c ∈ digits, c.isDigit = true)
      (hposition : positionOf? (first :: digits) = some position) :
      IsWritten (.word (.value position)) (first :: digits)
  | name {first : Char} {others : List Char} (hfirst : startsName first = true)
      (hothers : ∀ c ∈ others, continuesName c = true) :
      IsWritten (tokenOfName (String.ofList (first :: others))) (first :: others)

/-- Digits go on with a value, characters of names with a name or a connective. -/
def continues : Token Word → Char → Bool
  | .opening, _ | .closing, _ | .word .equals, _ => false
  | .word (.value _), c => c.isDigit
  | .word (.name _), c | .conjunction, c | .disjunction, c => continuesName c

def lexicon : Lexicon Word where
  isGap := Text.isPlainSpace
  Writes := IsWritten
  continues := continues

theorem continues_tokenOfName (name : String) : continues (tokenOfName name) = continuesName := by
  rw [tokenOfName]
  split_ifs <;> rfl

/-! ### Everything that is passed is of ASCII -/

section Codes

variable {token : Token Word} {piece rest : List Char}

/-- A token in front of a text that does not go on with it. -/
theorem IsWritten.spells (hwrites : IsWritten token piece)
    (hend : ∀ c ∈ rest.head?, continues token c = false) {tokens : List (Token Word)}
    (hrest : Spells rest tokens) : Spells (piece ++ rest) (token :: tokens) := by
  cases hwrites with
  | opening => exact .opening hrest
  | closing => exact .closing hrest
  | equals => exact .equals hrest
  | value hfirst hdigits hposition => exact .value hfirst hdigits hend hposition hrest
  | name hfirst hothers =>
      rw [continues_tokenOfName] at hend
      exact .name hfirst hothers hend hrest

theorem IsWritten.le (hwrites : IsWritten token piece) : ∀ c ∈ piece, c.toNat ≤ 127 := by
  have hspells : Spells (piece ++ []) [token] := hwrites.spells (by simp) .done
  rw [List.append_nil] at hspells
  exact le_of_spells hspells

theorem IsWritten.utf8Len_eq (hwrites : IsWritten token piece) : String.utf8Len piece = piece.length :=
  Text.utf8Len_eq_length_iff.mpr hwrites.le

theorem utf8Size_of_isPlainSpace {c : Char} (hspace : Text.isPlainSpace c = true) : c.utf8Size = 1 := by
  rw [isPlainSpace_iff] at hspace
  exact Text.utf8Size_eq_one_iff.mpr (by omega)

theorem le_of_laidOut {position : Nat} {text : List Char} {located : List (Located (Token Word))}
    (hlaid : lexicon.LaidOut position text located) : ∀ c ∈ text, c.toNat ≤ 127 := by
  refine hlaid.forall_mem (fun c hspace => ?_) fun _ _ hwrites => IsWritten.le hwrites
  have hcode := isPlainSpace_iff.mp hspace
  omega

end Codes

/-! ### Texts that are cut, and texts that are refused -/

/-- The fault is about what begins behind the tokens that have been read: one equals sign alone, a run of
digits that is no position, or a character that begins nothing. -/
inductive Explains : Fault → List Char → List Char → Prop
  | loneEqualsSign {front rest : List Char} (hlone : rest.head? ≠ some '=') :
      Explains .loneEqualsSign front ('=' :: rest)
  | noPosition {front digits rest : List Char} {first : Char} (hfirst : startsValue first = true)
      (hdigits : ∀ c ∈ digits, c.isDigit = true) (hend : ∀ c ∈ rest.head?, c.isDigit = false)
      (hposition : positionOf? (first :: digits) = none) :
      Explains (.noPosition (String.ofList (first :: digits))) front (first :: (digits ++ rest))
  | unexpectedCharacter {front rest : List Char} {c : Char} (hspace : Text.isPlainSpace c = false)
      (hsign : c ≠ '(' ∧ c ≠ ')' ∧ c ≠ '=') (hvalue : startsValue c = false)
      (hname : startsName c = false) : Explains (.unexpectedCharacter c) front (c :: rest)

/-- What is in front makes no difference to the fault. -/
theorem Explains.behind {fault : Fault} {front back : List Char} (hexplains : Explains fault front back)
    (other : List Char) : Explains fault other back := by
  cases hexplains with
  | loneEqualsSign hlone => exact .loneEqualsSign hlone
  | noPosition hfirst hdigits hend hposition => exact .noPosition hfirst hdigits hend hposition
  | unexpectedCharacter hspace hsign hvalue hname => exact .unexpectedCharacter hspace hsign hvalue hname

section Lexer

variable {position : Nat} {text rest : List Char} {c : Char}

/-- What the lexer takes for a value. -/
theorem isWritten_takeWhile_isDigit (hstarts : startsValue c = true) {value : Position}
    (hvalue : positionOf? (c :: rest.takeWhile Char.isDigit) = some value) :
    IsWritten (.word (.value value)) (c :: rest.takeWhile Char.isDigit) :=
  .value hstarts (fun _ hdigit => List.mem_takeWhile_imp hdigit) hvalue

/-- What the lexer takes for a name, and what follows it. -/
theorem isWritten_takeWhile_continuesName (hstarts : startsName c = true) :
    let name := c :: rest.takeWhile continuesName
    IsWritten (tokenOfName (String.ofList name)) name ∧
      ∀ next ∈ (rest.dropWhile continuesName).head?,
        continues (tokenOfName (String.ofList name)) next = false := by
  refine ⟨.name hstarts fun _ hother => List.mem_takeWhile_imp hother, ?_⟩
  rw [continues_tokenOfName]
  exact Text.not_accepts_of_head?_dropWhile continuesName rest

theorem laidOut_of_tokensFrom {located : List (Located (Token Word))}
    (hlocated : tokensFrom position text = .ok located) : lexicon.LaidOut position text located := by
  fun_induction tokensFrom position text generalizing located with
  | case1 =>
      cases hlocated
      exact .done
  | case2 position c rest hspace ih => exact .gap hspace (utf8Size_of_isPlainSpace hspace ▸ ih hlocated)
  | case3 position rest _ ih =>
      obtain ⟨others, hothers, rfl⟩ := map_eq_ok_iff.mp hlocated
      exact .token ['('] IsWritten.opening (fun _ _ => rfl) (ih hothers)
  | case4 position rest _ _ ih =>
      obtain ⟨others, hothers, rfl⟩ := map_eq_ok_iff.mp hlocated
      exact .token [')'] IsWritten.closing (fun _ _ => rfl) (ih hothers)
  | case5 position rest _ _ _ ih =>
      obtain ⟨others, hothers, rfl⟩ := map_eq_ok_iff.mp hlocated
      exact .token ['=', '='] IsWritten.equals (fun _ _ => rfl) (ih hothers)
  | case6 | case8 | case10 => cases hlocated
  | case7 position c rest _ _ _ _ hstarts text value hvalue =>
      rename_i ih
      obtain ⟨others, hothers, rfl⟩ := map_eq_ok_iff.mp hlocated
      have hwrites := isWritten_takeWhile_isDigit hstarts hvalue
      have hlaid : lexicon.LaidOut position (text ++ rest.dropWhile Char.isDigit) _ :=
        .token text hwrites (Text.not_accepts_of_head?_dropWhile Char.isDigit rest)
          (hwrites.utf8Len_eq ▸ ih hothers)
      rwa [List.cons_append, List.takeWhile_append_dropWhile] at hlaid
  | case9 position c rest _ _ _ _ _ hstarts name =>
      rename_i ih
      obtain ⟨others, hothers, rfl⟩ := map_eq_ok_iff.mp hlocated
      obtain ⟨hwrites, hend⟩ := isWritten_takeWhile_continuesName hstarts
      have hlaid : lexicon.LaidOut position (name ++ rest.dropWhile continuesName) _ :=
        .token name hwrites hend (hwrites.utf8Len_eq ▸ ih hothers)
      rwa [List.cons_append, List.takeWhile_append_dropWhile] at hlaid

theorem stopsAt_of_tokensFrom {refusal : Refusal} (hrefusal : tokensFrom position text = .error refusal) :
    lexicon.StopsAt Explains position text refusal := by
  fun_induction tokensFrom position text with
  | case1 => cases hrefusal
  | case2 position c rest hspace ih =>
      exact .behind_gap hspace (utf8Size_of_isPlainSpace hspace ▸ ih hrefusal)
        fun _ _ _ hexplains _ => hexplains.behind _
  | case3 position rest _ ih =>
      exact .behind_token ['('] IsWritten.opening (fun _ _ => rfl) (ih (map_eq_error_iff.mp hrefusal))
        fun _ _ _ hexplains _ => hexplains.behind _
  | case4 position rest _ _ ih =>
      exact .behind_token [')'] IsWritten.closing (fun _ _ => rfl) (ih (map_eq_error_iff.mp hrefusal))
        fun _ _ _ hexplains _ => hexplains.behind _
  | case5 position rest _ _ _ ih =>
      exact .behind_token ['=', '='] IsWritten.equals (fun _ _ => rfl) (ih (map_eq_error_iff.mp hrefusal))
        fun _ _ _ hexplains _ => hexplains.behind _
  | case6 position rest hlone =>
      cases hrefusal
      refine .here (.loneEqualsSign fun hnext => ?_)
      obtain ⟨later, rfl⟩ := List.head?_eq_some_iff.mp hnext
      exact hlone later rfl
  | case7 position c rest _ _ _ _ hstarts text value hvalue =>
      rename_i ih
      have hwrites := isWritten_takeWhile_isDigit hstarts hvalue
      have hstops : lexicon.StopsAt Explains position (text ++ rest.dropWhile Char.isDigit) refusal :=
        .behind_token text hwrites (Text.not_accepts_of_head?_dropWhile Char.isDigit rest)
          (hwrites.utf8Len_eq ▸ ih (map_eq_error_iff.mp hrefusal)) fun _ _ _ hexplains _ => hexplains.behind _
      rwa [List.cons_append, List.takeWhile_append_dropWhile] at hstops
  | case8 position c rest _ _ _ _ hstarts text hvalue =>
      cases hrefusal
      have hstops : lexicon.StopsAt Explains position (text ++ rest.dropWhile Char.isDigit)
          ⟨.noPosition (String.ofList text), position⟩ :=
        .here (.noPosition hstarts (fun digit hdigit => List.mem_takeWhile_imp hdigit)
          (Text.not_accepts_of_head?_dropWhile Char.isDigit rest) hvalue)
      rwa [List.cons_append, List.takeWhile_append_dropWhile] at hstops
  | case9 position c rest _ _ _ _ _ hstarts name =>
      rename_i ih
      obtain ⟨hwrites, hend⟩ := isWritten_takeWhile_continuesName hstarts
      have hstops : lexicon.StopsAt Explains position (name ++ rest.dropWhile continuesName) refusal :=
        .behind_token name hwrites hend (hwrites.utf8Len_eq ▸ ih (map_eq_error_iff.mp hrefusal))
          fun _ _ _ hexplains _ => hexplains.behind _
      rwa [List.cons_append, List.takeWhile_append_dropWhile] at hstops
  | case10 position c rest hspace hopening hclosing hequals hvalue hname =>
      cases hrefusal
      exact .here (.unexpectedCharacter (by simpa using hspace) ⟨hopening, hclosing, hequals⟩
        (by simpa using hvalue) (by simpa using hname))

end Lexer

end Backtest.Vote
