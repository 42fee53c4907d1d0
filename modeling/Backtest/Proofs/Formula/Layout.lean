import Mathlib.Data.String.Basic
import Backtest.Formula.Token

/-!
# Where tokens stand

A language says how each of its tokens is written, which characters may stand in a gap between two tokens,
and which characters would go on with a token. A text is laid out as tokens when it consists of their
characters and of gaps, every token stands at the byte that is noted with it, and no token could have gone
on with what follows it.
-/

namespace Backtest.Formula

/-- A character of two pieces stands behind the first one or in it. -/
theorem behind_or_inside {piece rest front back : List Char} {c : Char}
    (htext : piece ++ rest = front ++ c :: back) :
    (∃ later, front = piece ++ later ∧ rest = later ++ c :: back) ∨ ∃ tail, piece = front ++ c :: tail := by
  rcases List.append_eq_append_iff.mp htext with hbehind | ⟨tail, hpiece, hback⟩
  · exact .inl hbehind
  · cases tail with
    | nil => exact .inl ⟨[], by rw [hpiece, List.append_nil, List.append_nil], hback.symm⟩
    | cons next tail =>
        obtain ⟨rfl, _⟩ := List.cons_eq_cons.mp hback
        exact .inr ⟨tail, hpiece⟩

/-- How a language writes its tokens. -/
structure Lexicon (ω : Type) where
  /-- The characters that mean nothing between tokens. -/
  isGap : Char → Bool
  /-- The characters are a way to write the token. -/
  Writes : Token ω → List Char → Prop
  /-- The character would belong to the token if it followed the token's last one. -/
  continues : Token ω → Char → Bool

namespace Lexicon

variable {ω : Type} {lexicon : Lexicon ω}

/-- The text, which starts at byte `position`, consists of the tokens and of gaps. -/
inductive LaidOut (lexicon : Lexicon ω) : Nat → List Char → List (Located (Token ω)) → Prop
  | done {position : Nat} : LaidOut lexicon position [] []
  | gap {position : Nat} {c : Char} {rest : List Char} {located : List (Located (Token ω))}
      (hgap : lexicon.isGap c = true) (hrest : LaidOut lexicon (position + c.utf8Size) rest located) :
      LaidOut lexicon position (c :: rest) located
  | token {position : Nat} {token : Token ω} (piece : List Char) {rest : List Char}
      {located : List (Located (Token ω))} (hpiece : lexicon.Writes token piece)
      (hend : ∀ c ∈ rest.head?, lexicon.continues token c = false)
      (hrest : LaidOut lexicon (position + String.utf8Len piece) rest located) :
      LaidOut lexicon position (piece ++ rest) (⟨token, position⟩ :: located)

namespace LaidOut

variable {position : Nat} {text : List Char} {located : List (Located (Token ω))}

/-- Every token is written where it stands, and what follows does not go on with it. -/
theorem exists_front (hlaid : lexicon.LaidOut position text located) {token : Located (Token ω)}
    (htoken : token ∈ located) :
    ∃ front piece back, text = front ++ (piece ++ back) ∧
      token.position = position + String.utf8Len front ∧ lexicon.Writes token.token piece ∧
      ∀ c ∈ back.head?, lexicon.continues token.token c = false := by
  induction hlaid with
  | done => cases htoken
  | @gap position c rest located _ _ ih =>
      obtain ⟨front, piece, back, rfl, hposition, hpiece⟩ := ih htoken
      refine ⟨c :: front, piece, back, rfl, ?_, hpiece⟩
      rw [hposition, String.utf8Len_cons]
      omega
  | @token position first piece rest located hpiece hend _ ih =>
      rcases List.mem_cons.mp htoken with rfl | hlater
      · exact ⟨[], piece, rest, rfl, rfl, hpiece, hend⟩
      · obtain ⟨front, other, back, rfl, hposition, hother⟩ := ih hlater
        refine ⟨piece ++ front, other, back, (List.append_assoc ..).symm, ?_, hother⟩
        rw [hposition, String.utf8Len_append, Nat.add_assoc]

/-- No token begins before the ones in front of it have ended. -/
theorem pairwise (hlaid : lexicon.LaidOut position text located) :
    located.Pairwise fun first second =>
      ∃ piece, lexicon.Writes first.token piece ∧
        first.position + String.utf8Len piece ≤ second.position := by
  induction hlaid with
  | done => exact .nil
  | gap _ _ ih => exact ih
  | @token position token piece rest located hpiece _ hrest ih =>
      refine .cons (fun second hsecond => ⟨piece, hpiece, ?_⟩) ih
      obtain ⟨front, _, _, _, hposition, _⟩ := hrest.exists_front hsecond
      rw [hposition]
      exact Nat.le_add_right _ _

/-- Every character stands in a gap or in a token as it is written in the text. -/
theorem gap_or_written (hlaid : lexicon.LaidOut position text located) {front back : List Char} {c : Char}
    (htext : text = front ++ c :: back) :
    lexicon.isGap c = true ∨
      ∃ token ∈ located, ∃ before start tail after, front = before ++ start ∧ back = tail ++ after ∧
        token.position = position + String.utf8Len before ∧
        lexicon.Writes token.token (start ++ c :: tail) ∧
        ∀ c ∈ after.head?, lexicon.continues token.token c = false := by
  induction hlaid generalizing front with
  | done => simp at htext
  | @gap position first rest located hgap _ ih =>
      rcases List.cons_eq_append_iff.mp htext with ⟨rfl, hsplit⟩ | ⟨front, rfl, hsplit⟩
      · obtain ⟨rfl, _⟩ := List.cons_eq_cons.mp hsplit
        exact .inl hgap
      · refine (ih hsplit).imp_right ?_
        rintro ⟨token, htoken, before, start, tail, after, rfl, hback, hposition, hwritten⟩
        refine ⟨token, htoken, first :: before, start, tail, after, rfl, hback, ?_, hwritten⟩
        rw [hposition, String.utf8Len_cons]
        omega
  | @token position token piece rest located hpiece hend _ ih =>
      rcases behind_or_inside htext with ⟨front, rfl, hsplit⟩ | ⟨tail, rfl⟩
      · refine (ih hsplit).imp_right ?_
        rintro ⟨later, hlater, before, start, tail, after, rfl, hback, hposition, hwritten⟩
        refine ⟨later, List.mem_cons_of_mem _ hlater, piece ++ before, start, tail, after,
          (List.append_assoc ..).symm, hback, ?_, hwritten⟩
        rw [hposition, String.utf8Len_append, Nat.add_assoc]
      · rw [List.append_assoc, List.append_cancel_left_eq, List.cons_append] at htext
        exact .inr ⟨_, List.mem_cons_self, [], front, tail, rest, rfl, (List.cons_eq_cons.mp htext).2.symm,
          rfl, hpiece, hend⟩

/-- Every character stands in a gap or is one of a token's own. -/
theorem gap_or_inside (hlaid : lexicon.LaidOut position text located) {front back : List Char} {c : Char}
    (htext : text = front ++ c :: back) :
    lexicon.isGap c = true ∨
      ∃ token ∈ located, ∃ before start tail, front = before ++ start ∧
        token.position = position + String.utf8Len before ∧
        lexicon.Writes token.token (start ++ c :: tail) := by
  refine (hlaid.gap_or_written htext).imp_right ?_
  rintro ⟨token, htoken, before, start, tail, after, hfront, _, hposition, hwritten, _⟩
  exact ⟨token, htoken, before, start, tail, hfront, hposition, hwritten⟩

theorem forall_mem (hlaid : lexicon.LaidOut position text located) {holds : Char → Prop}
    (hgap : ∀ c, lexicon.isGap c = true → holds c)
    (hpiece : ∀ token piece, lexicon.Writes token piece → ∀ c ∈ piece, holds c) :
    ∀ c ∈ text, holds c := by
  intro c hc
  obtain ⟨front, back, htext⟩ := List.append_of_mem hc
  rcases hlaid.gap_or_inside htext with hspace | ⟨token, _, _, start, tail, _, _, hwritten⟩
  · exact hgap c hspace
  · exact hpiece _ _ hwritten c (List.mem_append_right _ List.mem_cons_self)

end LaidOut

/-! ### Texts that are refused -/

/-- The text is laid out as tokens up to the place of the refusal, and what stands in front of it and behind
it is what the fault is about. -/
def StopsAt (lexicon : Lexicon ω) (Explains : Fault → List Char → List Char → Prop) (position : Nat)
    (text : List Char) (refusal : Refusal) : Prop :=
  ∃ front back located, text = front ++ back ∧ lexicon.LaidOut position front located ∧
    Explains refusal.fault front back ∧ refusal.position = position + String.utf8Len front

namespace StopsAt

variable {Explains : Fault → List Char → List Char → Prop} {position : Nat} {rest : List Char}
  {refusal : Refusal}

theorem here {text : List Char} {fault : Fault} (hexplains : Explains fault [] text) :
    lexicon.StopsAt Explains position text ⟨fault, position⟩ :=
  ⟨[], text, [], rfl, .done, hexplains, rfl⟩

theorem behind_gap {c : Char} (hgap : lexicon.isGap c = true)
    (hrest : lexicon.StopsAt Explains (position + c.utf8Size) rest refusal)
    (hexplains : ∀ fault front back, Explains fault front back → rest = front ++ back →
      Explains fault (c :: front) back) : lexicon.StopsAt Explains position (c :: rest) refusal := by
  obtain ⟨front, back, located, rfl, hlaid, hstop, hposition⟩ := hrest
  refine ⟨c :: front, back, located, rfl, .gap hgap hlaid, hexplains _ _ _ hstop rfl, ?_⟩
  rw [hposition, String.utf8Len_cons]
  omega

theorem behind_token {token : Token ω} (piece : List Char) (hpiece : lexicon.Writes token piece)
    (hend : ∀ c ∈ rest.head?, lexicon.continues token c = false)
    (hrest : lexicon.StopsAt Explains (position + String.utf8Len piece) rest refusal)
    (hexplains : ∀ fault front back, Explains fault front back → rest = front ++ back →
      Explains fault (piece ++ front) back) :
    lexicon.StopsAt Explains position (piece ++ rest) refusal := by
  obtain ⟨front, back, located, rfl, hlaid, hstop, hposition⟩ := hrest
  have hfront : ∀ c ∈ front.head?, lexicon.continues token c = false := by
    intro c hc
    refine hend c ?_
    rw [List.head?_append, hc]
    rfl
  refine ⟨piece ++ front, back, _, (List.append_assoc ..).symm, .token piece hpiece hfront hlaid,
    hexplains _ _ _ hstop rfl, ?_⟩
  rw [hposition, String.utf8Len_append, Nat.add_assoc]

end StopsAt

end Lexicon

end Backtest.Formula
