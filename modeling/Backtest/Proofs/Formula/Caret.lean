import Backtest.Proofs.Condition.Layout
import Backtest.Proofs.Text.Items
import Backtest.Proofs.Vote.Layout

/-!
# The caret under a fault

A refusal is shown with a caret below the text, as many columns in as its place counts bytes. What is in
front of the place has been read, so it consists of tokens and of what may stand between them. A vote has
only ASCII there. A condition may have other white space there, and every such blank moves the caret too
far to the right.
-/

namespace Backtest.Formula

variable {ω π β : Type}

/-! ### Places -/

/-- The place is a number of bytes at the beginning of the text, whose characters all meet the condition. -/
def Follows (holds : Char → Prop) (text : List Char) (position : Nat) : Prop :=
  ∃ front back, text = front ++ back ∧ String.utf8Len front = position ∧ ∀ c ∈ front, holds c

section Places

variable {lexicon : Lexicon ω} {holds : Char → Prop}

/-- The places of tokens, and the end of the text. -/
theorem follows_of_laidOut {text : List Char} {located : List (Located (Token ω))}
    (hlaid : lexicon.LaidOut 0 text located) (hholds : ∀ c ∈ text, holds c) {position : Nat}
    (hplace : (∃ token ∈ located, token.position = position) ∨ position = String.utf8Len text) :
    Follows holds text position := by
  rcases hplace with ⟨token, htoken, rfl⟩ | rfl
  · obtain ⟨front, piece, back, rfl, hposition, _⟩ := hlaid.exists_front htoken
    rw [Nat.zero_add] at hposition
    exact ⟨front, piece ++ back, rfl, hposition.symm, fun c hc => hholds c (List.mem_append_left _ hc)⟩
  · exact ⟨text, [], (List.append_nil text).symm, rfl, hholds⟩

/-- Wherever a language refuses a text, what stands in front has been read as tokens. -/
theorem follows_of_refused {Explains : Fault → List Char → List Char → Prop} {language : Operands ω π β}
    {text : String} {tokens : Except Refusal (List (Located (Token ω)))} {refusal : Refusal}
    (hlaid : ∀ located, tokens = .ok located → lexicon.LaidOut 0 text.toList located)
    (hstops : ∀ refusal, tokens = .error refusal → lexicon.StopsAt Explains 0 text.toList refusal)
    (hholds : ∀ front located, lexicon.LaidOut 0 front located → ∀ c ∈ front, holds c)
    (hrefusal : (if Text.isBlankText text then .error ⟨.empty, 0⟩
      else do
        let located ← tokens
        checkLimits located
        ofTokens language text.utf8ByteSize located) = .error refusal) :
    Follows holds text.toList refusal.position := by
  split_ifs at hrefusal
  · cases hrefusal
    exact ⟨[], text.toList, rfl, rfl, by simp⟩
  rcases bind_eq_error_iff.mp hrefusal with hcut | ⟨located, hlocated, hrest⟩
  · obtain ⟨front, back, before, htext, hbefore, _, hposition⟩ := hstops refusal hcut
    exact ⟨front, back, htext, (hposition.trans (Nat.zero_add _)).symm, hholds front before hbefore⟩
  · have hlocated := hlaid located hlocated
    refine follows_of_laidOut hlocated (hholds _ located hlocated) ?_
    rcases bind_eq_error_iff.mp hrest with hlimits | ⟨_, _, hparse⟩
    · exact .inl (exists_mem_of_checkLimits hlimits)
    · rw [← String.utf8ByteSize_ofList, String.ofList_toList]
      exact exists_mem_of_ofTokens hparse

end Places

/-! ### The second line -/

/-- The line below the text is a caret behind `columns` blanks. -/
def CaretAfter (refusal : Refusal) (text : String) (columns : Nat) : Prop :=
  (Text.pieces '\n' (refusal.context text).toList)[1]? = some (List.replicate columns ' ' ++ ['^'])

theorem caretAfter_iff {refusal : Refusal} {text : String} (hline : '\n' ∉ text.toList) {columns : Nat} :
    CaretAfter refusal text columns ↔ columns = refusal.position := by
  have hlines : (refusal.context text).toList =
      text.toList ++ '\n' :: ((List.replicate refusal.position ' ' ++ ['^']) ++
        '\n' :: refusal.message.toList) := by
    simp [Refusal.context, ToString.toString]
  have hblanks : '\n' ∉ List.replicate refusal.position ' ' ++ ['^'] := by simp
  rw [CaretAfter, hlines, Text.pieces_append_cons hline, Text.pieces_append_cons hblanks,
    List.getElem?_cons_succ, List.getElem?_cons_zero, Option.some_inj, List.append_left_inj,
    List.replicate_left_inj, eq_comm]

/-- The caret stands under the place when there are as many characters in front of it as bytes. -/
theorem exists_front_of_follows {holds : Char → Prop} {refusal : Refusal} {text : String}
    (hline : '\n' ∉ text.toList) (hfollows : Follows holds text.toList refusal.position) :
    ∃ front back, text = front ++ back ∧ front.utf8ByteSize = refusal.position ∧
      (∀ c ∈ front.toList, holds c) ∧
      (CaretAfter refusal text front.length ↔ ∀ c ∈ front.toList, c.toNat ≤ 127) := by
  obtain ⟨front, back, htext, hposition, hholds⟩ := hfollows
  refine ⟨String.ofList front, String.ofList back, ?_, ?_, ?_, ?_⟩
  · rw [← String.ofList_append, ← htext, String.ofList_toList]
  · rw [String.utf8ByteSize_ofList, hposition]
  · rwa [String.toList_ofList]
  · rw [caretAfter_iff hline, String.length_ofList, String.toList_ofList, ← hposition, eq_comm,
      Text.utf8Len_eq_length_iff]

/-! ### The two languages -/

section Languages

variable {text : String} {refusal : Refusal}

/-- What a condition may have in front of a fault. -/
def OfCondition (c : Char) : Prop := Text.isBlank c = true ∨ c.toNat ≤ 127

theorem ofCondition_of_laidOut {front : List Char} {located : List (Located (Token String))}
    (hlaid : Condition.lexicon.LaidOut 0 front located) : ∀ c ∈ front, OfCondition c :=
  hlaid.forall_mem (fun _ hblank => .inl hblank) fun _ _ hwrites c hc =>
    .inr (Condition.IsWritten.le hwrites c hc)

theorem follows_of_condition {available : List String}
    (hrefusal : Condition.parse available text = .error refusal) :
    Follows OfCondition text.toList refusal.position :=
  follows_of_refused (fun _ => Condition.laidOut_of_tokensFrom) (fun _ => Condition.stopsAt_of_tokensFrom)
    (fun _ _ => ofCondition_of_laidOut) hrefusal

theorem follows_of_vote (hrefusal : Vote.parse text = .error refusal) :
    Follows (·.toNat ≤ 127) text.toList refusal.position :=
  follows_of_refused (fun _ => Vote.laidOut_of_tokensFrom) (fun _ => Vote.stopsAt_of_tokensFrom)
    (fun _ _ => Vote.le_of_laidOut) hrefusal

end Languages

/-- **The caret under a fault.** The number of blanks in front of the caret is the number of characters in
front of the place where a vote is refused. For a condition it is this number exactly when every blank in
front of the place is of ASCII. -/
theorem caret_under_fault (text : String) (hline : '\n' ∉ text.toList) :
    (∀ available refusal, Condition.parse available text = .error refusal →
      ∃ front back, text = front ++ back ∧ front.utf8ByteSize = refusal.position ∧
        (CaretAfter refusal text front.length ↔
          ∀ c ∈ front.toList, Text.isBlank c = true → c.toNat ≤ 127)) ∧
    ∀ refusal, Vote.parse text = .error refusal →
      ∃ front back, text = front ++ back ∧ front.utf8ByteSize = refusal.position ∧
        CaretAfter refusal text front.length := by
  constructor
  · intro available refusal hrefusal
    obtain ⟨front, back, htext, hposition, hfront, hcaret⟩ :=
      exists_front_of_follows hline (follows_of_condition hrefusal)
    refine ⟨front, back, htext, hposition, hcaret.trans ?_⟩
    constructor
    · exact fun hcodes c hc _ => hcodes c hc
    · exact fun hblanks c hc => (hfront c hc).elim (hblanks c hc) id
  · intro refusal hrefusal
    obtain ⟨front, back, htext, hposition, hfront, hcaret⟩ :=
      exists_front_of_follows hline (follows_of_vote hrefusal)
    exact ⟨front, back, htext, hposition, hcaret.mpr hfront⟩

/-- An unknown name behind plain blanks, and a lone equals sign. -/
theorem caret_under_fault_sample :
    ('\n' ∉ "up AND dip".toList ∧
      Condition.parse ["up"] "up AND dip" = .error ⟨.unknownCondition "dip", 7⟩ ∧
      ∃ front back, "up AND dip" = front ++ back ∧ front.utf8ByteSize = 7 ∧
        CaretAfter ⟨.unknownCondition "dip", 7⟩ "up AND dip" front.length) ∧
    '\n' ∉ "trend = 1".toList ∧ Vote.parse "trend = 1" = .error ⟨.loneEqualsSign, 6⟩ ∧
      ∃ front back, "trend = 1" = front ++ back ∧ front.utf8ByteSize = 6 ∧
        CaretAfter ⟨.loneEqualsSign, 6⟩ "trend = 1" front.length := by
  have hcondition : Condition.parse ["up"] "up AND dip" = .error ⟨.unknownCondition "dip", 7⟩ := by
    decide +kernel
  have hvote : Vote.parse "trend = 1" = .error ⟨.loneEqualsSign, 6⟩ := by decide +kernel
  have hcodes : ("up AND dip".toList.all fun c => decide (c.toNat ≤ 127)) = true := rfl
  obtain ⟨front, back, htext, hposition, hcaret⟩ :=
    (caret_under_fault "up AND dip" (by decide)).1 _ _ hcondition
  refine ⟨⟨by decide, hcondition, front, back, htext, hposition, hcaret.mpr fun c hc _ => ?_⟩,
    by decide, hvote, (caret_under_fault "trend = 1" (by decide)).2 _ hvote⟩
  refine of_decide_eq_true (List.all_eq_true.mp hcodes c ?_)
  rw [htext, String.toList_append]
  exact List.mem_append_left _ hc

/-- A hard blank takes two bytes and one column, so the caret stands one column behind the fault. -/
theorem exists_caret_behind_fault :
    ∃ refusal front back, '\n' ∉ "A\u00a0&".toList ∧ Condition.parse ["A"] "A\u00a0&" = .error refusal ∧
      "A\u00a0&" = front ++ back ∧ front.utf8ByteSize = refusal.position ∧
      ¬CaretAfter refusal "A\u00a0&" front.length := by
  have hline : '\n' ∉ "A\u00a0&".toList := by decide
  refine ⟨⟨.unexpectedCharacter '&', 3⟩, "A\u00a0", "&", hline, by decide +kernel, by decide, by decide, ?_⟩
  rw [caretAfter_iff hline]
  decide

end Backtest.Formula
