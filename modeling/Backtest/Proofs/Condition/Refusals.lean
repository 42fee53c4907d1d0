import Backtest.Proofs.Condition.Names
import Backtest.Proofs.Formula.Viability
import Backtest.Proofs.Text.Bytes

/-!
# Where a condition is refused

A text that falls into tokens within the limits is refused at the first token that no formula over the
available names has in its place. Where a token stands is the number of bytes in front of it, and what is
in front of it are the tokens before it with white space between them.
-/

namespace Backtest.Condition

open Formula

/-! ### Words -/

theorem text_tokenOfWord (word : String) : (tokenOfWord word).text id = word := by
  rw [tokenOfWord]
  split_ifs with hand hor
  · exact hand.symm
  · exact hor.symm
  · rfl

theorem le_of_continuesWord {c : Char} (hcontinues : continuesWord c = true) : c.toNat ≤ 127 := by
  rw [continuesWord_iff] at hcontinues
  omega

theorem continuesWord_of_startsWord {c : Char} (hstarts : startsWord c = true) : continuesWord c = true := by
  rw [startsWord, Bool.or_eq_true] at hstarts
  rw [continuesWord, Char.isAlphanum, Bool.or_eq_true, Bool.or_eq_true]
  exact hstarts.imp_left .inl

theorem utf8Len_of_continuesWord {word : List Char} (hword : ∀ c ∈ word, continuesWord c = true) :
    String.utf8Len word = word.length :=
  Text.utf8Len_eq_length_iff.mpr fun c hc => le_of_continuesWord (hword c hc)

/-- What follows the longest word does not continue it. -/
theorem not_continuesWord_of_head? {rest front : List Char} (hfront : front <+: rest.dropWhile continuesWord) :
    ∀ c ∈ front.head?, continuesWord c = false := by
  intro c hc
  obtain ⟨back, hback⟩ := hfront
  refine Text.not_accepts_of_head?_dropWhile continuesWord rest c ?_
  rw [← hback, List.head?_append, hc]
  rfl

/-! ### Places of tokens -/

/-- In front of the token, from `position` on, are the tokens before it and white space, as many bytes as
its place says. -/
def StandsAfter (before : List (Token String)) (position : Nat) (text : List Char)
    (located : Located (Token String)) : Prop :=
  ∃ front back, text = front ++ ((located.token.text id).toList ++ back) ∧ Spells front before ∧
    located.position = position + String.utf8Len front

namespace StandsAfter

variable {position : Nat} {rest : List Char} {before : List (Token String)}
  {located : Located (Token String)}

theorem blank {c : Char} (hblank : Text.isBlank c = true)
    (hrest : StandsAfter before (position + c.utf8Size) rest located) :
    StandsAfter before position (c :: rest) located := by
  obtain ⟨front, back, rfl, hspells, hposition⟩ := hrest
  refine ⟨c :: front, back, rfl, .blank hblank hspells, ?_⟩
  rw [hposition, String.utf8Len_cons]
  omega

variable {token : Token String} {piece : List Char}

theorem first (hpiece : (token.text id).toList = piece) :
    StandsAfter [] position (piece ++ rest) ⟨token, position⟩ :=
  ⟨[], rest, by rw [hpiece, List.nil_append], .done, rfl⟩

/-- One more token in front, which does not run into what follows it. -/
theorem behind
    (htoken : ∀ front tokens, front <+: rest → Spells front tokens → Spells (piece ++ front) (token :: tokens))
    (hrest : StandsAfter before (position + String.utf8Len piece) rest located) :
    StandsAfter (token :: before) position (piece ++ rest) located := by
  obtain ⟨front, back, rfl, hspells, hposition⟩ := hrest
  refine ⟨piece ++ front, back, (List.append_assoc ..).symm,
    htoken front before (List.prefix_append ..) hspells, ?_⟩
  rw [hposition, String.utf8Len_append, Nat.add_assoc]

/-- The token at the head of a text and those behind it. -/
theorem cons {others listed after : List (Located (Token String))}
    (hpiece : (token.text id).toList = piece)
    (htoken : ∀ front tokens, front <+: rest → Spells front tokens → Spells (piece ++ front) (token :: tokens))
    (hlisted : ⟨token, position⟩ :: others = listed ++ located :: after)
    (hothers : ∀ listed, others = listed ++ located :: after →
      StandsAfter (listed.map Located.token) (position + String.utf8Len piece) rest located) :
    StandsAfter (listed.map Located.token) position (piece ++ rest) located := by
  rcases List.cons_eq_append_iff.mp hlisted with ⟨rfl, hfirst⟩ | ⟨listed, rfl, hsplit⟩
  · cases hfirst
    exact first hpiece
  · exact behind htoken (hothers listed hsplit)

end StandsAfter

theorem standsAfter_of_tokensFrom {position : Nat} {text : List Char}
    {located listed after : List (Located (Token String))} {token : Located (Token String)}
    (hlocated : tokensFrom position text = .ok located) (hlisted : located = listed ++ token :: after) :
    StandsAfter (listed.map Located.token) position text token := by
  fun_induction tokensFrom position text generalizing located listed with
  | case1 =>
      cases hlocated
      simp at hlisted
  | case2 position c rest hblank ih => exact .blank hblank (ih hlocated hlisted)
  | case3 position rest _ ih =>
      obtain ⟨others, hothers, rfl⟩ := map_eq_ok_iff.mp hlocated
      exact .cons rfl (fun _ _ _ => .opening) hlisted fun _ => ih hothers
  | case4 position rest _ _ ih =>
      obtain ⟨others, hothers, rfl⟩ := map_eq_ok_iff.mp hlocated
      exact .cons rfl (fun _ _ _ => .closing) hlisted fun _ => ih hothers
  | case5 position c rest _ _ _ hstarts word =>
      rename_i ih
      obtain ⟨others, hothers, rfl⟩ := map_eq_ok_iff.mp hlocated
      have hcontinues : ∀ other ∈ rest.takeWhile continuesWord, continuesWord other = true :=
        fun other hother => List.mem_takeWhile_imp hother
      have hlength : String.utf8Len word = word.length :=
        utf8Len_of_continuesWord (List.forall_mem_cons.mpr ⟨continuesWord_of_startsWord hstarts, hcontinues⟩)
      have hword : StandsAfter (listed.map Located.token) position
          (word ++ rest.dropWhile continuesWord) token := by
        refine .cons (by rw [text_tokenOfWord, String.toList_ofList]) ?_ hlisted fun _ => hlength ▸ ih hothers
        intro front tokens hfront hspells
        exact .word hstarts hcontinues (not_continuesWord_of_head? hfront) hspells
      rwa [List.cons_append, List.takeWhile_append_dropWhile] at hword
  | case6 => cases hlocated

/-- Where a token of a text stands. -/
theorem exists_front_of_tokens {text : String} {before after : List (Located (Token String))}
    {token : Located (Token String)} (hlocated : tokens text = .ok (before ++ token :: after)) :
    ∃ front back, text = front ++ token.token.text id ++ back ∧
      Spells front.toList (before.map Located.token) ∧ token.position = front.utf8ByteSize := by
  obtain ⟨front, back, htext, hspells, hposition⟩ := standsAfter_of_tokensFrom hlocated rfl
  refine ⟨String.ofList front, String.ofList back, ?_, ?_, ?_⟩
  · rw [String.ext_iff, String.toList_append, String.toList_append, String.toList_ofList,
      String.toList_ofList, htext, List.append_assoc]
  · rwa [String.toList_ofList]
  · rw [hposition, Nat.zero_add, String.utf8ByteSize_ofList]

/-! ### The first token without a place -/

/-- Some formula over the available names begins with the tokens. -/
def Viable (available : List String) (tokens : List (Token String)) : Prop :=
  Formula.Viable (IsOperand available) tokens

theorem viable_iff {available : List String} {tokens : List (Token String)} :
    Viable available tokens ↔ Formula.Viable (operands (available.filter isName)).Reads tokens :=
  ⟨.mono fun _ _ => reads_filter_iff.mpr, .mono fun _ _ => reads_filter_iff.mp⟩

theorem completable_filter {available : List String} (hname : ∃ name ∈ available, isName name = true) :
    (operands (available.filter isName)).Completable where
  exists_operand := by
    obtain ⟨name, hmem, hname⟩ := hname
    exact ⟨[name], name, reads_filter_iff.mpr ⟨rfl, hmem, hname⟩⟩
  exists_rest _ progress _ := nomatch progress

/-- **Where a condition is refused.** A text that falls into tokens within the limits, when some name is
available, is refused at its first token such that the tokens before it begin a formula over the available
names, and with it they do not. The place that is reported is the number of bytes in front of this token.
If some formula begins with all the tokens, the text is refused at its end. -/
theorem refused_at_first_impossible_token {available : List String} {text : String}
    {located : List (Located (Token String))} {refusal : Refusal}
    (hname : ∃ name ∈ available, isName name = true) (hblank : Text.isBlankText text = false)
    (hlocated : tokens text = .ok located) (hlimits : checkLimits located = .ok ())
    (hrefusal : parse available text = .error refusal) :
    (∃ before impossible after, located = before ++ impossible :: after ∧
      Viable available (before.map Located.token) ∧
      ¬Viable available (before.map Located.token ++ [impossible.token]) ∧
      ∃ front back, text = front ++ impossible.token.text id ++ back ∧
        Spells front.toList (before.map Located.token) ∧ refusal.position = front.utf8ByteSize) ∨
    Viable available (located.map Located.token) ∧ refusal.position = text.utf8ByteSize := by
  have hwords : ∀ name, .word name ∈ located.map Located.token → isName name = true := fun name =>
    isName_of_spells (spells_of_tokensFrom hlocated)
  rw [parse_of_tokens hblank hlocated, hlimits, ok_bind, ofTokens, ← run_filter hwords] at hrefusal
  simp only [viable_iff]
  rcases of_ofTokens_eq_error (completable_filter hname) hrefusal with
    ⟨before, impossible, after, rfl, hviable, himpossible, hposition⟩ | hend
  · obtain ⟨front, back, htext, hspells, hfront⟩ := exists_front_of_tokens hlocated
    exact .inl ⟨before, impossible, after, rfl, hviable, himpossible, front, back, htext, hspells,
      hposition.trans hfront⟩
  · exact .inr hend

/-- The white space behind `AND` takes two bytes, so 16 bytes stand before the parenthesis that closes
too early. -/
theorem refused_at_first_impossible_token_sample :
    let available := ["calm", "up"]
    let text := "up AND\u00a0(calm OR) up"
    (∃ name ∈ available, isName name = true) ∧ Text.isBlankText text = false ∧
      ∃ located refusal, tokens text = .ok located ∧ checkLimits located = .ok () ∧
        parse available text = .error refusal ∧
        ∃ before impossible, Viable available before ∧ ¬Viable available (before ++ [impossible]) ∧
          ∃ front back, text = front ++ impossible.text id ++ back ∧ Spells front.toList before ∧
            front.utf8ByteSize = 16 := by
  intro available text
  have hname : ∃ name ∈ available, isName name = true := ⟨"up", by decide, by decide⟩
  have hblank : Text.isBlankText text = false := by decide
  have hcut : succeedsWith (fun located => checkLimits located = .ok ()) (tokens text) = true := by
    decide +kernel
  obtain ⟨located, hlocated, hlimits⟩ := exists_of_succeedsWith hcut
  have hlimits : checkLimits located = .ok () := of_decide_eq_true hlimits
  have hparse : parse available text = .error ⟨.expected "condition or '('" (some ")"), 16⟩ := by
    decide +kernel
  refine ⟨hname, hblank, located, _, hlocated, hlimits, hparse, ?_⟩
  rcases refused_at_first_impossible_token hname hblank hlocated hlimits hparse with
    ⟨before, impossible, _, _, hviable, himpossible, front, back, htext, hspells, hposition⟩ | ⟨_, hend⟩
  · exact ⟨_, _, hviable, himpossible, front, back, htext, hspells, hposition.symm⟩
  · exact absurd hend (by decide)

end Backtest.Condition
