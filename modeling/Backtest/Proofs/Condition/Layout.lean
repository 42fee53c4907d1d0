import Backtest.Proofs.Condition.Refusals
import Backtest.Proofs.Formula.Layout

/-!
# Tokens of conditions in their text

The lexer leaves nothing out. When it succeeds, every token is the part of the text that begins at its byte,
words go on for as long as they can, and everything outside of the tokens is white space. It fails at the
first character that is neither white space nor a parenthesis nor in a word, and only if there is one.
-/

namespace Backtest.Condition

open Formula

/-! ### The lexicon -/

/-- The characters are a parenthesis or a word, and the token is the one that they stand for. -/
inductive IsWritten : Token String → List Char → Prop
  | opening : IsWritten .opening ['(']
  | closing : IsWritten .closing [')']
  | word {first : Char} {others : List Char} (hfirst : startsWord first = true)
      (hothers : ∀ c ∈ others, continuesWord c = true) :
      IsWritten (tokenOfWord (String.ofList (first :: others))) (first :: others)

/-- A name or a connective. -/
def isWord : Token String → Bool
  | .opening | .closing => false
  | .word _ | .conjunction | .disjunction => true

def lexicon : Lexicon String where
  isGap := Text.isBlank
  Writes := IsWritten
  continues token c := isWord token && continuesWord c

theorem IsWritten.text_eq {token : Token String} {piece : List Char} (hwrites : IsWritten token piece) :
    token.text id = String.ofList piece := by
  cases hwrites with
  | opening | closing => rfl
  | word => exact text_tokenOfWord _

theorem IsWritten.utf8Len_pos {token : Token String} {piece : List Char} (hwrites : IsWritten token piece) :
    0 < String.utf8Len piece := by
  have hcons : ∃ first others, piece = first :: others := by cases hwrites <;> exact ⟨_, _, rfl⟩
  obtain ⟨first, others, rfl⟩ := hcons
  rw [String.utf8Len_cons]
  exact Nat.add_pos_right _ first.utf8Size_pos

theorem IsWritten.le {token : Token String} {piece : List Char} (hwrites : IsWritten token piece) :
    ∀ c ∈ piece, c.toNat ≤ 127 := by
  cases hwrites with
  | opening | closing => exact List.forall_mem_singleton.mpr (by decide)
  | word hfirst hothers =>
      exact List.forall_mem_cons.mpr ⟨le_of_continuesWord (continuesWord_of_startsWord hfirst),
        fun c hc => le_of_continuesWord (hothers c hc)⟩

/-! ### Texts that are cut -/

/-- What the lexer takes for a word. -/
theorem word_takeWhile {first : Char} (hfirst : startsWord first = true) (rest : List Char) :
    (∀ c ∈ rest.takeWhile continuesWord, continuesWord c = true) ∧
      String.utf8Len (first :: rest.takeWhile continuesWord) =
        (first :: rest.takeWhile continuesWord).length ∧
      ∀ c ∈ (rest.dropWhile continuesWord).head?, continuesWord c = false := by
  have hcontinues : ∀ c ∈ rest.takeWhile continuesWord, continuesWord c = true :=
    fun c hc => List.mem_takeWhile_imp hc
  exact ⟨hcontinues, utf8Len_of_continuesWord
    (List.forall_mem_cons.mpr ⟨continuesWord_of_startsWord hfirst, hcontinues⟩),
    Text.not_accepts_of_head?_dropWhile continuesWord rest⟩

section Lexer

variable {position : Nat} {text : List Char}

theorem laidOut_of_tokensFrom {located : List (Located (Token String))}
    (hlocated : tokensFrom position text = .ok located) : lexicon.LaidOut position text located := by
  fun_induction tokensFrom position text generalizing located with
  | case1 =>
      cases hlocated
      exact .done
  | case2 position c rest hblank ih => exact .gap hblank (ih hlocated)
  | case3 position rest _ ih =>
      obtain ⟨others, hothers, rfl⟩ := map_eq_ok_iff.mp hlocated
      exact .token ['('] IsWritten.opening (fun _ _ => rfl) (ih hothers)
  | case4 position rest _ _ ih =>
      obtain ⟨others, hothers, rfl⟩ := map_eq_ok_iff.mp hlocated
      exact .token [')'] IsWritten.closing (fun _ _ => rfl) (ih hothers)
  | case5 position c rest _ _ _ hstarts word =>
      rename_i ih
      obtain ⟨others, hothers, rfl⟩ := map_eq_ok_iff.mp hlocated
      obtain ⟨hcontinues, hlength, hend⟩ := word_takeWhile hstarts rest
      have hlaid : lexicon.LaidOut position (word ++ rest.dropWhile continuesWord) _ :=
        .token word (IsWritten.word hstarts hcontinues) (fun next hnext => by simp [lexicon, hend next hnext])
          (hlength ▸ ih hothers)
      rwa [List.cons_append, List.takeWhile_append_dropWhile] at hlaid
  | case6 => cases hlocated

end Lexer

/-! ### Texts that are refused -/

/-- Behind what has been read, the character begins no token and goes on with no word. -/
structure Refused (front : List Char) (c : Char) : Prop where
  not_blank : Text.isBlank c = false
  not_opening : c ≠ '('
  not_closing : c ≠ ')'
  not_starts : startsWord c = false
  not_continues : ∀ last ∈ front.getLast?, continuesWord last = true → continuesWord c = false

theorem not_continuesWord_of_isBlank {c : Char} (hblank : Text.isBlank c = true) :
    continuesWord c = false := by
  rw [← Bool.not_eq_true, continuesWord_iff]
  simp only [Text.isBlank, Bool.or_eq_true, Bool.and_eq_true, decide_eq_true_eq] at hblank
  omega

/-- The fault is about the first character behind what has been read, which is refused there. -/
def Explains (fault : Fault) (front back : List Char) : Prop :=
  ∃ c rest, back = c :: rest ∧ Refused front c ∧ fault = .unexpectedCharacter c

section Refused

variable {position : Nat} {text front back : List Char} {refusal : Refusal} {fault : Fault}

/-- More in front makes a difference only if the refused character comes right behind it. -/
theorem Explains.behind (hexplains : Explains fault front back) (piece : List Char)
    (hpiece : ∀ last ∈ piece.getLast?, continuesWord last = true →
      ∀ c ∈ (front ++ back).head?, continuesWord c = false) : Explains fault (piece ++ front) back := by
  obtain ⟨c, rest, rfl, hrefused, rfl⟩ := hexplains
  refine ⟨c, rest, rfl, { hrefused with not_continues := fun last hlast hcontinues => ?_ }, rfl⟩
  cases front with
  | nil =>
      rw [List.append_nil] at hlast
      exact hpiece last hlast hcontinues c rfl
  | cons next later =>
      rw [List.getLast?_append_cons] at hlast
      exact hrefused.not_continues last hlast hcontinues

theorem Explains.behind_singleton (hexplains : Explains fault front back) {c : Char}
    (hstops : continuesWord c = false) : Explains fault (c :: front) back := by
  refine hexplains.behind [c] fun last hlast hcontinues => ?_
  obtain rfl : c = last := Option.some_inj.mp hlast
  cases hcontinues.symm.trans hstops

theorem stopsAt_of_tokensFrom (hrefusal : tokensFrom position text = .error refusal) :
    lexicon.StopsAt Explains position text refusal := by
  fun_induction tokensFrom position text with
  | case1 => cases hrefusal
  | case2 position c rest hblank ih =>
      refine .behind_gap hblank (ih hrefusal) fun fault front back hexplains _ => ?_
      exact hexplains.behind_singleton (not_continuesWord_of_isBlank hblank)
  | case3 position rest _ ih =>
      refine .behind_token ['('] IsWritten.opening (fun _ _ => rfl) (ih (map_eq_error_iff.mp hrefusal)) ?_
      exact fun fault front back hexplains _ => hexplains.behind_singleton rfl
  | case4 position rest _ _ ih =>
      refine .behind_token [')'] IsWritten.closing (fun _ _ => rfl) (ih (map_eq_error_iff.mp hrefusal)) ?_
      exact fun fault front back hexplains _ => hexplains.behind_singleton rfl
  | case5 position c rest _ _ _ hstarts word =>
      rename_i ih
      obtain ⟨hcontinues, hlength, hend⟩ := word_takeWhile hstarts rest
      have hword : lexicon.StopsAt Explains position (word ++ rest.dropWhile continuesWord) refusal := by
        refine .behind_token word (IsWritten.word hstarts hcontinues)
          (fun next hnext => by simp [lexicon, hend next hnext])
          (hlength ▸ ih (map_eq_error_iff.mp hrefusal)) fun fault front back hexplains hrest => ?_
        exact hexplains.behind word fun _ _ _ => hrest ▸ hend
      rwa [List.cons_append, List.takeWhile_append_dropWhile] at hword
  | case6 position c rest hblank hopening hclosing hstarts =>
      cases hrefusal
      exact .here ⟨c, rest, rfl,
        ⟨by simpa using hblank, hopening, hclosing, by simpa using hstarts, by simp⟩, rfl⟩

end Refused

/-! ### Strays -/

/-- The text ends in a word, though the word may go on behind it. -/
def EndsInWord (text : List Char) : Prop :=
  ∃ before first others, text = before ++ first :: others ∧ startsWord first = true ∧
    ∀ c ∈ others, continuesWord c = true

theorem EndsInWord.append {text : List Char} (hends : EndsInWord text) (before : List Char) :
    EndsInWord (before ++ text) := by
  obtain ⟨front, first, others, rfl, hword⟩ := hends
  exact ⟨before ++ front, first, others, (List.append_assoc ..).symm, hword⟩

/-- Behind `front`, the character is neither white space nor a parenthesis nor part of a word. -/
structure Stray (front : List Char) (c : Char) : Prop where
  not_blank : Text.isBlank c = false
  not_opening : c ≠ '('
  not_closing : c ≠ ')'
  not_in_word : ¬EndsInWord (front ++ [c])

section Stray

variable {front back : List Char} {c : Char}

theorem Refused.stray (hrefused : Refused front c) : Stray front c := by
  refine ⟨hrefused.not_blank, hrefused.not_opening, hrefused.not_closing, ?_⟩
  rintro ⟨before, first, others, htext, hfirst, hothers⟩
  rcases List.eq_nil_or_concat others with rfl | ⟨inner, last, rfl⟩
  · obtain ⟨_, hsame⟩ := List.append_inj' htext rfl
    rw [← List.singleton_inj.mp hsame, hrefused.not_starts] at hfirst
    cases hfirst
  · rw [List.concat_eq_append, ← List.cons_append, ← List.append_assoc] at htext
    obtain ⟨rfl, hsame⟩ := List.append_inj' htext rfl
    obtain rfl := List.singleton_inj.mp hsame
    -- What stands in front of the last character of a word goes on with it.
    have hlast := List.getLast?_eq_some_getLast (List.cons_ne_nil first inner)
    have hcontinues : continuesWord ((first :: inner).getLast (List.cons_ne_nil _ _)) = true := by
      rcases List.mem_cons.mp (List.getLast_mem (List.cons_ne_nil first inner)) with hhead | hinner
      · rw [hhead]
        exact continuesWord_of_startsWord hfirst
      · exact hothers _ (by simp [hinner])
    have hstop := hrefused.not_continues _ (by rw [List.getLast?_append, hlast]; rfl) hcontinues
    rw [hothers c (by simp)] at hstop
    cases hstop

theorem IsWritten.not_stray {token : Token String} {start tail : List Char}
    (hwrites : IsWritten token (start ++ c :: tail)) (before : List Char) : ¬Stray (before ++ start) c := by
  generalize hpiece : start ++ c :: tail = piece at hwrites
  intro hstray
  cases hwrites with
  | opening =>
      rcases List.append_eq_singleton_iff.mp hpiece with ⟨_, hlast⟩ | ⟨_, hnil⟩
      · exact hstray.not_opening (List.cons_eq_cons.mp hlast).1
      · cases hnil
  | closing =>
      rcases List.append_eq_singleton_iff.mp hpiece with ⟨_, hlast⟩ | ⟨_, hnil⟩
      · exact hstray.not_closing (List.cons_eq_cons.mp hlast).1
      · cases hnil
  | @word first others hfirst hothers =>
      refine hstray.not_in_word ?_
      rw [List.append_assoc]
      refine EndsInWord.append ?_ before
      cases start with
      | nil =>
          obtain ⟨rfl, _⟩ := List.cons_eq_cons.mp hpiece
          exact ⟨[], c, [], rfl, hfirst, by simp⟩
      | cons next start =>
          obtain ⟨rfl, hrest⟩ := List.cons_eq_cons.mp hpiece
          refine ⟨[], next, start ++ [c], rfl, hfirst, fun other hother => hothers other ?_⟩
          rw [← hrest, List.append_eq, List.append_cons]
          exact List.mem_append_left _ hother

theorem not_stray_of_laidOut {position : Nat} {text : List Char}
    {located : List (Located (Token String))} (hlaid : lexicon.LaidOut position text located)
    (htext : text = front ++ c :: back) : ¬Stray front c := by
  rcases hlaid.gap_or_inside htext with hblank | ⟨token, _, before, start, tail, rfl, _, hwrites⟩
  · intro hstray
    cases hblank.symm.trans hstray.not_blank
  · exact hwrites.not_stray before

end Stray

/-! ### Nothing is left out -/

/-- The byte behind a token. -/
def finish (token : Located (Token String)) : Nat := token.position + (token.token.text id).utf8ByteSize

/-- The tokens are parts of the text in its order. Outside of them there is white space only, and no
character behind a word would go on with it. -/
structure CutInto (text : String) (located : List (Located (Token String))) : Prop where
  ascending : located.Pairwise fun first second => first.position < second.position
  disjoint : located.Pairwise fun first second => finish first ≤ second.position
  written : ∀ token ∈ located, IsWritten token.token (token.token.text id).toList
  slices : ∀ token ∈ located, ∃ front back, text = front ++ token.token.text id ++ back ∧
    token.position = front.utf8ByteSize ∧
    (isWord token.token = true → ∀ c ∈ back.toList.head?, continuesWord c = false)
  gaps : ∀ front c back, text.toList = front ++ c :: back → Text.isBlank c = true ∨
    ∃ token ∈ located, token.position ≤ String.utf8Len front ∧ String.utf8Len front < finish token
  boundaries : ∀ token ∈ located,
    String.Pos.Raw.IsValid text ⟨token.position⟩ ∧ String.Pos.Raw.IsValid text ⟨finish token⟩

/-- The refusal names the first stray of the text and the byte where it stands. -/
structure NamesFirstStray (text : String) (refusal : Refusal) : Prop where
  stray : ∃ front c back, text.toList = front ++ c :: back ∧ Stray front c ∧
    (∀ before other between, front = before ++ other :: between → ¬Stray before other) ∧
    refusal = ⟨.unexpectedCharacter c, String.utf8Len front⟩
  boundary : String.Pos.Raw.IsValid text ⟨refusal.position⟩

section Cut

variable {text : String} {located : List (Located (Token String))}

theorem finish_eq {token : Located (Token String)} {piece : List Char} (hwrites : IsWritten token.token piece) :
    finish token = token.position + String.utf8Len piece := by
  rw [finish, hwrites.text_eq, String.utf8ByteSize_ofList]

theorem exists_slice {token : Located (Token String)} (hlaid : lexicon.LaidOut 0 text.toList located)
    (htoken : token ∈ located) :
    ∃ front back, text.toList = front ++ ((token.token.text id).toList ++ back) ∧
      token.position = String.utf8Len front ∧ IsWritten token.token (token.token.text id).toList ∧
      ∀ c ∈ back.head?, (isWord token.token && continuesWord c) = false := by
  obtain ⟨front, piece, back, htext, hposition, hwrites, hend⟩ := hlaid.exists_front htoken
  rw [Nat.zero_add] at hposition
  rw [IsWritten.text_eq hwrites, String.toList_ofList]
  exact ⟨front, back, htext, hposition, hwrites, hend⟩

theorem cutInto_of_laidOut (hlaid : lexicon.LaidOut 0 text.toList located) : CutInto text located where
  ascending := by
    refine hlaid.pairwise.imp ?_
    rintro first second ⟨piece, hwrites, hle⟩
    have hpositive := IsWritten.utf8Len_pos hwrites
    omega
  disjoint := by
    refine hlaid.pairwise.imp ?_
    rintro first second ⟨piece, hwrites, hle⟩
    rwa [finish_eq hwrites]
  written token htoken := by
    obtain ⟨_, _, _, _, hwrites, _⟩ := exists_slice hlaid htoken
    exact hwrites
  slices token htoken := by
    obtain ⟨front, back, htext, hposition, _, hend⟩ := exists_slice hlaid htoken
    refine ⟨String.ofList front, String.ofList back, ?_, ?_, fun hword c hc => ?_⟩
    · rw [String.ext_iff, String.toList_append, String.toList_append, String.toList_ofList,
        String.toList_ofList, htext, List.append_assoc]
    · rw [hposition, String.utf8ByteSize_ofList]
    · rw [String.toList_ofList] at hc
      have hstop := hend c hc
      rwa [hword, Bool.true_and] at hstop
  gaps front c back htext := by
    refine (hlaid.gap_or_inside htext).imp_right ?_
    rintro ⟨token, htoken, before, start, tail, rfl, hposition, hwrites⟩
    have hsize := c.utf8Size_pos
    refine ⟨token, htoken, ?_⟩
    rw [finish_eq hwrites, hposition, String.utf8Len_append, String.utf8Len_append, String.utf8Len_cons]
    omega
  boundaries token htoken := by
    obtain ⟨front, back, htext, hposition, hwrites, _⟩ := exists_slice hlaid htoken
    rw [finish_eq hwrites, hposition, ← String.utf8Len_append]
    refine ⟨Text.isValid_utf8Len htext, ?_⟩
    rw [← List.append_assoc] at htext
    exact Text.isValid_utf8Len htext

theorem namesFirstStray_of_stopsAt {refusal : Refusal}
    (hstops : lexicon.StopsAt Explains 0 text.toList refusal) : NamesFirstStray text refusal := by
  obtain ⟨fault, position⟩ := refusal
  obtain ⟨front, _, located, htext, hlaid, ⟨c, rest, rfl, hrefused, hfault⟩, hposition⟩ := hstops
  obtain rfl : fault = .unexpectedCharacter c := hfault
  obtain rfl : position = String.utf8Len front := hposition.trans (Nat.zero_add _)
  exact ⟨⟨front, c, rest, htext, hrefused.stray,
    fun before other between hfront => not_stray_of_laidOut hlaid hfront, rfl⟩, Text.isValid_utf8Len htext⟩

end Cut

/-- **Nothing of a text is left out.** The lexer gives the parts of a text that are no white space, each with
the byte where it begins, and takes every word to its end. It gives none if the text has a stray, and then
names the first one and the byte where it stands. -/
theorem tokens_cut (text : String) :
    (∀ located, tokens text = .ok located → CutInto text located) ∧
    (∀ refusal, tokens text = .error refusal → NamesFirstStray text refusal) ∧
    ((∃ refusal, tokens text = .error refusal) ↔
      ∃ front c back, text.toList = front ++ c :: back ∧ Stray front c) := by
  refine ⟨fun located hlocated => ?_, fun refusal hrefusal => ?_, ?_⟩
  · exact cutInto_of_laidOut (laidOut_of_tokensFrom hlocated)
  · exact namesFirstStray_of_stopsAt (stopsAt_of_tokensFrom hrefusal)
  · constructor
    · rintro ⟨refusal, hrefusal⟩
      obtain ⟨⟨front, c, back, htext, hstray, _⟩, _⟩ :=
        namesFirstStray_of_stopsAt (stopsAt_of_tokensFrom hrefusal)
      exact ⟨front, c, back, htext, hstray⟩
    · rintro ⟨front, c, back, htext, hstray⟩
      cases htokens : tokens text with
      | error refusal => exact ⟨refusal, rfl⟩
      | ok located => exact absurd hstray (not_stray_of_laidOut (laidOut_of_tokensFrom htokens) htext)

/-- A wide blank takes three bytes and a hard one two. A digit may go on with a word but not begin one. -/
theorem tokens_cut_sample :
    (∃ located, tokens "calm_2 AND\u2003(up)" = .ok located ∧ located.length = 5 ∧
      CutInto "calm_2 AND\u2003(up)" located) ∧
    tokens "up\u00a0AND 2up" = .error ⟨.unexpectedCharacter '2', 8⟩ ∧
      NamesFirstStray "up\u00a0AND 2up" ⟨.unexpectedCharacter '2', 8⟩ := by
  have hcut : succeedsWith (fun located => located.length = 5) (tokens "calm_2 AND\u2003(up)") = true := by
    decide +kernel
  obtain ⟨located, hlocated, hlength⟩ := exists_of_succeedsWith hcut
  have hrefusal : tokens "up\u00a0AND 2up" = .error ⟨.unexpectedCharacter '2', 8⟩ := by decide +kernel
  exact ⟨⟨located, hlocated, of_decide_eq_true hlength, (tokens_cut _).1 located hlocated⟩, hrefusal,
    (tokens_cut _).2.1 _ hrefusal⟩

end Backtest.Condition
