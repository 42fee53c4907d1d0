import Backtest.Proofs.Text.Bytes
import Backtest.Proofs.Vote.Layout

/-!
# Votes read byte by byte

The vote lexer may go through the bytes of a text instead of its characters and take each byte for the
character that has it for its code. Where it stands, some number of characters have been read: it moves on
over characters of ASCII only, and any other looks to it like one that begins nothing. So it never cuts a
character in two, and it finds the same tokens and the same faults.
-/

namespace Backtest.Vote

open Formula

/-! ### The reader of bytes -/

namespace Bytewise

/-- What begins at a byte: a space, a token with as many bytes behind its first one, or a fault. -/
inductive Finding
  | space
  | token (token : Token Word) (others : Nat)
  | fault (fault : Fault)

/-- How many bytes are accepted from `index` on. -/
def runLength (text : String) (accepts : Char → Bool) (index : Nat) : Nat :=
  (((Text.bytewise text).drop index).takeWhile accepts).length

/-- What begins at the byte `index`, which is taken for the character `c`. There is no answer if a slice
would cut a character in two. -/
def find? (text : String) (index : Nat) (c : Char) : Option Finding :=
  if Text.isPlainSpace c then some .space
  else if c = '(' then some (.token .opening 0)
  else if c = ')' then some (.token .closing 0)
  else if c = '=' then
    if (Text.bytewise text)[index + 1]? = some '=' then some (.token (.word .equals) 1)
    else some (.fault .loneEqualsSign)
  else if startsValue c then do
    let piece ← Text.slice? text index (index + 1 + runLength text Char.isDigit (index + 1))
    match positionOf? piece.toList with
    | some value => some (.token (.word (.value value)) (runLength text Char.isDigit (index + 1)))
    | none => some (.fault (.noPosition piece))
  else if startsName c then do
    let piece ← Text.slice? text index (index + 1 + runLength text continuesName (index + 1))
    some (.token (tokenOfName piece) (runLength text continuesName (index + 1)))
  else do
    let rest ← Text.slice? text index text.utf8ByteSize
    some (.fault (.unexpectedCharacter (rest.toList.head?.getD c)))

/-- The tokens from the byte `index` on. -/
def tokensFrom (text : String) (index : Nat) : Option (Except Refusal (List (Located (Token Word)))) :=
  if hindex : index < (Text.bytewise text).length then
    match find? text index (Text.bytewise text)[index] with
    | none => none
    | some .space => tokensFrom text (index + 1)
    | some (.token token others) =>
      (tokensFrom text (index + 1 + others)).map ((⟨token, index⟩ :: ·) <$> ·)
    | some (.fault fault) => some (.error ⟨fault, index⟩)
  else some (.ok [])
termination_by (Text.bytewise text).length - index

def tokens (text : String) : Option (Except Refusal (List (Located (Token Word)))) := tokensFrom text 0

/-! ### One step -/

section Steps

variable {text : String} {index : Nat} {c : Char}

theorem tokensFrom_end (hend : (Text.bytewise text)[index]? = none) :
    tokensFrom text index = some (.ok []) := by
  rw [tokensFrom, dif_neg (Nat.not_lt.mpr (List.getElem?_eq_none_iff.mp hend))]

theorem tokensFrom_of_byte (hbyte : (Text.bytewise text)[index]? = some c) :
    tokensFrom text index = (find? text index c).bind fun
      | .space => tokensFrom text (index + 1)
      | .token token others =>
        (tokensFrom text (index + 1 + others)).map ((⟨token, index⟩ :: ·) <$> ·)
      | .fault fault => some (.error ⟨fault, index⟩) := by
  obtain ⟨hindex, rfl⟩ := List.getElem?_eq_some_iff.mp hbyte
  rw [tokensFrom, dif_pos hindex]
  cases find? text index (Text.bytewise text)[index] with
  | none => rfl
  | some finding => cases finding <;> rfl

theorem tokensFrom_space (hbyte : (Text.bytewise text)[index]? = some c)
    (hfind : find? text index c = some .space) : tokensFrom text index = tokensFrom text (index + 1) := by
  rw [tokensFrom_of_byte hbyte, hfind, Option.bind_some]

theorem tokensFrom_token (hbyte : (Text.bytewise text)[index]? = some c) {token : Token Word}
    {others stop : Nat} (hfind : find? text index c = some (.token token others))
    (hstop : index + 1 + others = stop) {later : Except Refusal (List (Located (Token Word)))}
    (hlater : tokensFrom text stop = some later) :
    tokensFrom text index = some ((⟨token, index⟩ :: ·) <$> later) := by
  subst hstop
  simp only [tokensFrom_of_byte hbyte, hfind, Option.bind_some, hlater, Option.map_some]

theorem tokensFrom_fault (hbyte : (Text.bytewise text)[index]? = some c) {fault : Fault}
    (hfind : find? text index c = some (.fault fault)) :
    tokensFrom text index = some (.error ⟨fault, index⟩) := by
  rw [tokensFrom_of_byte hbyte, hfind, Option.bind_some]

end Steps

/-! ### Between characters -/

section Reading

variable {text : String} {rest : List Char} {c : Char} {index : Nat}

theorem le_of_continuesName (hcontinues : continuesName c = true) : c.toNat ≤ 127 := by
  rw [continuesName_iff] at hcontinues
  omega

theorem le_of_isDigit (hdigit : c.isDigit = true) : c.toNat ≤ 127 :=
  le_of_continuesName (continuesName_of_isDigit hdigit)

theorem le_of_startsValue (hstarts : startsValue c = true) : c.toNat ≤ 127 := by
  rw [startsValue_iff] at hstarts
  omega

/-- A run of accepted characters and the one in front of it are a slice of the text. -/
theorem run_read {accepts : Char → Bool} (haccepts : ∀ c, accepts c = true → c.toNat ≤ 127)
    (hremains : Text.Remains text index (c :: rest)) (hc : c.toNat ≤ 127) :
    let piece := c :: rest.takeWhile accepts
    index + 1 + runLength text accepts (index + 1) = index + piece.length ∧
      Text.slice? text index (index + piece.length) = some (String.ofList piece) ∧
      Text.Remains text (index + piece.length) (rest.dropWhile accepts) := by
  intro piece
  have hpiece : ∀ other ∈ piece, other.toNat ≤ 127 :=
    List.forall_mem_cons.mpr ⟨hc, fun other hother => haccepts other (List.mem_takeWhile_imp hother)⟩
  have hsplit : Text.Remains text index (piece ++ rest.dropWhile accepts) := by
    rwa [List.cons_append, List.takeWhile_append_dropWhile]
  refine ⟨?_, hsplit.slice? hpiece, hsplit.behind hpiece⟩
  rw [runLength, (hremains.tail hc).drop_bytewise, Text.length_takeWhile_bytewise haccepts, List.length_cons]
  omega

/-- A character that begins nothing looks like one that begins nothing. -/
theorem stray_read (hremains : Text.Remains text index (c :: rest)) (hspace : ¬Text.isPlainSpace c = true)
    (hsign : c ≠ '(' ∧ c ≠ ')' ∧ c ≠ '=') (hvalue : ¬startsValue c = true) (hname : ¬startsName c = true) :
    ∃ seen, (Text.bytewise text)[index]? = some seen ∧ ¬Text.isPlainSpace seen = true ∧
      (seen ≠ '(' ∧ seen ≠ ')' ∧ seen ≠ '=') ∧ ¬startsValue seen = true ∧ ¬startsName seen = true := by
  rcases Nat.lt_or_ge 127 c.toNat with hwide | hplain
  · obtain ⟨seen, hbyte, hseen⟩ := hremains.bytewise_of_lt hwide
    refine ⟨seen, hbyte, ?_⟩
    rw [isPlainSpace_iff, startsValue_iff, startsName_iff]
    refine ⟨by omega, ⟨?_, ?_, ?_⟩, by omega, by omega⟩ <;>
    · rintro rfl
      exact absurd hseen (by decide)
  · exact ⟨c, hremains.bytewise_of_le hplain, hspace, hsign, hvalue, hname⟩

/-- From a byte between two characters, reading bytes gives what reading characters gives. -/
theorem tokensFrom_eq {position : Nat} (hremains : Text.Remains text position rest) :
    tokensFrom text position = some (Vote.tokensFrom position rest) := by
  fun_induction Vote.tokensFrom position rest with
  | case1 => exact tokensFrom_end hremains.getElem?_bytewise
  | case2 position c rest hspace ih =>
      have hc : c.toNat ≤ 127 := by
        rw [isPlainSpace_iff] at hspace
        omega
      rw [tokensFrom_space (hremains.bytewise_of_le hc) (by rw [find?, if_pos hspace])]
      exact ih (hremains.tail hc)
  | case3 position rest _ ih =>
      have hfind : find? text position '(' = some (.token .opening 0) := by
        rw [find?, if_neg (by decide), if_pos rfl]
      exact tokensFrom_token (hremains.bytewise_of_le (by decide)) hfind rfl (ih (hremains.tail (by decide)))
  | case4 position rest _ _ ih =>
      have hfind : find? text position ')' = some (.token .closing 0) := by
        rw [find?, if_neg (by decide), if_neg (by decide), if_pos rfl]
      exact tokensFrom_token (hremains.bytewise_of_le (by decide)) hfind rfl (ih (hremains.tail (by decide)))
  | case5 position rest _ _ _ ih =>
      have hnext := hremains.tail (by decide)
      have hfind : find? text position '=' = some (.token (.word .equals) 1) := by
        rw [find?, if_neg (by decide), if_neg (by decide), if_neg (by decide), if_pos rfl,
          if_pos (hnext.bytewise_of_le (by decide))]
      exact tokensFrom_token (hremains.bytewise_of_le (by decide)) hfind rfl (ih (hnext.tail (by decide)))
  | case6 position rest hlone =>
      refine tokensFrom_fault (hremains.bytewise_of_le (by decide)) ?_
      rw [find?, if_neg (by decide), if_neg (by decide), if_neg (by decide), if_pos rfl, if_neg]
      rw [(hremains.tail (by decide)).bytewise_iff (by decide)]
      intro hnext
      obtain ⟨later, rfl⟩ := List.head?_eq_some_iff.mp hnext
      exact hlone later rfl
  | case7 position c rest hspace hopening hclosing hequals hstarts piece value hvalue =>
      rename_i ih
      have hc := le_of_startsValue hstarts
      obtain ⟨hstop, hslice, hrest⟩ := run_read (fun _ => le_of_isDigit) hremains hc
      refine tokensFrom_token (hremains.bytewise_of_le hc) ?_ hstop (ih hrest)
      rw [find?, if_neg hspace, if_neg hopening, if_neg hclosing, if_neg hequals, if_pos hstarts, hstop,
        hslice]
      simp only [Option.bind_eq_bind, Option.bind_some, String.toList_ofList]
      rw [hvalue]
  | case8 position c rest hspace hopening hclosing hequals hstarts piece hvalue =>
      have hc := le_of_startsValue hstarts
      obtain ⟨hstop, hslice, _⟩ := run_read (fun _ => le_of_isDigit) hremains hc
      refine tokensFrom_fault (hremains.bytewise_of_le hc) ?_
      rw [find?, if_neg hspace, if_neg hopening, if_neg hclosing, if_neg hequals, if_pos hstarts, hstop,
        hslice]
      simp only [Option.bind_eq_bind, Option.bind_some, String.toList_ofList]
      rw [hvalue]
  | case9 position c rest hspace hopening hclosing hequals hvalue hstarts name =>
      rename_i ih
      have hc := le_of_continuesName (continuesName_of_startsName hstarts)
      obtain ⟨hstop, hslice, hrest⟩ := run_read (fun _ => le_of_continuesName) hremains hc
      refine tokensFrom_token (hremains.bytewise_of_le hc) ?_ hstop (ih hrest)
      rw [find?, if_neg hspace, if_neg hopening, if_neg hclosing, if_neg hequals, if_neg hvalue,
        if_pos hstarts, hstop, hslice]
      rfl
  | case10 position c rest hspace hopening hclosing hequals hvalue hname =>
      obtain ⟨seen, hbyte, hspace, ⟨hopening, hclosing, hequals⟩, hvalue, hname⟩ :=
        stray_read hremains hspace ⟨hopening, hclosing, hequals⟩ hvalue hname
      refine tokensFrom_fault hbyte ?_
      rw [find?, if_neg hspace, if_neg hopening, if_neg hclosing, if_neg hequals, if_neg hvalue, if_neg hname,
        hremains.slice?_end]
      simp only [Option.bind_eq_bind, Option.bind_some, String.toList_ofList, List.head?_cons,
        Option.getD_some]

theorem tokens_eq (text : String) : tokens text = some (Vote.tokens text) :=
  tokensFrom_eq (.start text)

end Reading

end Bytewise

/-! ### Where tokens and faults stand -/

/-- The token is written in the text between `front` and `back`, and what follows does not go on with it.
No character stands across one of its ends. -/
structure Cut (text : String) (token : Located (Token Word)) (front piece back : String) : Prop where
  whole : text = front ++ piece ++ back
  position : token.position = front.utf8ByteSize
  written : IsWritten token.token piece.toList
  ends : ∀ c ∈ back.toList.head?, continues token.token c = false
  start_valid : String.Pos.Raw.IsValid text ⟨token.position⟩
  stop_valid : String.Pos.Raw.IsValid text ⟨token.position + piece.utf8ByteSize⟩

/-- The tokens are cut out of the text in its order, and there is only white space of ASCII between them. -/
structure CutInto (text : String) (located : List (Located (Token Word))) : Prop where
  ascending : located.Pairwise fun first second => first.position < second.position
  cuts : ∀ token ∈ located, ∃ front piece back, Cut text token front piece back
  gaps : ∀ front c back, text.toList = front ++ c :: back → c ∈ [' ', '\t', '\n', '\x0c', '\r'] ∨
    ∃ token ∈ located, ∃ before piece after, Cut text token before piece after ∧
      token.position ≤ String.utf8Len front ∧ String.utf8Len front < token.position + piece.utf8ByteSize

/-- The text is cut into tokens up to the place of the refusal, which is between two characters. What begins
there is what the fault is about. -/
structure FaultAt (text : String) (refusal : Refusal) : Prop where
  reached : ∃ front back, text = front ++ back ∧ front.utf8ByteSize = refusal.position ∧
    (∃ located, CutInto front located) ∧ Explains refusal.fault front.toList back.toList
  valid : String.Pos.Raw.IsValid text ⟨refusal.position⟩
  named : ∀ c, refusal.fault = .unexpectedCharacter c →
    String.Pos.Raw.get? text ⟨refusal.position⟩ = some c

section Places

variable {text : String} {located : List (Located (Token Word))}

theorem mem_plainSpaces {c : Char} (hspace : Text.isPlainSpace c = true) :
    c ∈ [' ', '\t', '\n', '\x0c', '\r'] := by
  simpa [Text.isPlainSpace, or_assoc] using hspace

theorem IsWritten.length_pos {token : Token Word} {piece : List Char} (hwrites : IsWritten token piece) :
    0 < piece.length := by
  cases hwrites <;> exact Nat.succ_pos _

theorem cut_of_append {token : Located (Token Word)} {front piece back : List Char}
    (htext : text.toList = front ++ piece ++ back) (hposition : token.position = String.utf8Len front)
    (hwrites : IsWritten token.token piece) (hend : ∀ c ∈ back.head?, continues token.token c = false) :
    Cut text token (String.ofList front) (String.ofList piece) (String.ofList back) where
  whole := by rw [← String.ofList_append, ← String.ofList_append, ← htext, String.ofList_toList]
  position := by rw [hposition, String.utf8ByteSize_ofList]
  written := by rwa [String.toList_ofList]
  ends := by rwa [String.toList_ofList]
  start_valid := hposition ▸ Text.isValid_utf8Len (htext.trans (List.append_assoc ..))
  stop_valid := by
    rw [hposition, String.utf8ByteSize_ofList, ← String.utf8Len_append]
    exact Text.isValid_utf8Len htext

theorem cutInto_of_laidOut (hlaid : lexicon.LaidOut 0 text.toList located) : CutInto text located where
  ascending := by
    refine hlaid.pairwise.imp ?_
    rintro first second ⟨piece, hwrites, hle⟩
    rw [IsWritten.utf8Len_eq hwrites] at hle
    have hpositive := IsWritten.length_pos hwrites
    omega
  cuts token htoken := by
    obtain ⟨front, piece, back, htext, hposition, hwrites, hend⟩ := hlaid.exists_front htoken
    rw [Nat.zero_add] at hposition
    exact ⟨_, _, _, cut_of_append (htext.trans (List.append_assoc ..).symm) hposition hwrites hend⟩
  gaps front c back htext := by
    refine (hlaid.gap_or_written htext).imp mem_plainSpaces ?_
    rintro ⟨token, htoken, before, start, tail, after, rfl, rfl, hposition, hwrites, hend⟩
    rw [Nat.zero_add] at hposition
    have hsize := c.utf8Size_pos
    refine ⟨token, htoken, _, _, _, cut_of_append (htext.trans ?_) hposition hwrites hend, ?_⟩
    · simp only [List.append_assoc, List.cons_append]
    · rw [hposition, String.utf8ByteSize_ofList, String.utf8Len_append, String.utf8Len_append,
        String.utf8Len_cons]
      omega

theorem faultAt_of_stopsAt {refusal : Refusal} (hstops : lexicon.StopsAt Explains 0 text.toList refusal) :
    FaultAt text refusal := by
  obtain ⟨front, back, located, htext, hlaid, hexplains, hposition⟩ := hstops
  rw [Nat.zero_add] at hposition
  have hwhole : text = String.ofList front ++ String.ofList back := by
    rw [← String.ofList_append, ← htext, String.ofList_toList]
  refine ⟨⟨_, _, hwhole, ?_, ⟨located, cutInto_of_laidOut ?_⟩, ?_⟩, ?_, fun c hfault => ?_⟩
  · rw [hposition, String.utf8ByteSize_ofList]
  · rwa [String.toList_ofList]
  · rwa [String.toList_ofList, String.toList_ofList]
  · rw [hposition]
    exact Text.isValid_utf8Len htext
  · rw [hfault] at hexplains
    rw [hposition, hwhole, ← String.ofList_append, String.get?_of_valid]
    cases hexplains
    rfl

end Places

/-- **Votes may be read byte by byte.** A reader that takes every byte for a character comes to an answer, so
it cuts no character in two, and the answer is that of the lexer. The tokens ascend and have only white space
of ASCII between them. They and the place of a fault stand between two characters, and a character that is
named as the fault is the one at its place. -/
theorem tokens_bytewise (text : String) :
    Bytewise.tokens text = some (tokens text) ∧
    (∀ located, tokens text = .ok located → CutInto text located) ∧
    ∀ refusal, tokens text = .error refusal → FaultAt text refusal := by
  refine ⟨Bytewise.tokens_eq text, fun located hlocated => ?_, fun refusal hrefusal => ?_⟩
  · exact cutInto_of_laidOut (laidOut_of_tokensFrom hlocated)
  · exact faultAt_of_stopsAt (stopsAt_of_tokensFrom hrefusal)

/-- The hard space takes two bytes, of which the first looks like a letter and the second like a space. -/
theorem tokens_bytewise_sample :
    (∃ located, tokens "up\t== -1" = .ok located ∧ located.length = 3 ∧ CutInto "up\t== -1" located) ∧
    Bytewise.tokens "up == 1\u00a0" = some (.error ⟨.unexpectedCharacter '\u00a0', 7⟩) ∧
      FaultAt "up == 1\u00a0" ⟨.unexpectedCharacter '\u00a0', 7⟩ := by
  have hcut : succeedsWith (fun located => located.length = 3) (tokens "up\t== -1") = true := by
    decide +kernel
  obtain ⟨located, hlocated, hlength⟩ := exists_of_succeedsWith hcut
  have hrefusal : tokens "up == 1\u00a0" = .error ⟨.unexpectedCharacter '\u00a0', 7⟩ := by decide +kernel
  refine ⟨⟨located, hlocated, of_decide_eq_true hlength, (tokens_bytewise _).2.1 located hlocated⟩, ?_,
    (tokens_bytewise _).2.2 _ hrefusal⟩
  rw [(tokens_bytewise _).1, hrefusal]

end Backtest.Vote
