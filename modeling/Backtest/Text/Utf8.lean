/-!
# UTF-8

Files are bytes. A text is read from them strictly: no overlong forms, no surrogates, nothing above
the last code point. Where the bytes are not a text, the place of the first sequence that is no
character is known.
-/

namespace Backtest.Text

abbrev Bytes := List UInt8

/-- What the first byte of a character says: how many bytes follow it, the bits that it holds, and
the least code point that is written at this length. -/
structure Lead where
  following : Nat
  bits : Nat
  least : Nat
deriving DecidableEq, Repr

def Lead.ofByte? (byte : UInt8) : Option Lead :=
  let value := byte.toNat
  if value < 0x80 then some ⟨0, value, 0⟩
  else if value < 0xC0 then none
  else if value < 0xE0 then some ⟨1, value - 0xC0, 0x80⟩
  else if value < 0xF0 then some ⟨2, value - 0xE0, 0x800⟩
  else if value < 0xF8 then some ⟨3, value - 0xF0, 0x10000⟩
  else none

def continues (byte : UInt8) : Bool := 0x80 ≤ byte.toNat && byte.toNat < 0xC0

/-- The character of a lead and the bytes that follow it. -/
def charOfLead? (lead : Lead) (following : Bytes) : Option Char :=
  let code := following.foldl (fun code byte => code * 64 + (byte.toNat - 0x80)) lead.bits
  if following.length = lead.following ∧ following.all continues ∧ lead.least ≤ code
      ∧ code.isValidChar then
    some (Char.ofNat code)
  else none

/-- Reads the characters of some bytes, the first of which stands at `index`. The error is the index
of the first sequence that is no character. -/
def decodeFrom (index : Nat) : Bytes → Except Nat (List Char)
  | [] => .ok []
  | byte :: rest =>
    match Lead.ofByte? byte with
    | none => .error index
    | some lead =>
      match charOfLead? lead (rest.take lead.following) with
      | none => .error index
      | some c => (decodeFrom (index + lead.following + 1) (rest.drop lead.following)).map (c :: ·)
termination_by bytes => bytes.length
decreasing_by simp only [List.length_cons, List.length_drop]; omega

def decode (bytes : Bytes) : Except Nat String := (decodeFrom 0 bytes).map String.ofList

def encode (text : String) : Bytes := text.toUTF8.toList

end Backtest.Text
