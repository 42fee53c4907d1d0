import Backtest.Csv.Fault
import Backtest.Text.Utf8

/-!
# Records of a table

A table's text is cut into records and these into fields, byte by byte. A field that begins with a
quote runs to the next quote, two quotes standing for one; elsewhere a quote is an ordinary byte.
Records end with a line feed, a carriage return, or both; empty lines are passed over. The line feed
behind a carriage return belongs to the record after it, as its place shows.
-/

namespace Backtest.Csv

open Text (Bytes)

def comma : UInt8 := 0x2C

def quote : UInt8 := 0x22

def lineFeed : UInt8 := 0x0A

def carriageReturn : UInt8 := 0x0D

def endsLine (byte : UInt8) : Bool := byte = lineFeed || byte = carriageReturn

/-- What stands before the next byte. -/
inductive Mode
  | recordStart
  | afterReturn
  | fieldStart
  | plain
  | quoted
  /-- A quote inside a quoted field, which ends the quotation or stands for itself. -/
  | afterQuote
deriving DecidableEq, Repr

/-- What a byte does, with the mode it leads to. -/
inductive Move
  | skip (mode : Mode)
  | keep (mode : Mode)
  | endField
  | endRecord (mode : Mode)
deriving DecidableEq, Repr

namespace Mode

/-- A byte that no quotation protects. -/
def plainMove (byte : UInt8) : Move :=
  if byte = comma then .endField
  else if byte = lineFeed then .endRecord .recordStart
  else if byte = carriageReturn then .endRecord .afterReturn
  else .keep .plain

def fieldMove (byte : UInt8) : Move := if byte = quote then .skip .quoted else plainMove byte

def move (byte : UInt8) : Mode → Move
  | recordStart => if endsLine byte then .skip .recordStart else fieldMove byte
  | afterReturn => if endsLine byte then .skip .recordStart else fieldMove byte
  | fieldStart => fieldMove byte
  | plain => plainMove byte
  | quoted => if byte = quote then .skip .afterQuote else .keep .quoted
  | afterQuote => if byte = quote then .keep .quoted else plainMove byte

/-- No record has begun. -/
def isBetween (mode : Mode) : Bool := mode = recordStart || mode = afterReturn

end Mode

/-- The fields of a record as far as they are read, and the bytes of the field that is being read;
both are held backwards. -/
structure Draft where
  fields : List Bytes
  field : Bytes
deriving DecidableEq, Repr

namespace Draft

def empty : Draft := ⟨[], []⟩

def keep (draft : Draft) (byte : UInt8) : Draft := { draft with field := byte :: draft.field }

def endField (draft : Draft) : Draft := ⟨draft.field.reverse :: draft.fields, []⟩

/-- The fields of the record, the one that is being read the last of them. -/
def finish (draft : Draft) : List Bytes := draft.endField.fields.reverse

end Draft

structure Record where
  place : Place
  fields : List Bytes
deriving DecidableEq, Repr

/-- The place of the byte behind `byte`. -/
def Place.after (place : Place) (byte : UInt8) : Place :=
  { place with
    line := if byte = lineFeed then place.line + 1 else place.line
    byte := place.byte + 1 }

/-- Goes through the bytes with the place where the current record starts and that of the next
byte. -/
def scan (start place : Place) (mode : Mode) (draft : Draft) : Bytes → List Record
  | [] => if mode.isBetween then [] else [⟨start, draft.finish⟩]
  | byte :: rest =>
    let next := place.after byte
    match mode.move byte with
    | .skip mode => scan start next mode draft rest
    | .keep mode => scan start next mode (draft.keep byte) rest
    | .endField => scan start next .fieldStart draft.endField rest
    | .endRecord mode =>
      let next := { next with record := next.record + 1 }
      ⟨start, draft.finish⟩ :: scan next next mode .empty rest

def byteOrderMark : Bytes := [0xEF, 0xBB, 0xBF]

/-- The records of a text, without the byte order mark that it may begin with. -/
def records (bytes : Bytes) : List Record :=
  let start : Place := ⟨0, 1, 0⟩
  if byteOrderMark.isPrefixOf bytes then
    scan start { start with byte := byteOrderMark.length } .recordStart .empty
      (bytes.drop byteOrderMark.length)
  else scan start start .recordStart .empty bytes

end Backtest.Csv
