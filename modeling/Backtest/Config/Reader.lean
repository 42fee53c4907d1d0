import Backtest.Config.Document
import Backtest.Error
import Backtest.Text.Utf8

/-!
# Reading configuration documents

A document is read line by line. What follows a semicolon or a number sign is a comment. A line in
square brackets opens a section; its name runs to the last closing bracket, and what follows that is
passed over. Every other line is a key, alone or with a value behind the first equals sign or colon.
Keys before the first section belong to a section of their own.
-/

namespace Backtest.Config

/-- The section of the keys that stand before the first one. -/
def defaultGroup : String := "default"

inductive Line
  | blank
  | group (name : String)
  | entry (key : String) (value : Option String)
deriving DecidableEq, Repr

def startsComment (c : Char) : Bool := c = ';' || c = '#'

def delimits (c : Char) : Bool := c = '=' || c = ':'

/-- A name in the form in which it is stored. -/
def stored (name : List Char) : String := Text.lower (String.ofList (Text.trimChars name))

namespace Line

/-- A line without its comment and without blanks at its ends. -/
def content (line : List Char) : List Char :=
  Text.trimChars (line.takeWhile fun c => !startsComment c)

/-- What a line says; `number` is its place in the document, from one. -/
def ofChars (number : Nat) (line : List Char) : Except SourceFault Line :=
  match content line with
  | [] => .ok blank
  | '[' :: rest =>
    match Text.splitLast? (· = ']') rest with
    | none => .error (.unclosedSection number)
    | some (name, _) => .ok (group (stored name))
  | text =>
    match Text.splitFirst? delimits text with
    | none => .ok (entry (stored text) none)
    | some ([], _) => .error (.emptyKey number)
    | some (key, value) =>
      .ok (entry (stored key) (some (String.ofList (Text.trimChars value))))

end Line

/-- Adds the given lines to a document; `number` is the number of the first of them, and `current`
the section that is open before it. -/
def addLines (document : Document) (current : String) (number : Nat) :
    List (List Char) → Except SourceFault Document
  | [] => .ok document
  | line :: rest =>
    match Line.ofChars number line with
    | .error fault => .error fault
    | .ok .blank => addLines document current (number + 1) rest
    | .ok (.group name) => addLines (document.openGroup name) name (number + 1) rest
    | .ok (.entry key value) =>
      addLines (document.set current key value) current (number + 1) rest

/-- The document that a text holds. -/
def Document.ofText (text : String) : Except SourceFault Document :=
  addLines .empty defaultGroup 1 (Text.pieces '\n' text.toList)

/-- The document in the file at a path, of which either the contents are known or why they are
not. -/
def Document.ofFile (path : String) (contents : Except Storage.Fault Text.Bytes) :
    Except Error Document :=
  let refuse (fault : SourceFault) : Error := .source (some path) fault
  match contents with
  | .error fault => .error (refuse (.system fault))
  | .ok bytes =>
    match Text.decode bytes with
    | .error _ => .error (refuse .notText)
    | .ok text => (Document.ofText text).mapError refuse

end Backtest.Config
