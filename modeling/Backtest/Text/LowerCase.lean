import Backtest.Text.Letters

/-!
# Lower-casing

Names of sections, keys, columns, methods and types are compared after lower-casing. It works on
single characters with two exceptions: a dotted capital I keeps its dot as a separate mark, and a
capital sigma has another lower-case form at the end of a word.
-/

namespace Backtest.Text

/-- The lower-case form of a single character, the character itself if it has none. -/
def lowerChar (c : Char) : Char :=
  if c.toNat < 128 then c.toLower
  else
    match capitalRanges.find? fun range =>
      range.first ≤ c.toNat && c.toNat ≤ range.last && (c.toNat - range.first) % range.step = 0
    with
    | some range => Char.ofNat (c.toNat + range.shift).toNat
    | none => c

def inRanges (ranges : List (Nat × Nat)) (c : Char) : Bool :=
  ranges.any fun (first, last) => first ≤ c.toNat && c.toNat ≤ last

def isCased (c : Char) : Bool := inRanges casedRanges c

def isIgnorable (c : Char) : Bool := inRanges ignorableRanges c

/-- The first character that is not passed over is cased. -/
def meetsCased (text : List Char) : Bool :=
  match text.dropWhile isIgnorable with
  | c :: _ => isCased c
  | [] => false

/-- A sigma ends a word when a cased character stands before it and none after it. -/
def lowerSigma (before after : List Char) : Char :=
  if meetsCased before && !meetsCased after then 'ς' else 'σ'

/-- Lower-cases `text`, which follows the characters `before`, given nearest first. -/
def lowerFrom (before : List Char) : List Char → List Char
  | [] => []
  | c :: rest =>
    let lowered :=
      if c = 'İ' then ['i', '\u0307']
      else if c = 'Σ' then [lowerSigma before rest]
      else [lowerChar c]
    lowered ++ lowerFrom (c :: before) rest

def lower (text : String) : String := String.ofList (lowerFrom [] text.toList)

/-- Two texts that differ at most in the case of ASCII letters. -/
def equalIgnoringCase (left right : String) : Bool :=
  left.toList.map Char.toLower = right.toList.map Char.toLower

end Backtest.Text
