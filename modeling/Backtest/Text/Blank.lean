/-!
# White space

Two notions of white space. Blank characters are those of the Unicode property; they are what
trimming removes and what makes a text empty. The spaces of the vote language are the five
characters of ASCII that are white space, the vertical tab not among them.
-/

namespace Backtest.Text

/-- The characters with the Unicode property `White_Space`. -/
def isBlank (c : Char) : Bool :=
  (0x09 ≤ c.toNat && c.toNat ≤ 0x0D) || c.toNat = 0x20 || c.toNat = 0x85 || c.toNat = 0xA0
    || c.toNat = 0x1680 || (0x2000 ≤ c.toNat && c.toNat ≤ 0x200A)
    || c.toNat = 0x2028 || c.toNat = 0x2029 || c.toNat = 0x202F || c.toNat = 0x205F
    || c.toNat = 0x3000

/-- Space, tab, line feed, form feed and carriage return. -/
def isPlainSpace (c : Char) : Bool :=
  c = ' ' || c = '\t' || c = '\n' || c = '\x0c' || c = '\r'

def trimLeft (text : List Char) : List Char := text.dropWhile isBlank

def trimRight (text : List Char) : List Char := (text.reverse.dropWhile isBlank).reverse

/-- The text without the blanks at its two ends. -/
def trimChars (text : List Char) : List Char := trimRight (trimLeft text)

def trim (text : String) : String := String.ofList (trimChars text.toList)

/-- The text holds nothing but blanks. -/
def isBlankText (text : String) : Bool := text.toList.all isBlank

end Backtest.Text
