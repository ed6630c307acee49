import PackedRecord.Text.Split

/-! # Blank characters — the White_Space class

    The class holds the 25 characters of Unicode's White_Space property.
    Trimming removes it from both ends of a text; words are the runs between
    its members. -/

namespace PackedRecord.Text

/-- A character whose code point lies in one of the ranges, ends included. -/
def inRanges (ranges : List (Nat × Nat)) (c : Char) : Bool :=
  ranges.any fun r => r.1 ≤ c.toNat && c.toNat ≤ r.2

/-- The White_Space property as ranges of code points. -/
def blankRanges : List (Nat × Nat) :=
  [(0x9, 0xD), (0x20, 0x20), (0x85, 0x85), (0xA0, 0xA0), (0x1680, 0x1680), (0x2000, 0x200A),
    (0x2028, 0x2029), (0x202F, 0x202F), (0x205F, 0x205F), (0x3000, 0x3000)]

/-- White space, in any script. -/
def isBlank (c : Char) : Bool :=
  inRanges blankRanges c

def trimStart (text : List Char) : List Char :=
  text.dropWhile isBlank

def trimEnd (text : List Char) : List Char :=
  (text.reverse.dropWhile isBlank).reverse

/-- The text without the blanks at either end. -/
def trim (text : List Char) : List Char :=
  trimEnd (trimStart text)

/-- The runs of blanks inside the text become single spaces, those at its
    ends vanish. -/
def collapse (text : List Char) : List Char :=
  spaced (splitWhere isBlank text)

def spaces (n : Nat) : String :=
  String.ofList (List.replicate n ' ')

end PackedRecord.Text
