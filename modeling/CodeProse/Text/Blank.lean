import CodeProse.Text.Basic

/-!
# Blank characters

The twenty-nine code points that separate words: the Unicode white space of categories Zs,
Zl and Zp, the bidirectional classes WS, B and S, and no others. Trimming, splitting into
words and every "blank" of a line pattern use this one set.
-/

set_option autoImplicit false

namespace CodeProse

def isBlank (char : CodePoint) : Bool :=
  let code := char.toNat
  (0x09 ≤ code && code ≤ 0x0D) || (0x1C ≤ code && code ≤ 0x20) || code == 0x85 ||
    code == 0xA0 || code == 0x1680 || (0x2000 ≤ code && code ≤ 0x200A) || code == 0x2028 ||
    code == 0x2029 || code == 0x202F || code == 0x205F || code == 0x3000

namespace Text

/-- Whether a text has nothing but blanks. The empty text is blank. -/
def isBlank (text : Text) : Bool :=
  text.all CodeProse.isBlank

def trimStart (text : Text) : Text :=
  text.dropWhile CodeProse.isBlank

/-- The text without the longest end part of characters that satisfy `drops`. -/
def dropEndWhile (drops : CodePoint → Bool) (text : Text) : Text :=
  (text.reverse.dropWhile drops).reverse

def trimEnd (text : Text) : Text :=
  dropEndWhile CodeProse.isBlank text

def trim (text : Text) : Text :=
  trimEnd (trimStart text)

/-- The longest pieces of a text that hold no blank. -/
def words (text : Text) : List Text :=
  (text.splitOnP CodeProse.isBlank).filter (· ≠ [])

end Text

end CodeProse
