import CodeProse.Text.CharacterClass

/-!
# Quoted forms

A text as it is shown inside a message: between quotes, on one line, with every character that
has no form of its own written as an escape. Single quotes stand around it, unless the text
holds single quotes and no double quotes.
-/

set_option autoImplicit false

namespace CodeProse.Text

/-- A character that stands between the given quotes. -/
def quotedChar (quote char : CodePoint) : Text :=
  if char == quote || char == '\\' then ['\\', char]
  else if char == '\n' then ['\\', 'n']
  else if char == '\r' then ['\\', 'r']
  else if char == '\t' then ['\\', 't']
  else if isPrintable char then [char]
  else if char.toNat < 0x100 then "\\x".toText ++ hexDigits 2 char.toNat
  else if char.toNat < 0x10000 then "\\u".toText ++ hexDigits 4 char.toNat
  else "\\U".toText ++ hexDigits 8 char.toNat

def quoteFor (text : Text) : CodePoint :=
  if text.elem (.scalar '\'') && !text.elem (.scalar '"') then '"' else '\''

def quoted (text : Text) : Text :=
  let quote := quoteFor text
  quote :: text.flatMap (quotedChar quote) ++ [quote]

end CodeProse.Text
