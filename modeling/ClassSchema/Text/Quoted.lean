import ClassSchema.Text.Hexadecimal
import ClassSchema.Text.Shown

/-!
# Quoted texts

Messages and logs show a text in double quotes so that its ends and its hidden characters can be seen: the quote, the
backslash and the common control characters have short escapes, and every other character that is not shown is written
as its code point in braces. A single quote is left as it is.
-/

namespace ClassSchema

/-- A character as it stands inside a quoted text. -/
def quotedChar (c : Char) : List Char :=
  if c = '"' then ['\\', '"']
  else if c = '\\' then ['\\', '\\']
  else if c = '\n' then ['\\', 'n']
  else if c = '\r' then ['\\', 'r']
  else if c = '\t' then ['\\', 't']
  else if c = '\x00' then ['\\', '0']
  else if isShown c then [c]
  else ['\\', 'u', '{'] ++ hexCode c ++ ['}']

/-- A text in double quotes. -/
def quoted (text : String) : String := String.ofList ('"' :: text.toList.flatMap quotedChar ++ ['"'])

end ClassSchema
