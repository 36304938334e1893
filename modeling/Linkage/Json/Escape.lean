import Linkage.Text.Quoted

/-!
# Escaped text in documents

Texts in a document stand between quotation marks. Quotation marks, backslashes and controls
are escaped. A document may be kept to the basic Latin block, and then every other character is
written as one or two units of sixteen bits.
-/

namespace Linkage.Json

/-- A unit of sixteen bits as an escape. -/
def unitEscape (n : Nat) : List Char := '\\' :: 'u' :: Text.hexadecimal 4 n

/-- A character as one or two units of sixteen bits. -/
def unitEscapes (c : Char) : List Char :=
  if c.toNat < 65536 then unitEscape c.toNat
  else
    let n := c.toNat - 65536
    unitEscape (55296 + n / 1024) ++ unitEscape (56320 + n % 1024)

/-- A character inside quotation marks; `latin` keeps the text to printable
Latin characters. -/
def escapedChar (latin : Bool) (c : Char) : List Char :=
  if c = '"' then ['\\', '"']
  else if c = '\\' then ['\\', '\\']
  else if c = '\n' then ['\\', 'n']
  else if c = '\r' then ['\\', 'r']
  else if c = '\t' then ['\\', 't']
  else if c = '\x08' then ['\\', 'b']
  else if c = '\x0c' then ['\\', 'f']
  else if c.toNat < 32 then unitEscape c.toNat
  else if latin && decide (126 < c.toNat) then unitEscapes c
  else [c]

/-- A text in quotation marks. -/
def escaped (latin : Bool) (s : String) : String :=
  String.ofList ('"' :: (s.toList.flatMap (escapedChar latin) ++ ['"']))

end Linkage.Json
