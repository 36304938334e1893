import Linkage.Text.Printable

/-!
# Quoted text

A text is quoted between apostrophes, or between quotation marks when it holds an apostrophe
and no quotation mark. Characters that are not printable are written as escapes.
-/

namespace Linkage.Text

/-- A number in hexadecimal, filled with zeros to a width. -/
def hexadecimal (width n : Nat) : List Char :=
  let digits := Nat.toDigits 16 n
  List.replicate (width - digits.length) '0' ++ digits

/-- The quotation mark of a text. -/
def quoteOf (cs : List Char) : Char := if cs.contains '\'' && !cs.contains '"' then '"' else '\''

/-- A character between quotation marks. -/
def quotedChar (quote c : Char) : List Char :=
  if c = quote || c = '\\' then ['\\', c]
  else if c = '\n' then ['\\', 'n']
  else if c = '\r' then ['\\', 'r']
  else if c = '\t' then ['\\', 't']
  else if isPrintable c then [c]
  else if c.toNat < 256 then '\\' :: 'x' :: hexadecimal 2 c.toNat
  else if c.toNat < 65536 then '\\' :: 'u' :: hexadecimal 4 c.toNat
  else '\\' :: 'U' :: hexadecimal 8 c.toNat

/-- A text in quotation marks. -/
def quoted (s : String) : String :=
  let cs := s.toList
  let quote := quoteOf cs
  String.ofList (quote :: (cs.flatMap (quotedChar quote) ++ [quote]))

/-- A byte between quotation marks: bytes outside the printable Latin characters
are escapes. -/
def quotedByte (quote : Char) (b : UInt8) : List Char :=
  let c := Char.ofNat b.toNat
  if b.toNat < 127 then quotedChar quote c else '\\' :: 'x' :: hexadecimal 2 b.toNat

/-- A row of bytes in quotation marks. -/
def quotedBytes (bs : List UInt8) : String :=
  let quote := quoteOf (bs.map fun b => Char.ofNat b.toNat)
  String.ofList ('b' :: quote :: (bs.flatMap (quotedByte quote) ++ [quote]))

end Linkage.Text
