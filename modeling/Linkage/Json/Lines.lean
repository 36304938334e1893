import Linkage.Json.Reader
import Linkage.Number.Word

/-!
# Reading lines of documents

A text with one document per line is read as the list of those documents. The grammar is lax:
controls may stand in a text, a number may have needless zeros or lack digits, an object may
end with a comma, and undefined numbers count as null.

Whole numbers are words of 64 bits. A number with a sign has to fit; one without a sign is only
refused when a further digit makes its word smaller. The digits of a fraction count up to the
fifteenth, and a fraction is scaled in floating point.

The name of a field is any value that ends in a text, but only a text can be stored as a name;
a list or an object is refused after its value has been read. Lists and objects may be nested
1024 levels deep, of which the list of the lines itself is the first.

A departure from the grammar is placed at the character that was taken last, counted in bytes
from the first line on.
-/

namespace Linkage.Json

/-- How a text departs from the grammar of documents on lines. -/
inductive LineDefect where
  /-- Something other than a value. -/
  | noValue
  /-- Something after the last value. -/
  | trailing
  /-- A list that ends with a comma. -/
  | listEnd
  /-- Something between the items of a list. -/
  | listItem
  /-- A field whose name does not end in a text. -/
  | fieldName
  /-- A name without a colon. -/
  | noColon
  /-- Something between the fields of an object. -/
  | fieldEnd
  /-- A word that is not the one it begins like. -/
  | badWord (word : String)
  /-- A number above its range. -/
  | tooBig
  /-- A number below its range. -/
  | tooSmall
  /-- A text without its closing quotation mark. -/
  | openText
  /-- A backslash at the end. -/
  | openEscape
  /-- A backslash before a letter that means nothing. -/
  | badEscape
  /-- A number of a character that ends early. -/
  | openUnit
  /-- A number of a character with something other than a digit. -/
  | badUnit
  /-- A leading number of a pair without the trailing one. -/
  | halfPair
  /-- A list or an object that is nested too deep. -/
  | tooDeep
  deriving DecidableEq, Repr

/-- The wording for a departure from the grammar. -/
def LineDefect.wording : LineDefect → String
  | noValue => "Expected object or value"
  | trailing => "Trailing data"
  | listEnd => "Unexpected character found when decoding array value (1)"
  | listItem => "Unexpected character found when decoding array value (2)"
  | fieldName => "Key name of object must be 'string' when decoding 'object'"
  | noColon => "No ':' found when decoding object value"
  | fieldEnd => "Unexpected character found when decoding object value"
  | badWord word => "Unexpected character found when decoding '" ++ word ++ "'"
  | tooBig => "Value is too big!"
  | tooSmall => "Value is too small"
  | openText => "Unmatched ''\"' when when decoding 'string'"
  | openEscape => "Unterminated escape sequence when decoding 'string'"
  | badEscape => "Unrecognized escape sequence when decoding 'string'"
  | openUnit => "Unterminated unicode escape sequence when decoding 'string'"
  | badUnit => "Unexpected character in unicode escape sequence when decoding 'string'"
  | halfPair => "Unpaired high surrogate when decoding 'string'"
  | tooDeep => "Reached object decoding depth limit"

/-- Whether the character that is at fault has been taken. -/
def LineDefect.takesFault : LineDefect → Bool
  | listItem => true
  | noColon => true
  | fieldEnd => true
  | _ => false

/-- Why a text is no list of documents. -/
inductive LineFault where
  /-- It departs from the grammar at a position. -/
  | malformed (defect : LineDefect) (position : Nat)
  /-- A field is named by a list or an object. -/
  | nameWithParts
  deriving DecidableEq, Repr

/-- The wording for a text that is no list of documents, where there is one. -/
def LineFault.message? : LineFault → Option String
  | malformed defect position => some (defect.wording ++ s!" at position {position}")
  | nameWithParts => none

namespace Lines

/-- Where and why reading stops. -/
inductive Stop where
  /-- The rest of the text departs from the grammar. -/
  | malformed (defect : LineDefect) (rest : List Char)
  /-- A field is named by a list or an object. -/
  | nameWithParts

/-- A place in a text: what follows, and whether the last value that was read, down to its last
part, was a text. -/
structure Spot where
  /-- What follows. -/
  rest : List Char
  /-- Whether a text has been read last. -/
  afterText : Bool

/-- An answer, or a departure from the grammar in the rest of a text. -/
def orStop {β : Type} (rest : List Char) : Except LineDefect β → Except Stop β
  | .ok x => .ok x
  | .error defect => .error (.malformed defect rest)

/-- The value of four hexadecimal digits, or what is wrong with the first that is none. -/
def unit (ds : List Char) : Except LineDefect Nat :=
  ds.foldl (fun n c => do
    match hexDigit? c with
    | some d => return (← n) * 16 + d
    | none => do
      let _ ← n
      throw (if c = '\x00' then .openUnit else .badUnit)) (.ok 0)

/-- The text up to the closing quotation mark. A leading number of a pair is kept until the
next numbered character, which has to be its trailing number. -/
def text (pending : Option Nat) (held : List Char) :
    List Char → Except LineDefect (String × List Char)
  | [] => .error .openText
  | '"' :: rest => .ok (String.ofList held.reverse, rest)
  | '\\' :: 'u' :: a :: b :: c :: d :: rest => do
    let n ← unit [a, b, c, d]
    match pending with
    | some m =>
      if isTrailing n then text none ((joined [m, n]).reverse ++ held) rest
      else throw .halfPair
    | none => if isLeading n then text (some n) held rest else text none (loneChar n :: held) rest
  | '\\' :: 'u' :: rest => do
    let _ ← unit rest
    throw .openUnit
  | ['\\'] => .error .openEscape
  | '\\' :: c :: rest =>
    match escapeUnit? c with
    | some n => text pending (Char.ofNat n :: held) rest
    | none => .error (if c = '\x00' then .openEscape else .badEscape)
  | c :: rest => if c = '\x00' then .error .openText else text pending (c :: held) rest

/-- The word that a row of digits adds up to. -/
def word (negative : Bool) : Nat → List Char → Except LineDefect Nat
  | n, [] => .ok n
  | n, c :: rest =>
    let m := (n * 10 + (c.toNat - 48)) % Word.count
    if negative then if Word.half < m then .error .tooSmall else word negative m rest
    else if m < n then .error .tooBig
    else word negative m rest

/-- The number of digits of a fraction that count. -/
def fractionPlaces : Nat := 15

/-- A sign, a whole part and a fraction as a floating point number. -/
def scaled (negative : Bool) (whole : Nat) (fraction : List Char) : Float :=
  let ds := fraction.take fractionPlaces
  let x := Float.ofNat whole +
    Float.ofNat (digitsValue ds) * Float.ofScientific 1 true ds.length
  x * (if negative then -1 else 1)

/-- An exponent after its mark, and what follows it. -/
def exponent (cs : List Char) : Int × List Char :=
  let (negative, rest) := Reading.sign cs
  let n : Int := digitsValue (rest.takeWhile Char.isDigit)
  (if negative then -n else n, rest.dropWhile Char.isDigit)

/-- A number with what stands before and after its point. -/
def withExponent (x : Float) (cs : List Char) : Value Float × List Char :=
  match cs with
  | c :: rest =>
    if c = 'e' ∨ c = 'E' then
      let (e, after) := exponent rest
      (.real (x * nearestFloat false 1 e), after)
    else (.real x, cs)
  | [] => (.real x, [])

/-- A number after its sign. -/
def number (negative : Bool) (cs : List Char) : Except LineDefect (Value Float × List Char) := do
  let whole ← word negative 0 (cs.takeWhile Char.isDigit)
  match cs.dropWhile Char.isDigit with
  | '.' :: rest =>
    return withExponent (scaled negative whole (rest.takeWhile Char.isDigit))
      (rest.dropWhile Char.isDigit)
  | rest =>
    match rest with
    | c :: _ =>
      if c = 'e' ∨ c = 'E' then return withExponent (scaled negative whole []) rest
      else return (.int (if negative then -(whole : Int) else whole), rest)
    | [] => return (.int (if negative then -(whole : Int) else whole), [])

/-- A word that has to be the one it begins like. -/
def exactly (w : String) (v : Value Float) (cs : List Char) :
    Except LineDefect (Value Float × List Char) :=
  match afterWord? w cs with
  | some rest => .ok (v, rest)
  | none => .error (.badWord w)

/-- A value that is neither a text nor has parts. -/
def plain (cs : List Char) : Except LineDefect (Value Float × List Char) :=
  match cs with
  | 'n' :: _ => exactly "null" .null cs
  | 't' :: _ => exactly "true" (.flag true) cs
  | 'f' :: _ => exactly "false" (.flag false) cs
  | 'N' :: _ => exactly "NaN" .null cs
  | 'I' :: _ => exactly "Infinity" (.real (1 / 0)) cs
  | '-' :: 'I' :: _ => exactly "-Infinity" (.real (-(1 / 0))) cs
  | '-' :: rest => number true rest
  | c :: _ => if c.isDigit then number false cs else .error .noValue
  | [] => .error .noValue

/-- The number of levels that lists and objects may be nested. -/
def deepest : Nat := 1024

mutual

/-- A value at the beginning of a text. The first number bounds the steps; the second one is
the number of levels that lists and objects may be nested. -/
def value : Nat → Nat → Spot → Except Stop (Value Float × Spot)
  | 0, _, p => .error (.malformed .noValue p.rest)
  | steps + 1, levels, p =>
    match skipSpace p.rest with
    | '"' :: rest => (orStop rest (text none [] rest)).map fun r => (.text r.1, ⟨r.2, true⟩)
    | '[' :: rest =>
      match levels with
      | 0 => .error (.malformed .tooDeep ('[' :: rest))
      | levels + 1 =>
        match skipSpace rest with
        | ']' :: after => .ok (.list [], ⟨after, false⟩)
        | after => (items steps levels ⟨after, false⟩).map fun r => (.list r.1, r.2)
    | '\x7b' :: rest =>
      match levels with
      | 0 => .error (.malformed .tooDeep ('\x7b' :: rest))
      | levels + 1 =>
        (fields steps levels OrderedMap.empty ⟨rest, p.afterText⟩).map fun r =>
          (.record r.1.entries, r.2)
    | rest => (orStop rest (plain rest)).map fun r => (r.1, ⟨r.2, false⟩)

/-- The items of a list up to its closing bracket. -/
def items : Nat → Nat → Spot → Except Stop (List (Value Float) × Spot)
  | 0, _, p => .error (.malformed .noValue p.rest)
  | steps + 1, levels, p => do
    match skipSpace p.rest with
    | ']' :: after => throw (.malformed .listEnd (']' :: after))
    | rest => do
      let (v, p) ← value steps levels ⟨rest, p.afterText⟩
      match skipSpace p.rest with
      | ']' :: after => return ([v], ⟨after, p.afterText⟩)
      | ',' :: after => (items steps levels ⟨after, p.afterText⟩).map fun r => (v :: r.1, r.2)
      | rest => throw (.malformed .listItem rest)

/-- The fields of an object up to its closing brace, stored one after the other. -/
def fields : Nat → Nat → OrderedMap String (Value Float) → Spot →
    Except Stop (OrderedMap String (Value Float) × Spot)
  | 0, _, _, p => .error (.malformed .noValue p.rest)
  | steps + 1, levels, held, p => do
    match skipSpace p.rest with
    | '\x7d' :: after => return (held, ⟨after, p.afterText⟩)
    | rest => do
      let (name, p) ← value steps levels ⟨rest, false⟩
      if !p.afterText then throw (.malformed .fieldName p.rest)
      match skipSpace p.rest with
      | ':' :: after => do
        let (v, p) ← value steps levels ⟨after, p.afterText⟩
        match name with
        | .text name => do
          let held := held.insert name v
          match skipSpace p.rest with
          | '\x7d' :: after => return (held, ⟨after, p.afterText⟩)
          | ',' :: after => fields steps levels held ⟨after, p.afterText⟩
          | rest => throw (.malformed .fieldEnd rest)
        | _ => throw .nameWithParts
      | rest => throw (.malformed .noColon rest)

end

/-- The lines of a text that hold more than blanks, without the blanks around them. -/
def nonBlank (cs : List Char) : List (List Char) :=
  ((cs.splitOnP (· == '\n')).map Text.trimBlanks).filter fun l => !l.isEmpty

/-- The lines of a text as the items of one list. -/
def combined (cs : List Char) : List Char :=
  '[' :: (List.intercalate [','] (nonBlank cs) ++ [']'])

/-- The values of a list that is the whole of a text. -/
def wholeList (cs : List Char) : Except Stop (List (Value Float)) := do
  let (v, p) ← value (2 * cs.length + 2) deepest ⟨cs, false⟩
  match skipSpace p.rest, v with
  | [], .list vs => return vs
  | [], _ => throw (.malformed .noValue [])
  | rest, _ => throw (.malformed .trailing rest)

/-- The number of bytes of a text. -/
def byteSize (cs : List Char) : Nat := cs.foldl (fun n c => n + c.utf8Size) 0

/-- The position of a departure from the grammar in a text. -/
def position (cs rest : List Char) (defect : LineDefect) : Nat :=
  let fault := byteSize cs - byteSize rest
  if defect.takesFault then fault else fault - 1

/-- The documents on the lines of a text. -/
def read (s : String) : Except LineFault (List (Value Float)) :=
  let cs := combined s.toList
  match wholeList cs with
  | .ok vs => .ok vs
  | .error (.malformed defect rest) => .error (.malformed defect (position cs rest defect))
  | .error .nameWithParts => .error .nameWithParts

end Lines

end Linkage.Json
