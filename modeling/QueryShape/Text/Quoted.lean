import QueryShape.Text.Printable

/-!
# Quoted names

How names are shown in messages and in the text of a record: in single quotes, or in double quotes
if the name holds a single quote and no double one. A backslash, the delimiter and control
characters are escaped; printable characters outside ASCII stay as they are.
-/

set_option autoImplicit false

namespace QueryShape.Text

def hexPadded (width code : Nat) : List Char :=
  let digits := Nat.toDigits 16 code
  List.replicate (width - digits.length) '0' ++ digits

def quotedChar (delimiter c : Char) : List Char :=
  if c = '\\' ∨ c = delimiter then ['\\', c]
  else if c = '\n' then ['\\', 'n']
  else if c = '\r' then ['\\', 'r']
  else if c = '\t' then ['\\', 't']
  else if isPrintable c then [c]
  else if c.toNat < 0x100 then '\\' :: 'x' :: hexPadded 2 c.toNat
  else if c.toNat < 0x10000 then '\\' :: 'u' :: hexPadded 4 c.toNat
  else '\\' :: 'U' :: hexPadded 8 c.toNat

def quoted (text : String) : String :=
  let chars := text.toList
  let delimiter := if '\'' ∈ chars ∧ '"' ∉ chars then '"' else '\''
  String.ofList (delimiter :: chars.flatMap (quotedChar delimiter) ++ [delimiter])

def bracketed (items : List String) : String :=
  "[" ++ ", ".intercalate items ++ "]"

def quotedList (names : List String) : String :=
  bracketed (names.map quoted)

end QueryShape.Text
