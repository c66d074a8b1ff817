import QueryShape.Source.BlockText

/-!
# Tokens

A document is a sequence of tokens: names, numerals, strings and punctuators. Between them stand
blanks, commas, line ends, byte order marks and comments, which mean nothing. `Token.scan` reads the
tokens of a text and fails where no token can be read.
-/

set_option autoImplicit false

namespace QueryShape.Source

inductive Token where
  | punctuator (mark : String)
  | name (text : String)
  | int (numeral : String)
  | float (numeral : String)
  | string (text : String)
  | blockString (text : String)
  deriving DecidableEq, Repr, Inhabited

inductive ParseError where
  | unexpectedCharacter (c : Char)
  | malformedNumeral (start : String)
  | unterminatedString
  | malformedEscape
  | unexpectedToken (found : Token)
  | unexpectedEnd
  deriving Repr, Inhabited

namespace Token

def isIgnored (c : Char) : Bool :=
  c = ' ' || c = '\t' || c = ',' || c = '\uFEFF' || c = '\n' || c = '\r'

def isNameStart (c : Char) : Bool :=
  c.isAlpha || c = '_'

def isNamePart (c : Char) : Bool :=
  isNameStart c || c.isDigit

def skipIgnored : List Char → List Char
  | [] => []
  | '#' :: rest => skipComment rest
  | c :: rest => if isIgnored c then skipIgnored rest else c :: rest
where
  skipComment : List Char → List Char
    | [] => []
    | c :: rest => if BlockText.isLineEnd c then skipIgnored rest else skipComment rest

def digits (text : List Char) : Except ParseError (List Char × List Char) :=
  match text.takeWhile Char.isDigit with
  | [] => .error (.malformedNumeral (String.ofList (text.take 1)))
  | ds => .ok (ds, text.dropWhile Char.isDigit)

/-- The integer part of a numeral: a zero stands alone. -/
def wholePart : List Char → Except ParseError (List Char × List Char)
  | '0' :: rest =>
    match rest with
    | c :: _ => if c.isDigit then .error (.malformedNumeral "0") else .ok (['0'], rest)
    | [] => .ok (['0'], [])
  | text => digits text

def signedWholePart : List Char → Except ParseError (List Char × List Char)
  | '-' :: rest => do
    let (ds, rest) ← wholePart rest
    return ('-' :: ds, rest)
  | text => wholePart text

def fractionPart : List Char → Except ParseError (List Char × List Char)
  | '.' :: rest => do
    let (ds, rest) ← digits rest
    return ('.' :: ds, rest)
  | text => .ok ([], text)

def exponentPart : List Char → Except ParseError (List Char × List Char)
  | mark :: rest =>
    if mark = 'e' ∨ mark = 'E' then
      match rest with
      | sign :: rest' =>
        if sign = '+' ∨ sign = '-' then do
          let (ds, rest) ← digits rest'
          return (mark :: sign :: ds, rest)
        else do
          let (ds, rest) ← digits rest
          return (mark :: ds, rest)
      | [] => .error .unexpectedEnd
    else .ok ([], mark :: rest)
  | [] => .ok ([], [])

/-- A numeral, which no point and no name may follow directly. -/
def numeral (text : List Char) : Except ParseError (Token × List Char) := do
  let (whole, rest) ← signedWholePart text
  let (fraction, rest) ← fractionPart rest
  let (exponent, rest) ← exponentPart rest
  let written := String.ofList (whole ++ fraction ++ exponent)
  match rest with
  | c :: _ => if c = '.' ∨ isNameStart c then throw (.malformedNumeral written)
  | [] => pure ()
  return (if fraction.isEmpty && exponent.isEmpty then .int written else .float written, rest)

def hexValue? (c : Char) : Option Nat :=
  if c.isDigit then some (c.toNat - '0'.toNat)
  else if 'a' ≤ c ∧ c ≤ 'f' then some (c.toNat - 'a'.toNat + 10)
  else if 'A' ≤ c ∧ c ≤ 'F' then some (c.toNat - 'A'.toNat + 10)
  else none

def hexNumber? (ds : List Char) : Option Nat :=
  ds.foldl (fun value d => do return 16 * (← value) + (← hexValue? d)) (some 0)

/-- The character of a code point, unless it is a surrogate or out of range. -/
def charOfCode? (code : Nat) : Option Char :=
  if code < 0xD800 ∨ (0xDFFF < code ∧ code < 0x110000) then some (Char.ofNat code) else none

def bracedEscape (text : List Char) : Except ParseError (Char × List Char) :=
  let ds := text.takeWhile (hexValue? · |>.isSome)
  match (hexNumber? ds).bind charOfCode?, text.drop ds.length with
  | some c, '\x7d' :: rest =>
    if 1 ≤ ds.length ∧ ds.length ≤ 8 then .ok (c, rest) else .error .malformedEscape
  | _, _ => .error .malformedEscape

def hexFour? (text : List Char) : Option Nat :=
  if (text.take 4).length = 4 then hexNumber? (text.take 4) else none

/-- The rest of an escape after a backslash and the letter `u`: four digits, or two groups of four
digits that make up a surrogate pair. -/
def fixedEscape (text : List Char) : Except ParseError (Char × List Char) :=
  match hexFour? text with
  | none => .error .malformedEscape
  | some code =>
    match charOfCode? code, text.drop 4 with
    | some c, rest => .ok (c, rest)
    | none, '\\' :: 'u' :: second =>
      match hexFour? second with
      | some low =>
        if code < 0xDC00 ∧ 0xDC00 ≤ low ∧ low ≤ 0xDFFF then
          .ok (Char.ofNat (0x10000 + (code - 0xD800) * 0x400 + (low - 0xDC00)), second.drop 4)
        else .error .malformedEscape
      | none => .error .malformedEscape
    | none, _ => .error .malformedEscape

def escape : List Char → Except ParseError (Char × List Char)
  | '"' :: rest => .ok ('"', rest)
  | '\\' :: rest => .ok ('\\', rest)
  | '/' :: rest => .ok ('/', rest)
  | 'b' :: rest => .ok ('\x08', rest)
  | 'f' :: rest => .ok ('\x0c', rest)
  | 'n' :: rest => .ok ('\n', rest)
  | 'r' :: rest => .ok ('\r', rest)
  | 't' :: rest => .ok ('\t', rest)
  | 'u' :: '\x7b' :: rest => bracedEscape rest
  | 'u' :: rest => fixedEscape rest
  | _ => .error .malformedEscape

/-- The rest of a string after its opening quote. The first argument bounds the number of characters
and escapes, of which a text has no more than characters. -/
def stringBody : Nat → List Char → Except ParseError (List Char × List Char)
  | 0, _ => .error .unterminatedString
  | _ + 1, [] => .error .unterminatedString
  | _ + 1, '"' :: rest => .ok ([], rest)
  | bound + 1, '\\' :: rest => do
    let (c, rest) ← escape rest
    let (cs, rest) ← stringBody bound rest
    return (c :: cs, rest)
  | bound + 1, c :: rest =>
    if BlockText.isLineEnd c then .error .unterminatedString
    else do
      let (cs, rest) ← stringBody bound rest
      return (c :: cs, rest)

/-- The raw content of a block string after its opening quotes; an escaped triple quote loses its
backslash. -/
def blockBody : List Char → Except ParseError (List Char × List Char)
  | [] => .error .unterminatedString
  | '"' :: '"' :: '"' :: rest => .ok ([], rest)
  | '\\' :: '"' :: '"' :: '"' :: rest => do
    let (cs, rest) ← blockBody rest
    return ('"' :: '"' :: '"' :: cs, rest)
  | c :: rest => do
    let (cs, rest) ← blockBody rest
    return (c :: cs, rest)

def next : List Char → Except ParseError (Token × List Char)
  | [] => .error .unexpectedEnd
  | '.' :: '.' :: '.' :: rest => .ok (.punctuator "...", rest)
  | '"' :: '"' :: '"' :: rest => do
    let (content, rest) ← blockBody rest
    return (.blockString (String.ofList (BlockText.read content)), rest)
  | '"' :: rest => do
    let (text, rest) ← stringBody (rest.length + 1) rest
    return (.string (String.ofList text), rest)
  | c :: rest =>
    if c ∈ ['!', '$', '&', '(', ')', ':', '=', '@', '[', ']', '\x7b', '|', '\x7d'] then
      .ok (.punctuator (String.singleton c), rest)
    else if isNameStart c then
      .ok (.name (String.ofList (c :: rest.takeWhile isNamePart)), rest.dropWhile isNamePart)
    else if c.isDigit || c = '-' then numeral (c :: rest)
    else .error (.unexpectedCharacter c)

/-- The tokens of a text. Every token takes up at least one character, so the length bounds their
number; the bound is given with the text. -/
def scanFrom : Nat → List Char → Except ParseError (List Token)
  | 0, _ => .ok []
  | bound + 1, text =>
    match skipIgnored text with
    | [] => .ok []
    | start => do
      let (token, rest) ← next start
      return token :: (← scanFrom bound rest)

def scan (text : String) : Except ParseError (List Token) :=
  scanFrom (text.length + 1) text.toList

end Token

end QueryShape.Source
