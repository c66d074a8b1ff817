/-!
# Block strings

The text between triple quotes. Reading takes off the indentation that the lines after the first
have in common, and the blank lines at both ends. Writing decides whether the text stands on the
line of its quotes or on lines of its own.
-/

set_option autoImplicit false

namespace QueryShape.Source.BlockText

def isBlank (c : Char) : Bool :=
  c = ' ' || c = '\t'

/-- The characters that end a line; no others do. -/
def isLineEnd (c : Char) : Bool :=
  c = '\n' || c = '\r'

/-- The lines of a text. A carriage return and a line feed together end one line. -/
def splitLines : List Char → List (List Char)
  | [] => [[]]
  | '\r' :: '\n' :: rest => [] :: splitLines rest
  | c :: rest =>
    if isLineEnd c then [] :: splitLines rest
    else
      match splitLines rest with
      | line :: lines => (c :: line) :: lines
      | [] => [[c]]

def indentOf (line : List Char) : Option Nat :=
  if line.all isBlank then none else some (line.takeWhile isBlank).length

def commonIndent (lines : List (List Char)) : Option Nat :=
  (lines.filterMap indentOf).min?

def trimBlankLines (lines : List (List Char)) : List (List Char) :=
  ((lines.dropWhile (·.all isBlank)).reverse.dropWhile (·.all isBlank)).reverse

def joinLines (lines : List (List Char)) : List Char :=
  List.intercalate ['\n'] lines

/-- The lines without their common indentation, which the first line has no part in. -/
def dedent : List (List Char) → List (List Char)
  | [] => []
  | first :: rest =>
    match commonIndent rest with
    | none => first :: rest
    | some indent => first :: rest.map (List.drop indent)

/-- The value of a block string whose raw content is given. A blank line stays blank when its
indentation is taken off, so trimming may come last. -/
def read (content : List Char) : List Char :=
  joinLines (trimBlankLines (dedent (splitLines content)))

def escapeQuotes : List Char → List Char
  | '"' :: '"' :: '"' :: rest => '\\' :: '"' :: '"' :: '"' :: escapeQuotes rest
  | c :: rest => c :: escapeQuotes rest
  | [] => []

def endsWith (text ending : List Char) : Bool :=
  ending.reverse.isPrefixOf text.reverse

def write (value : List Char) : List Char :=
  let escaped := escapeQuotes value
  let lines := splitLines escaped
  let isSingle := lines.length == 1
  let laterLinesIndented := lines.tail.all fun line =>
    match line with
    | [] => true
    | c :: _ => isBlank c
  let forceLeading := !isSingle && laterLinesIndented
  let endsWithTriple := endsWith escaped ['\\', '"', '"', '"']
  let forceTrailing := (endsWith value ['"'] && !endsWithTriple) || endsWith value ['\\']
  let onOwnLines :=
    !isSingle || value.length > 70 || forceTrailing || forceLeading || endsWithTriple
  let startsBlank := match value with
    | c :: _ => isBlank c
    | [] => false
  let before := if (onOwnLines && !(isSingle && startsBlank)) || forceLeading then ['\n'] else []
  let after := if onOwnLines || forceTrailing then ['\n'] else []
  ['"', '"', '"'] ++ before ++ escaped ++ after ++ ['"', '"', '"']

end QueryShape.Source.BlockText
