import QueryShape.Source.Basic
import QueryShape.Source.BlockText

/-!
# Writing documents

The written form of operations, fragments and their parts: one selection on a line, nested selection
sets in braces and indented by two spaces, the arguments of a field on lines of their own where they
would make its line longer than eighty characters.
-/

set_option autoImplicit false

namespace QueryShape.Source

namespace Layout

/-- The text with every line moved to the right, including lines inside strings; a text that is
empty has no line. -/
def indented (text : String) : String :=
  if text = "" then ""
  else
    "  " ++ String.ofList (text.toList.flatMap fun c => if c = '\n' then ['\n', ' ', ' '] else [c])

def joined (separator : String) (parts : List String) : String :=
  separator.intercalate (parts.filter (· ≠ ""))

def wrapped (before text after : String) : String :=
  if text = "" then "" else before ++ text ++ after

def block (lines : List String) : String :=
  wrapped "\x7b\n" (indented (joined "\n" lines)) "\n\x7d"

def optionalBlock (lines : List String) : String :=
  if lines.isEmpty then "" else block lines

def maxLineLength : Nat := 80

end Layout

open Layout

def escapedChar (c : Char) : List Char :=
  if c = '"' then ['\\', '"']
  else if c = '\\' then ['\\', '\\']
  else if c = '\x08' then ['\\', 'b']
  else if c = '\t' then ['\\', 't']
  else if c = '\n' then ['\\', 'n']
  else if c = '\x0c' then ['\\', 'f']
  else if c = '\r' then ['\\', 'r']
  else if c.toNat < 0x20 ∨ (0x7f ≤ c.toNat ∧ c.toNat ≤ 0x9f) then
    let digits := (Nat.toDigits 16 c.toNat).map Char.toUpper
    '\\' :: 'u' :: (List.replicate (4 - digits.length) '0' ++ digits)
  else [c]

def quotedText (text : String) : String :=
  String.ofList ('"' :: text.toList.flatMap escapedChar ++ ['"'])

/-- A string as it is written, on one line or as a block. -/
def stringText (text : String) (isBlock : Bool) : String :=
  if isBlock then String.ofList (BlockText.write text.toList) else quotedText text

namespace Value

mutual

def print : Value → String
  | var name => "$" ++ name
  | int numeral => numeral
  | float numeral => numeral
  | string text isBlock => stringText text isBlock
  | boolean value => if value then "true" else "false"
  | null => "null"
  | enum name => name
  | list items => "[" ++ ", ".intercalate (printItems items) ++ "]"
  | object fields => "\x7b" ++ ", ".intercalate (printFields fields) ++ "\x7d"

def printItems : List Value → List String
  | [] => []
  | item :: rest => print item :: printItems rest

def printFields : List (String × Value) → List String
  | [] => []
  | (name, value) :: rest => (name ++ ": " ++ print value) :: printFields rest

end

end Value

def Argument.print (argument : Argument) : String :=
  argument.name ++ ": " ++ argument.value.print

def Directive.print (directive : Directive) : String :=
  "@" ++ directive.name ++ wrapped "(" (joined ", " (directive.arguments.map Argument.print)) ")"

def printDirectives (directives : List Directive) : String :=
  joined " " (directives.map Directive.print)

def fieldLine (aliasName : Option String) (name : String) (arguments : List Argument) : String :=
  let label := wrapped "" (aliasName.getD "") ": " ++ name
  let printed := arguments.map Argument.print
  let line := label ++ wrapped "(" (joined ", " printed) ")"
  if maxLineLength < line.length then
    label ++ wrapped "(\n" (indented (joined "\n" printed)) "\n)"
  else line

namespace Selection

mutual

def print : Selection → String
  | field aliasName name arguments directives selections =>
    joined " "
      [fieldLine aliasName name arguments, printDirectives directives,
       optionalBlock (printAll selections)]
  | fragmentSpread name directives => "..." ++ name ++ wrapped " " (printDirectives directives) ""
  | inlineFragment typeCondition directives selections =>
    joined " "
      ["...", wrapped "on " (typeCondition.getD "") "", printDirectives directives,
       optionalBlock (printAll selections)]

def printAll : List Selection → List String
  | [] => []
  | selection :: rest => print selection :: printAll rest

end

end Selection

def printDescription (description : Option Description) : String :=
  description.elim "" fun given => stringText given.text given.isBlock ++ "\n"

def VariableDefinition.print (definition : VariableDefinition) : String :=
  printDescription definition.description ++
    "$" ++ definition.name ++ ": " ++ definition.type.text ++
    wrapped " = " ((definition.defaultValue.map Value.print).getD "") "" ++
    wrapped " " (printDirectives definition.directives) ""

/-- Variable definitions in parentheses, each on its own line if one of them takes several lines. -/
def printVariables (definitions : List VariableDefinition) : String :=
  let printed := definitions.map VariableDefinition.print
  if printed.any (·.toList.contains '\n') then wrapped "(\n" (joined "\n" printed) "\n)"
  else wrapped "(" (joined ", " printed) ")"

/-- An operation. A query without description, name, variables and directives is written as its
block alone. -/
def Operation.print (operation : Operation) : String :=
  let heading :=
    printDescription operation.description ++
      joined " "
        [operation.kind.keyword,
         operation.name.getD "" ++ printVariables operation.variableDefinitions,
         printDirectives operation.directives]
  (if heading = "query" then "" else heading ++ " ") ++
    block (Selection.printAll operation.selections)

def Fragment.print (fragment : Fragment) : String :=
  printDescription fragment.description ++
    "fragment " ++ fragment.name ++ " on " ++ fragment.typeCondition ++ " " ++
    wrapped "" (printDirectives fragment.directives) " " ++
    block (Selection.printAll fragment.selections)

end QueryShape.Source
