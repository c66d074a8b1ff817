import QueryShape.Decimal.Shortest
import QueryShape.Text.Quoted

/-!
# Data values

Argument values and the values of options: null, booleans, numbers, strings, lists, and objects
whose entries keep their order. A variable is represented by an object of a fixed shape,
`Data.reference`. Of entries under one key, the first place and the last value count
(`Data.distinctEntries`). `Data.display` is the form in which a value appears in a message.
-/

set_option autoImplicit false

namespace QueryShape

inductive Data where
  | null
  | bool (value : Bool)
  | int (value : Int)
  | float (value : Binary64)
  | string (value : String)
  | list (items : List Data)
  | object (entries : List (String × Data))
  deriving Repr, Inhabited

namespace Data

/-- Sets a key: an entry that has the key keeps its place and gets the new value, else a new entry
is added at the end. -/
def insertEntry {α : Type} (entries : List (String × α)) (key : String) (value : α) :
    List (String × α) :=
  match entries with
  | [] => [(key, value)]
  | entry :: rest =>
    if entry.1 = key then (key, value) :: rest else entry :: insertEntry rest key value

/-- The entries with every key once, at its first place and with its last value. -/
def distinctEntries {α : Type} (entries : List (String × α)) : List (String × α) :=
  entries.foldl (fun seen entry => insertEntry seen entry.1 entry.2) []

def reference (variableName : String) : Data :=
  object [("kind", string "Variable"), ("variableName", string variableName)]

mutual

def nestedDisplay : Data → String
  | null => "None"
  | bool true => "True"
  | bool false => "False"
  | int value => toString value
  | float value => value.text
  | string value => Text.quoted value
  | list items => Text.bracketed (nestedDisplays items)
  | object entries => "\x7b" ++ ", ".intercalate (entryDisplays entries) ++ "\x7d"

def nestedDisplays : List Data → List String
  | [] => []
  | item :: rest => nestedDisplay item :: nestedDisplays rest

def entryDisplays : List (String × Data) → List String
  | [] => []
  | (key, value) :: rest => (Text.quoted key ++ ": " ++ nestedDisplay value) :: entryDisplays rest

end

/-- A value in a message: a string as it is, any other value as inside a list. -/
def display : Data → String
  | string value => value
  | other => nestedDisplay other

def kindName : Data → String
  | null => "NoneType"
  | bool _ => "bool"
  | int _ => "int"
  | float _ => "float"
  | string _ => "str"
  | list _ => "list"
  | object _ => "dict"

end Data

end QueryShape
