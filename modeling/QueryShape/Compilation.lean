import QueryShape.Flat.OfTyped
import QueryShape.Source.Parser
import QueryShape.Source.Typename
import QueryShape.Typed.Document
import QueryShape.Validity.Rules
import QueryShape.Validity.Types

/-!
# Compiling documents

From the text of a document to its typed form, and on to its flat form. The document is read and
validated against the schema, gets `__typename` fields if the options ask for them, and is then
typed.
-/

set_option autoImplicit false

namespace QueryShape

inductive CompileError where
  | options (error : OptionError)
  | parsing (error : Source.ParseError)
  /-- The types of the schema break a rule. -/
  | invalidSchema
  /-- The root fields of a subscription cannot be told without the values of variables. -/
  | undecidedSubscription
  | invalidDocument
  | notADocument (given : Data)
  | typing (error : Typed.TypingError)
  | fragment (error : Typed.FragmentError)
  deriving Repr

namespace CompileError

/-- The text of the error. There is none where it is made of texts of the library that reads and
validates documents. -/
def message? : CompileError → Option String
  | options error => some error.message
  | parsing _ | invalidSchema | undecidedSubscription | invalidDocument => none
  | notADocument given =>
    some ("Expected a GraphQL string or DocumentNode, but got: " ++ given.kindName ++ " " ++
      given.display)
  | typing error => some error.message
  | fragment error => some error.message

def message (error : CompileError) : String :=
  error.message?.getD ""

end CompileError

/-- The document that a value stands for, which has to be a text. -/
def Source.Document.ofData : Data → Except CompileError Source.Document
  | .string text => (Source.Document.parse text).mapError .parsing
  | given => .error (.notADocument given)

/-- Types a document that has been read, if it is valid. -/
def Typed.Document.compile (schema : Schema) (options : Options) (filePath : Option String)
    (document : Source.Document) : Except CompileError Typed.Document := do
  unless Validity.typesValid schema do throw .invalidSchema
  unless Validity.subscriptionsDecided schema document do throw .undecidedSubscription
  unless Validity.isValid schema document do throw .invalidDocument
  let document := if options.addTypename then document.addTypename else document
  (Typed.Document.ofSource schema filePath document).mapError .typing

def Flat.Document.compile (schema : Schema) (options : Options) (filePath : Option String)
    (document : Source.Document) : Except CompileError Flat.Document := do
  let typed ← Typed.Document.compile schema options filePath document
  (Flat.Document.ofTyped options typed).mapError .fragment

end QueryShape
