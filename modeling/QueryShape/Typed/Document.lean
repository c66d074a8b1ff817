import QueryShape.Typed.OfSource
import QueryShape.Typed.TypesUsed

/-!
# Typed documents from written ones

A document is typed fragment by fragment and then operation by operation, in their order; the first
that cannot be typed decides the error.
-/

set_option autoImplicit false

namespace QueryShape.Typed

/-- Types a document. The file path is that of every definition. -/
def Document.ofSource (schema : Schema) (filePath : Option String) (document : Source.Document) :
    Except TypingError Document := do
  let fragmentType? (name : String) : Option String :=
    (document.fragment? name).map (·.typeCondition)
  let fragments ← document.fragments.mapM (Fragment.ofSource schema fragmentType? filePath)
  let operations ← document.operations.mapM (Operation.ofSource schema fragmentType? filePath)
  return { operations, fragments, typesUsed := usedTypes schema document }

end QueryShape.Typed
