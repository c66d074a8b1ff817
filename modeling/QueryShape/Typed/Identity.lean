import QueryShape.Digest.Sha256
import QueryShape.Typed.References

/-!
# The identity of an operation

The source of an operation followed by the sources of the fragments that it depends on is a document
of its own. Its digest identifies the operation.
-/

set_option autoImplicit false

namespace QueryShape.Typed

structure Identity where
  sourceWithFragments : String
  operationId : String
  deriving DecidableEq, Repr

def Identity.ofSource (source : String) : Identity where
  sourceWithFragments := source
  operationId := Digest.Sha256.hexDigest source

namespace Document

variable (document : Document)

/-- The identity of an operation with the sources of the named fragments after its own. -/
def identityWith (operation : Operation) (names : List String) :
    Except FragmentError Identity := do
  let fragments ← names.mapM document.requireFragment
  return .ofSource ("\n".intercalate (operation.source :: fragments.map (·.source)))

def identity (operation : Operation) : Except FragmentError Identity := do
  document.identityWith operation (← document.references operation.selectionSet)

end Document

end QueryShape.Typed
