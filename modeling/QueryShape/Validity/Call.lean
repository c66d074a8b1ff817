import QueryShape.Validity.Value

/-!
# Directives and arguments

Directives stand in places of various kinds, in documents and in definitions of schemas, and take
arguments as fields do. The rules about both are the same wherever they stand.
-/

set_option autoImplicit false

namespace QueryShape.Validity

open Source (Argument Directive)

/-- The directives in one place of a document, with the name of the kind of place. -/
structure DirectivePlace where
  location : String
  directives : List Directive

/-- The arguments given to a field or a directive, and the declared ones if it is defined. -/
structure Call where
  given : List Argument
  declared : Option (List Schema.InputValue)

def Call.declaration? (call : Call) (name : String) : Option Schema.InputValue :=
  call.declared.bind fun declared => declared.find? (·.name == name)

section

variable (schema : Schema)

def directiveCall (directive : Directive) : Call where
  given := directive.arguments
  declared := (schema.directive? directive.name).map (·.arguments)

def DirectivePlace.calls (place : DirectivePlace) : List Call :=
  place.directives.map (directiveCall schema)

def directivesKnown (place : DirectivePlace) : Bool :=
  place.directives.all fun directive =>
    (schema.directive? directive.name).any (·.locations.contains place.location)

def directivesUnique (directives : List Directive) : Bool :=
  decide ((directives.map (·.name)).filter fun name =>
    (schema.directive? name).any (!·.isRepeatable)).Nodup

def argumentsKnown (call : Call) : Bool :=
  call.declared.isNone || call.given.all fun argument => (call.declaration? argument.name).isSome

def argumentsUnique (call : Call) : Bool :=
  decide (call.given.map (·.name)).Nodup

def argumentsGiven (call : Call) : Bool :=
  call.declared.all fun declared => declared.all fun argument =>
    !argument.isRequired || (call.given.map (·.name)).contains argument.name

def argumentsFit (call : Call) : Bool :=
  call.given.all fun argument =>
    fits schema ((call.declaration? argument.name).map (·.type)) argument.value

def argumentFieldsUnique (call : Call) : Bool :=
  call.given.all fun argument => hasUniqueFields argument.value

end

end QueryShape.Validity
