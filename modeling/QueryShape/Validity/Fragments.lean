import QueryShape.Validity.Site
import QueryShape.Walk

/-!
# Rules that follow fragments

What an operation uses includes what the fragments that it reaches use. This module holds the walks
through fragments on which rules depend: which fragments spread themselves, and how deeply
introspection is nested.
-/

set_option autoImplicit false

namespace QueryShape.Validity

open Source (Selection Directive Document Operation Fragment)

mutual

def spreadsWithin : Selection → List String
  | .field _ _ _ _ selections => allSpreadsWithin selections
  | .fragmentSpread name _ => [name]
  | .inlineFragment _ _ selections => allSpreadsWithin selections

def allSpreadsWithin : List Selection → List String
  | [] => []
  | selection :: rest => spreadsWithin selection ++ allSpreadsWithin rest

end

section

variable (document : Document)

def reachedFrom (selections : List Selection) : List String :=
  Walk.fromAll
    (fun name => ((document.fragment? name).map (allSpreadsWithin ·.selections)).getD [])
    document.fragments.length (allSpreadsWithin selections)

def fragmentsAcyclic : Bool :=
  document.fragments.all fun fragment =>
    !(reachedFrom document fragment.selections).contains fragment.name

def listingFields : List String :=
  ["fields", "interfaces", "possibleTypes", "inputFields"]

def listingLimit : Nat := 3

/-- How many listing fields are nested in each other in what is known of fragments. -/
abbrev ListingDepths := List (String × Nat)

mutual

def listingDepth (depths : ListingDepths) : Selection → Nat
  | .field _ name _ _ selections =>
    (if listingFields.contains name then 1 else 0) + maxListingDepth depths selections
  | .fragmentSpread name _ => (depths.lookup name).getD 0
  | .inlineFragment _ _ selections => maxListingDepth depths selections

def maxListingDepth (depths : ListingDepths) : List Selection → Nat
  | [] => 0
  | selection :: rest => max (listingDepth depths selection) (maxListingDepth depths rest)

end

/-- The depths in fragments, where the bound limits how deeply fragments spread each other. -/
def fragmentDepthsWithin : Nat → ListingDepths
  | 0 => []
  | bound + 1 =>
    let depths := fragmentDepthsWithin bound
    document.fragments.map fun fragment =>
      (fragment.name, maxListingDepth depths fragment.selections)

/-- The depths in all fragments; those that do not spread themselves spread each other at most as
deeply as there are fragments. -/
def fragmentDepths : ListingDepths :=
  fragmentDepthsWithin document document.fragments.length

def introspectionShallow (depths : ListingDepths) (site : FieldSite) : Bool :=
  !(["__schema", "__type"].contains site.name) ||
    decide (maxListingDepth depths site.selections < listingLimit)

end

end QueryShape.Validity
