import QueryShape.Compilation
import QueryShape.Schema.Composite
import QueryShape.Schema.OfDefinitions
import QueryShape.Schema.OfText
import QueryShape.Proofs.Source.Reading
import QueryShape.Proofs.Typed.Collection
import QueryShape.Proofs.Flat.Coverage
import QueryShape.Proofs.Flat.Listed
import QueryShape.Proofs.Flat.SelfContained
import QueryShape.Proofs.Typed.Conditional
import QueryShape.Proofs.Typed.Following
import QueryShape.Proofs.Flat.Merged
import QueryShape.Proofs.Flat.Following
import QueryShape.Proofs.Typed.Paths
import QueryShape.Proofs.Flat.Pieces
import QueryShape.Proofs.Flat.Presence
import QueryShape.Proofs.Schema.Interfaces
import QueryShape.Proofs.Flat.WellTyped
import QueryShape.Proofs.Flat.Documents
import QueryShape.Proofs.Flat.Independence
import QueryShape.Proofs.Flat.Repeats
import QueryShape.Proofs.Flat.Unambiguous
import QueryShape.Proofs.Flat.EmptyFragments
import QueryShape.Proofs.Flat.Rearranged
import QueryShape.Proofs.Flat.Typename
import QueryShape.Proofs.Typed.Folding
import QueryShape.Proofs.Typed.Coarsest
import QueryShape.Proofs.Typed.InPlace
import QueryShape.Proofs.Typed.Gathering
import QueryShape.Proofs.Typed.Unfolding
import QueryShape.Proofs.Flat.RecordSpreads
import QueryShape.Proofs.Typed.TypesUsed
import QueryShape.Proofs.Typed.TellingTypes
import QueryShape.Proofs.Source.Typename
import QueryShape.Proofs.Source.Literals
import QueryShape.Proofs.Typed.Directives
import QueryShape.Proofs.Typed.PlacedSpreads
import QueryShape.Proofs.Typed.Grouping
import QueryShape.Proofs.Options
import QueryShape.Proofs.Flat.Covering
import QueryShape.Proofs.Typed.Refusals
import QueryShape.Proofs.Texts
