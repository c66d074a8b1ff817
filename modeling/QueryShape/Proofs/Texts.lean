import QueryShape.Proofs.Flat.Coverage
import QueryShape.Proofs.Flat.Following
import QueryShape.Proofs.Flat.SelfContained
import QueryShape.Proofs.Flat.Typename
import QueryShape.Proofs.Flat.Unambiguous
import QueryShape.Proofs.Schema.Interfaces
import QueryShape.Proofs.Schema.OutputTypes
import QueryShape.Proofs.Schema.StandardConditions
import QueryShape.Proofs.Source.Reading
import QueryShape.Proofs.Typed.Refusals
import QueryShape.Proofs.Typed.TellingTypes

/-!
# Schemas and documents that are read

What is known of compiled documents is stated for any schema and any document, where some of it
asks that the names of the schema are distinct, that its fields have output types, that names are
strings, or that no alias is empty. None of this has to be asked of schemas and documents that are
read from texts.
-/

set_option autoImplicit false

namespace QueryShape

open Typed (SelectionSet)

variable {schema : Schema} {options compileOptions : Options} {filePath : Option String}
  {source : Source.Document} {document : Typed.Document} {set : SelectionSet}

section

variable {text : String} (hsource : Source.Document.parse text = .ok source)
include hsource

theorem Typed.Document.hasNames_of_parse
    (hcompile : Typed.Document.compile schema options filePath source = .ok document) :
    document.HasNames :=
  Typed.Document.hasNames_of_compile hcompile (Source.Document.aliases_of_parse hsource)

namespace Flat

theorem exists_showsSelected_of_parse
    (hcompile : Typed.Document.compile schema compileOptions filePath source = .ok document)
    (hset : IsFlattened options document set) :
    ∃ node, flatten options document set = .ok node ∧ node.ShowsSelected options document set :=
  hset.exists_showsSelected (Typed.Document.isClosed_of_compile hcompile)
    (Typed.Document.isAcyclic_of_compile hcompile)
    (Typed.Document.hasNames_of_parse hsource hcompile)

theorem exists_showsPresence_of_parse
    (hcompile : Typed.Document.compile schema compileOptions filePath source = .ok document)
    {type : String} (hroot : document.HasRoot type set)
    (hmerge : options.mergeSpreadFields = true) :
    ∃ node, flatten options document set = .ok node ∧
      node.ShowsPresence schema document type set :=
  exists_showsPresence (Typed.Document.isSound_of_compile hcompile)
    (Typed.Document.hasNames_of_parse hsource hcompile) hroot hmerge

theorem exists_showsFollowed_of_parse
    (hcompile : Typed.Document.compile schema compileOptions filePath source = .ok document)
    (hset : document.HasSet set) (options : Options) :
    ∃ merging separate,
      flatten { options with mergeSpreadFields := true } document set = .ok merging ∧
      flatten { options with mergeSpreadFields := false } document set = .ok separate ∧
      ShowsFollowed options document set merging separate :=
  exists_showsFollowed (Typed.Document.isSound_of_compile hcompile)
    (Typed.Document.hasNames_of_parse hsource hcompile) hset options

theorem exists_gains_of_parse {flat : Document}
    (hcompile : Document.compile schema { options with addTypename := false } filePath source =
      .ok flat) :
    (∃ other, Document.compile schema { options with addTypename := true } filePath source =
      .ok other ∧ flat.Gains schema options.mergeSpreadFields other) ∧
    ("__typename" ∉ source.aliases → flat.IsUnmasked schema) := by
  have haliases := Source.Document.aliases_of_parse hsource
  exact ⟨exists_gains_of_compile haliases hcompile,
    fun htypename => isUnmasked_of_compile haliases htypename hcompile⟩

end Flat

end

section

variable {text : String} (hschema : Schema.parse text = .ok schema)
include hschema

namespace Flat

theorem exists_forall₂_isKeptText_of_parse
    (hcompile : Typed.Document.compile schema compileOptions filePath source = .ok document) :
    ∃ flat, Document.ofTyped options document = .ok flat ∧
      List.Forall₂ (fun original operation =>
          IsKeptText (source.prepared compileOptions) original operation.sourceWithFragments)
        (source.prepared compileOptions).operations flat.operations := by
  obtain ⟨htypes, hvalid, _⟩ := Typed.Document.isTyped_of_compile hcompile
  have houtput := Schema.hasOutputTypes_of_parse hschema
  exact exists_forall₂_isKeptText hcompile
    ((Validity.endsAtLeaves_of_isValid houtput htypes hvalid).prepared compileOptions)

theorem isTypedInPieces_of_parse
    (hcompile : Typed.Document.compile schema compileOptions filePath source = .ok document)
    (options : Options) : IsTypedInPieces schema options document := by
  obtain ⟨hvalid, _, _⟩ := Typed.Document.isTyped_of_compile hcompile
  exact isTypedInPieces (Typed.Document.isSound_of_compile hcompile) hvalid
    (Schema.hasDistinctNames_of_parse hschema) options

theorem exists_isUnambiguous_of_parse {sourceText : String}
    (hsource : Source.Document.parse sourceText = .ok source)
    (hcompile : Typed.Document.compile schema compileOptions filePath source = .ok document)
    (options : Options) :
    ∃ flat, Document.ofTyped options document = .ok flat ∧
      flat.IsUnambiguous schema options document := by
  obtain ⟨hvalid, _, _⟩ := Typed.Document.isTyped_of_compile hcompile
  exact exists_isUnambiguous (Typed.Document.isSound_of_compile hcompile)
    (Typed.Document.hasNames_of_parse hsource hcompile) hvalid
    (Schema.hasDistinctNames_of_parse hschema) options

end Flat

namespace Typed

theorem isToldAsWritten_of_parse (hadd : options.addTypename = true)
    (hcompile : Document.compile schema options filePath source = .ok document)
    (hset : set ∈ document.innerSets) : set.IsToldAsWritten schema source := by
  obtain ⟨type, written, hinner, hpossible, htyping⟩ := Document.exists_written_of_compile
    (Schema.body?_string_of_parse hschema) hadd hcompile hset
  exact ⟨type, written, hinner, hpossible, htyping, htyping.tellsType_iff⟩

/-- The text of the schema declares neither `@skip` nor `@include` itself. -/
theorem compilesUnlessRefused_of_parse {schemaDocument : Source.Document}
    (hdocument : Source.Document.parse text = .ok schemaDocument)
    (hown : ∀ directive ∈ schemaDocument.directives, directive.name ∉ ["skip", "include"])
    (htypes : Validity.typesValid schema = true)
    (hdecided : Validity.subscriptionsDecided schema source = true)
    (hvalid : Validity.isValid schema source = true) :
    Document.CompilesUnlessRefused schema options filePath source := by
  have hstandard := Schema.hasStandardConditions_of_parse hdocument hschema hown
  have hresolves := Validity.resolves_of_isValid hstandard htypes hvalid
  exact Document.compilesUnlessRefused (hresolves.prepared hstandard.isComposite_string options)
    htypes hdecided hvalid

end Typed

end

end QueryShape
