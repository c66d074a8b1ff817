import QueryShape.Proofs.Flat.Documents
import QueryShape.Proofs.Typed.KeptSpreads

/-!
# Sources with fragments

The source with fragments that identifies an operation is its printed form followed by those of
fragments that it reaches, each once. These are the fragments that are reached through spreads that
typing keeps, so that fragments are missing that are spread in the text only where a literal
excludes the spread.
-/

set_option autoImplicit false

namespace QueryShape.Flat

/-- The text is the operation followed by distinct fragments that it reaches. -/
structure IsTextOf (written : Source.Document) (operation : Source.Operation)
    (fragments : List Source.Fragment) (text : String) : Prop where
  text_eq : text = "\n".intercalate (operation.print :: fragments.map (·.print))
  defined : ∀ fragment ∈ fragments, written.fragment? fragment.name = some fragment
  nodup : (fragments.map (·.name)).Nodup
  reached : ∀ fragment ∈ fragments,
    fragment.name ∈ Validity.reachedFrom written operation.selections

/-- The text is the operation and those fragments that it keeps, all of which it reaches. These are
all that it reaches if and only if it keeps whatever it reaches. -/
def IsKeptText (written : Source.Document) (operation : Source.Operation) (text : String) : Prop :=
  ∃ fragments : List Source.Fragment, IsTextOf written operation fragments text ∧
    (∀ name, name ∈ fragments.map (·.name) ↔ written.Keeps operation.selections name) ∧
    ((∀ name ∈ Validity.reachedFrom written operation.selections,
        name ∈ fragments.map (·.name)) ↔
      ∀ name ∈ Validity.reachedFrom written operation.selections,
        written.Keeps operation.selections name)

section

variable {options : Options} {typed : Typed.Document} (hclosed : typed.IsClosed)
  (hacyclic : typed.IsAcyclic)
include hclosed hacyclic

theorem exists_ofTyped_operation {operation : Typed.Operation}
    (hmem : operation ∈ typed.operations) :
    ∃ flat fragments, Operation.ofTyped options typed operation = .ok flat ∧
      (typed.reachableNames operation.selectionSet).mapM typed.requireFragment = .ok fragments ∧
      flat.sourceWithFragments =
        "\n".intercalate (operation.source :: fragments.map (·.source)) :=
  exists_operation_ofTyped hclosed (fun _ => hacyclic) (hclosed.operation operation hmem)

theorem exists_ofTyped_document : ∃ flat, Document.ofTyped options typed = .ok flat :=
  exists_document_ofTyped hclosed fun _ => hacyclic

end

section

variable {schema : Schema} {options compileOptions : Options} {filePath : Option String}
  {source : Source.Document} {typed : Typed.Document}

theorem operations_of_ofTyped {flat : Document} (h : Document.ofTyped options typed = .ok flat) :
    typed.operations.mapM (Operation.ofTyped options typed) = .ok flat.operations := by
  simp only [Document.ofTyped, Outcome.bind_eq_ok, Outcome.pure_eq_ok] at h
  obtain ⟨operations, hoperations, _, _, rfl⟩ := h
  exact hoperations

theorem exists_forall₂_isKeptText
    (hcompile : Typed.Document.compile schema compileOptions filePath source = .ok typed)
    (hleaves : (source.prepared compileOptions).EndsAtLeaves schema) :
    ∃ flat, Document.ofTyped options typed = .ok flat ∧
      List.Forall₂ (fun original operation =>
          IsKeptText (source.prepared compileOptions) original operation.sourceWithFragments)
        (source.prepared compileOptions).operations flat.operations := by
  obtain ⟨_, _, htyped⟩ := Typed.Document.isTyped_of_compile hcompile
  have hclosed := Typed.Document.isClosed_of_compile hcompile
  have hacyclic := Typed.Document.isAcyclic_of_compile hcompile
  obtain ⟨flat, hflat⟩ : ∃ flat, Document.ofTyped options typed = .ok flat :=
    exists_ofTyped_document hclosed hacyclic
  refine ⟨flat, hflat, ?_⟩
  refine (Outcome.forall₂_of_mapM_mapM htyped.operations (operations_of_ofTyped hflat)).imp ?_
  rintro original operation ⟨horiginal, middle, hmiddle, hoperation⟩
  obtain ⟨other, hother, hsame⟩ := Outcome.exists_mem_of_mapM htyped.operations horiginal
  obtain rfl := Except.ok.inj (hsame.symm.trans hmiddle)
  obtain ⟨flatOperation, fragments, hflatOperation, hfragments, htext⟩ :=
    exists_ofTyped_operation hclosed hacyclic hother
  obtain rfl := Except.ok.inj (hflatOperation.symm.trans hoperation)
  obtain ⟨originals, hnames, hwritten, hprinted⟩ := htyped.exists_written hfragments
  obtain ⟨_, _, root, hroot, set, hset, rfl⟩ := Typed.Operation.ofSource_eq_ok.mp hmiddle
  have hkeeps : ∀ name, name ∈ originals.map (·.name) ↔
      (source.prepared compileOptions).Keeps original.selections name := by
    intro name
    rw [hnames]
    exact htyped.mem_reachableNames_iff_keeps hleaves hset
      (hleaves.operation original horiginal root hroot)
  refine ⟨originals, ?_, hkeeps, ?_⟩
  · constructor
    · rw [htext, hprinted]
    · exact hwritten
    · rw [hnames]
      exact Typed.Document.nodup_reachableNames _
    · intro fragment hfragment
      exact ((hkeeps _).mp (List.mem_map_of_mem hfragment)).mem_reachedFrom
  · simp only [hkeeps]

/-- A compiled document can be flattened, and the source with fragments of each operation holds the
fragments that it keeps. -/
theorem text_complete_iff_keeps (houtput : schema.hasOutputTypes = true)
    (hcompile : Typed.Document.compile schema compileOptions filePath source = .ok typed) :
    ∃ flat, Document.ofTyped options typed = .ok flat ∧
      List.Forall₂ (fun original operation =>
          IsKeptText (source.prepared compileOptions) original operation.sourceWithFragments)
        (source.prepared compileOptions).operations flat.operations := by
  obtain ⟨htypes, hvalid, _⟩ := Typed.Document.isTyped_of_compile hcompile
  exact exists_forall₂_isKeptText hcompile
    ((Validity.endsAtLeaves_of_isValid houtput htypes hvalid).prepared compileOptions)

end

def excludedSpread : Source.Document where
  definitions :=
    [.operation
       { description := none
         kind := .query
         name := some "Q"
         variableDefinitions := []
         directives := []
         selections :=
           [.field none "b" [] [] [],
            .fragmentSpread "F" [⟨"skip", [⟨"if", .boolean true⟩]⟩]] },
     .fragment ⟨none, "F", "Query", [], [.field none "a" [] [] []]⟩]

theorem exists_compile_excludedSpread :
    ∃ typed, Typed.Document.compile Schema.twoFields {} none excludedSpread = .ok typed :=
  Outcome.exists_eq_ok (by decide +kernel)

theorem text_complete_iff_keeps_excludedSpread :
    ∃ typed flat, Typed.Document.compile Schema.twoFields {} none excludedSpread = .ok typed ∧
      Schema.twoFields.hasOutputTypes = true ∧ Document.ofTyped {} typed = .ok flat ∧
      ∃ original ∈ (excludedSpread.prepared {}).operations, ∃ operation ∈ flat.operations,
        ∃ fragments, IsTextOf (excludedSpread.prepared {}) original fragments
            operation.sourceWithFragments ∧
          ∀ name, name ∈ fragments.map (·.name) ↔
            (excludedSpread.prepared {}).Keeps original.selections name := by
  obtain ⟨typed, hcompile⟩ := exists_compile_excludedSpread
  have houtput : Schema.twoFields.hasOutputTypes = true := by decide
  obtain ⟨flat, hflat, hall⟩ := text_complete_iff_keeps houtput hcompile
  refine ⟨typed, flat, hcompile, houtput, hflat, ?_⟩
  have hoperations : (excludedSpread.prepared {}).operations = [_] := rfl
  rw [hoperations] at hall ⊢
  generalize flat.operations = operations at hall
  cases hall with
  | cons hfirst _ =>
    obtain ⟨fragments, htext, hkeeps, _⟩ := hfirst
    exact ⟨_, List.mem_cons_self, _, List.mem_cons_self, fragments, htext, hkeeps⟩

/-- The fragment is reached but not kept, so that it is missing from the text. -/
theorem not_text_complete_excludedSpread :
    ∃ typed flat, Typed.Document.compile Schema.twoFields {} none excludedSpread = .ok typed ∧
      Document.ofTyped {} typed = .ok flat ∧
      flat.operations.map (·.sourceWithFragments) =
        ["query Q \x7b\n  b\n  ...F @skip(if: true)\n\x7d"] ∧
      ∀ original ∈ (excludedSpread.prepared {}).operations,
        "F" ∈ Validity.reachedFrom (excludedSpread.prepared {}) original.selections := by
  obtain ⟨typed, hcompile⟩ := exists_compile_excludedSpread
  obtain ⟨flat, hflat⟩ : ∃ flat, Document.ofTyped {} typed = .ok flat :=
    exists_ofTyped_document (Typed.Document.isClosed_of_compile hcompile)
      (Typed.Document.isAcyclic_of_compile hcompile)
  have htexts : ((Typed.Document.compile Schema.twoFields {} none excludedSpread).toOption.bind
      fun typed => (Document.ofTyped {} typed).toOption.map
        fun flat => flat.operations.map (·.sourceWithFragments)) =
      some ["query Q \x7b\n  b\n  ...F @skip(if: true)\n\x7d"] := by decide +kernel
  rw [hcompile] at htexts
  simp only [Except.toOption, Option.bind_some, hflat, Option.map_some] at htexts
  refine ⟨typed, flat, hcompile, hflat, Option.some.inj htexts, ?_⟩
  decide +kernel

end QueryShape.Flat
