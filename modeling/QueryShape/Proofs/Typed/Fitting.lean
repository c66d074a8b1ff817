import QueryShape.Proofs.Typed.Compiled
import QueryShape.Proofs.Typed.Selected

/-!
# Selections that fit their sets

In a compiled document the fields of every selection set are fields of a type of which all types of
the set are possible types. A condition narrows the types to those that satisfy it, a check leaves
them as they are, a composite field has all possible types of its own type, and a fragment is spread
only where it applies to all types.
-/

set_option autoImplicit false

namespace QueryShape.Typed

/-- The selection sets that a document starts from, each with the type that it is on. -/
inductive Document.HasRoot (document : Document) : String → SelectionSet → Prop
  | operation {operation : Operation} (hmem : operation ∈ document.operations) :
      HasRoot document operation.rootType operation.selectionSet
  | fragment {fragment : Fragment} (hmem : fragment ∈ document.fragments) :
      HasRoot document fragment.type fragment.selectionSet

/-- The selection sets of a document, at every depth. -/
inductive Document.HasSet (document : Document) : SelectionSet → Prop
  | root {type : String} {set : SelectionSet} (hroot : document.HasRoot type set) :
      HasSet document set
  | inner {set inner : SelectionSet} {selection : Selection} (hset : HasSet document set)
      (hselection : selection ∈ set.selections) (hinner : selection.selectionSet? = some inner) :
      HasSet document inner

def Document.Composes (document : Document) (selections : List Selection) : Prop :=
  ∀ selection ∈ selections, ∃ set, document.HasSet set ∧ selection ∈ set.selections

/-- The field is one of a type of which all the given types are possible types. -/
def FieldHead.FitsOn (schema : Schema) (types : List String) (head : FieldHead) : Prop :=
  ∃ parent definition aliasName name arguments, schema.field? parent name = some definition ∧
    head = FieldHead.ofDefinition definition aliasName name arguments ∧
    ∀ type ∈ types, type ∈ schema.possibleTypes parent

section

variable (schema : Schema) (document : Document)

mutual

def Selection.Fits (types : List String) : Selection → Prop
  | .leaf head => head.FitsOn schema types ∧ schema.isComposite head.type.innermost = false
  | .composite head nestedTypes nested =>
    head.FitsOn schema types ∧ schema.isComposite head.type.innermost = true ∧
      nestedTypes = schema.possibleTypes head.type.innermost ∧ Selection.AllFit nestedTypes nested
  | .typeCondition condition narrowed inner =>
    narrowed = PossibleTypes.intersect types (schema.possibleTypes condition) ∧
      Selection.AllFit narrowed inner
  | .booleanCondition _ innerTypes inner => innerTypes = types ∧ Selection.AllFit types inner
  | .fragmentSpread name =>
    ∃ fragment, document.fragment? name = some fragment ∧
      ∀ type ∈ types, type ∈ fragment.selectionSet.possibleTypes

def Selection.AllFit (types : List String) : List Selection → Prop
  | [] => True
  | selection :: rest => Selection.Fits types selection ∧ Selection.AllFit types rest

end

/-- All selection sets of the document consist of selections that fit them. -/
def Document.FitsSchema : Prop :=
  ∀ set, document.HasSet set → Selection.AllFit schema document set.possibleTypes set.selections

end

/-- What can be relied on in a compiled document. -/
structure Document.IsSound (schema : Schema) (document : Document) : Prop where
  closed : document.IsClosed
  acyclic : document.IsAcyclic
  fits : document.FitsSchema schema
  roots : ∀ type set, document.HasRoot type set → set.possibleTypes = schema.possibleTypes type

namespace Selection

variable {schema : Schema} {document : Document} {types : List String}

theorem allFit_iff {selections : List Selection} :
    AllFit schema document types selections ↔
      ∀ selection ∈ selections, selection.Fits schema document types := by
  induction selections with
  | nil => simp [AllFit]
  | cons selection rest ih => simp [AllFit, ih]

theorem fits_under {checks : List Check} {selection : Selection}
    (h : selection.Fits schema document types) :
    (selection.under types checks).Fits schema document types := by
  induction checks generalizing selection with
  | nil => exact h
  | cons check rest ih => exact ih ⟨rfl, h, trivial⟩

theorem fits_spreadWithin {name fragmentType : String} {fragment : Fragment}
    (hfragment : document.fragment? name = some fragment)
    (hsame : fragment.selectionSet.possibleTypes = schema.possibleTypes fragmentType) :
    (spreadWithin schema types name fragmentType).Fits schema document types := by
  have hnarrowed : PossibleTypes.intersect types
      (PossibleTypes.intersect types (schema.possibleTypes fragmentType)) =
        PossibleTypes.intersect types (schema.possibleTypes fragmentType) :=
    PossibleTypes.intersect_intersect _ (PossibleTypes.intersect_self types)
  rw [spreadWithin]
  split
  · rename_i hlength
    have hall := (PossibleTypes.length_eq_iff hnarrowed).mp hlength
    refine ⟨fragment, hfragment, fun type htype => ?_⟩
    rw [hsame]
    exact (PossibleTypes.mem_intersect.mp (hall type htype)).2
  · refine ⟨rfl, ⟨fragment, hfragment, fun type htype => ?_⟩, trivial⟩
    rw [hsame]
    exact (PossibleTypes.mem_intersect.mp htype).2

theorem AllFit.inner {selections : List Selection} (h : AllFit schema document types selections)
    {selection : Selection} (hmem : selection ∈ selections) {inner : SelectionSet}
    (hinner : selection.selectionSet? = some inner) :
    AllFit schema document inner.possibleTypes inner.selections := by
  have hfits := allFit_iff.mp h selection hmem
  cases selection with
  | leaf head => cases hinner
  | composite head nestedTypes nested =>
    cases hinner
    exact hfits.2.2.2
  | typeCondition condition narrowed selections =>
    cases hinner
    exact hfits.2
  | booleanCondition check innerTypes selections =>
    cases hinner
    obtain ⟨rfl, hfits⟩ := hfits
    exact hfits
  | fragmentSpread name => cases hinner

end Selection

section

variable {schema : Schema} {filePath : Option String} {written : Source.Document}
  {document : Document}

theorem Typing.allFit
    (hfragments : ∀ name fragmentType, written.fragmentType? name = some fragmentType →
      ∃ fragment, document.fragment? name = some fragment ∧
        fragment.selectionSet.possibleTypes = schema.possibleTypes fragmentType)
    {parent : String} {types seen : List String} {selections : List Source.Selection}
    {typed : List Selection}
    (h : Typing schema written.fragmentType? parent types seen selections typed)
    (hparent : ∀ type ∈ types, type ∈ schema.possibleTypes parent) :
    Selection.AllFit schema document types typed := by
  induction h with
  | nil => trivial
  | excluded _ _ ih => exact ih hparent
  | repeated _ _ ih => exact ih hparent
  | leaf _ hdefinition hleaf _ ih =>
    refine ⟨Selection.fits_under ⟨?_, hleaf⟩, ih hparent⟩
    exact ⟨_, _, _, _, _, hdefinition, rfl, hparent⟩
  | composite _ hdefinition hcomposite _ _ ihInner ih =>
    refine ⟨Selection.fits_under ⟨?_, hcomposite, rfl, ihInner fun _ htype => htype⟩, ih hparent⟩
    exact ⟨_, _, _, _, _, hdefinition, rfl, hparent⟩
  | spread _ _ hfragment _ ih =>
    obtain ⟨fragment, hfound, hsame⟩ := hfragments _ _ hfragment
    exact ⟨Selection.fits_under (Selection.fits_spreadWithin hfound hsame), ih hparent⟩
  | inline _ _ _ ihInner ih =>
    refine ⟨Selection.fits_under ⟨rfl, ihInner fun type htype => ?_⟩, ih hparent⟩
    exact (PossibleTypes.mem_intersect.mp htype).2

namespace Document

theorem IsTyped.exists_fragment_of_type (h : IsTyped schema filePath written document)
    {name fragmentType : String} (hwritten : written.fragmentType? name = some fragmentType) :
    ∃ fragment, document.fragment? name = some fragment ∧
      fragment.selectionSet.possibleTypes = schema.possibleTypes fragmentType := by
  obtain ⟨original, horiginal, rfl⟩ := Option.map_eq_some_iff.mp hwritten
  obtain ⟨fragment, hfragment, htypes, _⟩ := h.typing_of_fragment? horiginal
  exact ⟨fragment, hfragment, htypes⟩

theorem IsTyped.typing_of_hasRoot (h : IsTyped schema filePath written document) {type : String}
    {set : SelectionSet} (hroot : document.HasRoot type set) :
    set.possibleTypes = schema.possibleTypes type ∧
      ∃ selections, Typing schema written.fragmentType? type (schema.possibleTypes type) []
        selections set.selections := by
  cases hroot with
  | operation hmem =>
    obtain ⟨original, _, hsource⟩ := Outcome.exists_of_mem_mapM h.operations hmem
    obtain ⟨_, _, root, _, set, hset, rfl⟩ := Operation.ofSource_eq_ok.mp hsource
    obtain ⟨htypes, htyping⟩ := typing_of_ofSource hset
    exact ⟨htypes, _, htyping⟩
  | fragment hmem =>
    obtain ⟨original, _, hsource⟩ := Outcome.exists_of_mem_mapM h.fragments hmem
    obtain ⟨set, hset, rfl⟩ := Fragment.ofSource_eq_ok.mp hsource
    obtain ⟨htypes, htyping⟩ := typing_of_ofSource hset
    exact ⟨htypes, _, htyping⟩

theorem IsTyped.hasRoot_of_mem (h : IsTyped schema filePath written document)
    {original : Source.Operation} (hmem : original ∈ written.operations) {root : String}
    (hroot : schema.rootType? original.kind = some root) {set : SelectionSet}
    (hset : SelectionSet.ofSource schema written.fragmentType? root original.selections = .ok set) :
    document.HasRoot root set := by
  obtain ⟨operation, hoperation, hsource⟩ := Outcome.exists_mem_of_mapM h.operations hmem
  obtain ⟨_, _, other, hother, otherSet, hotherSet, rfl⟩ := Operation.ofSource_eq_ok.mp hsource
  obtain rfl := Option.some.inj (hroot.symm.trans hother)
  obtain rfl := Except.ok.inj (hset.symm.trans hotherSet)
  exact .operation hoperation

theorem IsTyped.fitsSchema (h : IsTyped schema filePath written document) :
    document.FitsSchema schema := by
  intro set hset
  induction hset with
  | root hroot =>
    obtain ⟨htypes, _, htyping⟩ := h.typing_of_hasRoot hroot
    rw [htypes]
    exact htyping.allFit (fun _ _ => h.exists_fragment_of_type) fun _ htype => htype
  | inner _ hselection hinner ih => exact ih.inner hselection hinner

end Document

end

namespace Document

variable {schema : Schema} {document : Document}

section

variable {options : Options} {filePath : Option String} {source : Source.Document}

theorem isSound_of_compile (h : Document.compile schema options filePath source = .ok document) :
    document.IsSound schema := by
  obtain ⟨_, _, htyped⟩ := isTyped_of_compile h
  constructor
  · exact isClosed_of_compile h
  · exact isAcyclic_of_compile h
  · exact htyped.fitsSchema
  · exact fun _ _ hroot => (htyped.typing_of_hasRoot hroot).1

end

theorem hasSet_of_fragment? {name : String} {fragment : Fragment}
    (h : document.fragment? name = some fragment) : document.HasSet fragment.selectionSet :=
  .root (.fragment (mem_of_fragment? h).1)

theorem HasSet.descend {set inner : SelectionSet} (h : document.HasSet set) {path : List Nat}
    (hinner : set.descend? path = some inner) : document.HasSet inner := by
  induction path generalizing set with
  | nil =>
    obtain rfl := Option.some.inj hinner
    exact h
  | cons index rest ih =>
    obtain ⟨nested, hnested, hrest⟩ := Option.bind_eq_some_iff.mp hinner
    obtain ⟨selection, hselection, hnested⟩ := Option.bind_eq_some_iff.mp hnested
    exact ih (h.inner (List.mem_of_getElem? hselection) hnested) hrest

theorem HasSet.composes {set : SelectionSet} (h : document.HasSet set) :
    document.Composes set.selections :=
  fun _ hselection => ⟨set, h, hselection⟩

theorem HasSet.defines (hclosed : document.IsClosed) {set : SelectionSet}
    (h : document.HasSet set) : document.Defines set.selections := by
  induction h with
  | root hroot =>
    cases hroot with
    | operation hmem => exact hclosed.operation _ hmem
    | fragment hmem => exact hclosed.fragment _ hmem
  | @inner set inner selection _ hselection hinner ih =>
    have hdefined := defines_iff.mp ih selection hselection
    cases selection with
    | leaf head => cases hinner
    | composite | typeCondition | booleanCondition =>
      cases hinner
      exact hdefined
    | fragmentSpread name => cases hinner

theorem HasSet.heads_subset {set : SelectionSet} (h : document.HasSet set) :
    ∀ head ∈ Selection.allHeads set.selections, head ∈ document.heads := by
  induction h with
  | root hroot =>
    cases hroot with
    | operation hmem => exact mem_heads_of_operation hmem
    | fragment hmem => exact mem_heads_of_fragment hmem
  | @inner set inner selection _ hselection hinner ih =>
    have hheads : ∀ head ∈ selection.heads, head ∈ document.heads :=
      fun head hhead => ih head (Selection.mem_allHeads.mpr ⟨selection, hselection, hhead⟩)
    cases selection with
    | leaf head => cases hinner
    | composite head nestedTypes nested =>
      cases hinner
      exact fun head hhead => hheads head (List.mem_cons_of_mem _ hhead)
    | typeCondition | booleanCondition =>
      cases hinner
      exact hheads
    | fragmentSpread name => cases hinner

theorem HasSet.hasNames (hnames : document.HasNames) {set : SelectionSet}
    (h : document.HasSet set) : ∀ head ∈ Selection.allHeads set.selections, head.IsNamed :=
  fun head hhead => hnames.of_mem_heads head (h.heads_subset head hhead)

theorem head_mem_heads {field : Field}
    (h : ∃ set, document.HasSet set ∧ field.toSelection ∈ set.selections) :
    field.head ∈ document.heads := by
  obtain ⟨set, hset, hmem⟩ := h
  refine hset.heads_subset _ (Selection.mem_allHeads.mpr ⟨field.toSelection, hmem, ?_⟩)
  rw [Field.toSelection]
  cases field.selectionSet <;> exact List.mem_cons_self

theorem Composes.defines (hclosed : document.IsClosed) {selections : List Selection}
    (h : document.Composes selections) : document.Defines selections := by
  apply defines_iff.mpr
  intro selection hselection
  obtain ⟨set, hset, hmem⟩ := h selection hselection
  exact defines_iff.mp (hset.defines hclosed) selection hmem

theorem Composes.hasNames (hnames : document.HasNames) {selections : List Selection}
    (h : document.Composes selections) :
    ∀ head ∈ Selection.allHeads selections, head.IsNamed := by
  intro head hhead
  obtain ⟨selection, hselection, hhead⟩ := Selection.mem_allHeads.mp hhead
  obtain ⟨set, hset, hmem⟩ := h selection hselection
  exact hset.hasNames hnames head (Selection.mem_allHeads.mpr ⟨selection, hmem, hhead⟩)

theorem Selects.composes {follow : Bool} {type : String} {checks : List Check}
    {types : List String} {selections : List Selection} {selected : List Selected}
    (h : document.Selects follow type checks types selections selected)
    (hcomposes : document.Composes selections) {member : Selected} (hmember : member ∈ selected) :
    ∃ set, document.HasSet set ∧ member.field.toSelection ∈ set.selections := by
  refine h.inherits (fun selection => ∃ set, document.HasSet set ∧ selection ∈ set.selections)
    ?_ ?_ ?_ hcomposes member hmember
  · rintro condition narrowed inner ⟨set, hset, hmem⟩ selection hselection
    exact ⟨_, hset.inner hmem rfl, hselection⟩
  · rintro check types inner ⟨set, hset, hmem⟩ selection hselection
    exact ⟨_, hset.inner hmem rfl, hselection⟩
  · rintro _ name fragment hfragment _ selection hselection
    exact ⟨_, hasSet_of_fragment? hfragment, hselection⟩

theorem Selects.exists_fitsOn (hfits : document.FitsSchema schema) {follow : Bool} {type : String}
    {checks : List Check} {types recorded : List String} {selections : List Selection}
    {selected : List Selected}
    (h : document.Selects follow type checks recorded selections selected)
    (hfit : Selection.AllFit schema document types selections) (htype : type ∈ types) :
    ∀ member ∈ selected, ∃ others, type ∈ others ∧ member.field.head.FitsOn schema others := by
  induction h generalizing types with
  | nil => simp
  | leaf _ ih =>
    obtain ⟨⟨hhead, _⟩, hrest⟩ := hfit
    exact List.forall_mem_cons.mpr ⟨⟨types, htype, hhead⟩, ih hrest htype⟩
  | composite _ ih =>
    obtain ⟨⟨hhead, _⟩, hrest⟩ := hfit
    exact List.forall_mem_cons.mpr ⟨⟨types, htype, hhead⟩, ih hrest htype⟩
  | satisfied hin _ _ ihInner ih =>
    obtain ⟨⟨_, hinner⟩, hrest⟩ := hfit
    exact List.forall_mem_append.mpr ⟨ihInner hinner hin, ih hrest htype⟩
  | unsatisfied _ _ ih => exact ih hfit.2 htype
  | check _ _ ihInner ih =>
    obtain ⟨⟨_, hinner⟩, hrest⟩ := hfit
    exact List.forall_mem_append.mpr ⟨ihInner hinner htype, ih hrest htype⟩
  | followed _ hfragment _ happlies _ _ ihInner ih =>
    have hinner := hfits _ (hasSet_of_fragment? hfragment)
    exact List.forall_mem_append.mpr ⟨ihInner hinner happlies, ih hfit.2 htype⟩
  | passed _ _ ih => exact ih hfit.2 htype

theorem exists_fitsOn (hfits : document.FitsSchema schema) {field : Field}
    (h : ∃ set, document.HasSet set ∧ field.toSelection ∈ set.selections) :
    ∃ types, field.head.FitsOn schema types := by
  obtain ⟨set, hset, hmem⟩ := h
  have hfield := Selection.allFit_iff.mp (hfits set hset) _ hmem
  rw [Field.toSelection] at hfield
  cases hnested : field.selectionSet with
  | none =>
    rw [hnested] at hfield
    exact ⟨_, hfield.1⟩
  | some nested =>
    rw [hnested] at hfield
    exact ⟨_, hfield.1⟩

theorem IsSound.hasSet_of_field (hsound : document.IsSound schema) {field : Field}
    (h : ∃ set, document.HasSet set ∧ field.toSelection ∈ set.selections) {nested : SelectionSet}
    (hnested : field.selectionSet = some nested) :
    document.HasSet nested ∧
      nested.possibleTypes = schema.possibleTypes field.head.type.innermost := by
  obtain ⟨set, hset, hmem⟩ := h
  rw [Field.toSelection, hnested] at hmem
  have hfits := Selection.allFit_iff.mp (hsound.fits set hset) _ hmem
  exact ⟨hset.inner hmem rfl, hfits.2.2.1⟩

end Document

end QueryShape.Typed
