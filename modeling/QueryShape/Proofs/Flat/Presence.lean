import QueryShape.Proofs.Flat.Pieces

/-!
# Unconditional fields inside of others

A field inside of another one is shown as unconditional if the other one is selected at least once
with nothing between the two to depend on variables. That need not be the selection for which the
other one is present, so that an unconditional field can be missing inside of a field that is there.
-/

set_option autoImplicit false

namespace QueryShape.Flat

open Typed (SelectionSet Step)

/-- The node, whose type is given, shows the field at the path, which lists the last step first. -/
inductive Selection.ShowsAt (schema : Schema) (type : String) (node : Selection) :
    List Step → Field → Prop
  | field {step : Step} {field : Field} (htype : step.type ∈ schema.possibleTypes type)
      (hfield : node.fieldFor? step.type step.key = some field) :
      ShowsAt schema type node [step] field
  | nested {path : List Step} {outer field : Field} {inner : Selection} {step : Step}
      (houter : ShowsAt schema type node path outer) (hinner : outer.selection? = some inner)
      (htype : step.type ∈ schema.possibleTypes outer.head.type.innermost)
      (hfield : inner.fieldFor? step.type step.key = some field) :
      ShowsAt schema type node (step :: path) field

section

variable {schema : Schema} {options : Options} {document : Typed.Document} {type : String}
  {set : SelectionSet} {node : Selection} (hsound : document.IsSound schema)
  (hnames : document.HasNames) (hmerge : options.mergeSpreadFields = true)
include hsound hnames hmerge

theorem Selection.ShowsAt.exists_pieces (hnode : MadeOf schema options document type [set] node)
    {path : List Step} {outer : Field} (h : node.ShowsAt schema type path outer) {inner : Selection}
    (hinner : outer.selection? = some inner) :
    ∃ pieces, MadeOf schema options document outer.head.type.innermost pieces inner ∧
      ∀ piece, piece ∈ pieces ↔ ∃ origin, document.SelectsAt set path origin ∧
        origin.field.selectionSet = some piece := by
  -- The last step is into a node whose pieces are known by induction. The pieces inside are what
  -- these select there: the ways to a field are those to the one around it, one step further.
  induction h generalizing inner with
  | field htype hfield =>
    obtain ⟨pieces, hpieces, hmem⟩ := hnode.exists_inside hsound hnames htype hfield hinner
    refine ⟨pieces, hpieces, fun piece => (hmem piece).trans ?_⟩
    rw [hmerge]
    constructor
    · rintro ⟨_, hset, member, hselects, hpiece⟩
      obtain rfl := List.mem_singleton.mp hset
      exact ⟨member, .field hselects, hpiece⟩
    · rintro ⟨origin, horigin, hpiece⟩
      cases horigin with
      | field hselects => exact ⟨set, List.mem_cons_self, origin, hselects, hpiece⟩
      | nested hnone => cases hnone
  | nested hshown houter htype hfield ih =>
    obtain ⟨sets, hsets, hmemSets⟩ := ih houter
    obtain ⟨pieces, hpieces, hmem⟩ := hsets.exists_inside hsound hnames htype hfield hinner
    refine ⟨pieces, hpieces, fun piece => (hmem piece).trans ?_⟩
    rw [hmerge]
    constructor
    · rintro ⟨set, hset, member, hselects, hpiece⟩
      obtain ⟨origin, horigin, hinside⟩ := (hmemSets set).mp hset
      exact ⟨_, .nested horigin hinside hselects, hpiece⟩
    · rintro ⟨_, hselected, hpiece⟩
      cases hselected with
      | field => cases hshown
      | nested horigin hinside hselects =>
        exact ⟨_, (hmemSets _).mpr ⟨_, horigin, hinside⟩, _, hselects, hpiece⟩

theorem isConditional_nested_iff (hnode : MadeOf schema options document type [set] node)
    {path : List Step} {outer field : Field} {inner : Selection} {step : Step}
    (houter : node.ShowsAt schema type path outer) (hinner : outer.selection? = some inner)
    (htype : step.type ∈ schema.possibleTypes outer.head.type.innermost)
    (hfield : inner.fieldFor? step.type step.key = some field) :
    field.head.isConditional = false ↔
      ∃ origin, document.SelectsAt set path origin ∧ document.SelectsUnchecked origin step := by
  obtain ⟨pieces, hpieces, hmemPieces⟩ := houter.exists_pieces hsound hnames hmerge hnode hinner
  obtain ⟨members, hmembers, hmem⟩ := hpieces.exists_members hsound hnames htype hfield
  rw [hmerge] at hmem
  rw [← Bool.not_eq_true, hmembers.isConditional_iff hsound]
  push Not
  constructor
  · rintro ⟨member, hmember, hnil⟩
    obtain ⟨piece, hpiece, hselects⟩ := (hmem member).mp hmember
    obtain ⟨origin, horigin, hinside⟩ := (hmemPieces piece).mp hpiece
    exact ⟨origin, horigin, piece, member, hinside, hselects, hnil⟩
  · rintro ⟨origin, horigin, piece, member, hinside, hselects, hnil⟩
    have hpiece := (hmemPieces piece).mpr ⟨origin, horigin, hinside⟩
    exact ⟨member, (hmem member).mpr ⟨piece, hpiece, hselects⟩, hnil⟩

end

section

variable {schema : Schema} {compileOptions options : Options} {filePath : Option String}
  {source : Source.Document} {document : Typed.Document} {type : String} {set : SelectionSet}

/-- A field inside of another one is shown as unconditional if and only if one of the fields at the
path of the other one selects it without a check. It is included whenever the other one is, if and
only if this is so for each of these fields that do not. -/
def Selection.ShowsPresence (schema : Schema) (document : Typed.Document) (type : String)
    (set : SelectionSet) (node : Selection) : Prop :=
  ∀ path outer inner step field, node.ShowsAt schema type path outer →
    outer.selection? = some inner → step.type ∈ schema.possibleTypes outer.head.type.innermost →
    inner.fieldFor? step.type step.key = some field →
    (field.head.isConditional = false ↔
      ∃ origin, document.SelectsAt set path origin ∧ document.SelectsUnchecked origin step) ∧
    ((∀ values, document.Includes values set path →
        document.Includes values set (step :: path)) ↔
      ∀ origin, document.SelectsAt set path origin → ¬document.SelectsUnchecked origin step →
        ∀ values, (∀ check ∈ origin.checks, check.holds values = true) →
          document.Includes values set (step :: path))

theorem exists_showsPresence (hsound : document.IsSound schema) (hnames : document.HasNames)
    (hroot : document.HasRoot type set) (hmerge : options.mergeSpreadFields = true) :
    ∃ node, flatten options document set = .ok node ∧
      node.ShowsPresence schema document type set := by
  obtain ⟨node, hflatten⟩ := exists_flatten hsound.closed (fun _ => hsound.acyclic)
    ((Typed.Document.HasSet.root hroot).defines hsound.closed)
  refine ⟨node, hflatten, ?_⟩
  intro path outer inner step field houter hinner htype hfield
  have hnode := MadeOf.of_hasRoot hsound hroot hflatten
  exact ⟨isConditional_nested_iff hsound hnames hmerge hnode houter hinner htype hfield,
    Typed.Document.includes_cons_iff⟩

/-- Whatever selection set of an operation or fragment of a compiled document is flattened with
fragments merged in, its node shows when its fields are present. -/
theorem unconditional_iff_selected_unchecked
    (hcompile : Typed.Document.compile schema compileOptions filePath source = .ok document)
    (haliases : "" ∉ source.aliases) (hroot : document.HasRoot type set)
    (hmerge : options.mergeSpreadFields = true) :
    ∃ node, flatten options document set = .ok node ∧
      node.ShowsPresence schema document type set :=
  exists_showsPresence (Typed.Document.isSound_of_compile hcompile)
    (Typed.Document.hasNames_of_compile hcompile haliases) hroot hmerge

end

def titledWhen : List Source.Selection :=
  [.field none "animal" [] [] [.field none "name" [] [] []],
   .field none "animal" [] [⟨"include", [⟨"if", .var "c"⟩]⟩]
     [.field (some "title") "name" [] [] []]]

def titledWhenDocument : Source.Document where
  definitions :=
    [.operation
       { description := none
         kind := .query
         name := some "Q"
         variableDefinitions := [⟨none, "c", .nonNull (.named "Boolean"), none, []⟩]
         directives := []
         selections := titledWhen }]

theorem exists_shown_titledWhen :
    ∃ document, Typed.Document.compile Schema.animals {} none titledWhenDocument = .ok document ∧
      ∀ set, SelectionSet.ofSource Schema.animals (titledWhenDocument.prepared {}).fragmentType?
          "Query" titledWhen = .ok set →
        document.HasRoot "Query" set ∧ ∃ node outer inner field,
          flatten {} document set = .ok node ∧
          node.ShowsAt Schema.animals "Query" [⟨"Query", "animal"⟩] outer ∧
          outer.selection? = some inner ∧
          "Dog" ∈ Schema.animals.possibleTypes outer.head.type.innermost ∧
          inner.fieldFor? "Dog" "title" = some field ∧ field.head.isConditional = false := by
  obtain ⟨document, hcompile⟩ : ∃ document,
      Typed.Document.compile Schema.animals {} none titledWhenDocument = .ok document :=
    Outcome.exists_eq_ok (by decide +kernel)
  refine ⟨document, hcompile, fun set hset => ?_⟩
  obtain ⟨_, _, htyped⟩ := Typed.Document.isTyped_of_compile hcompile
  refine ⟨htyped.hasRoot_of_mem (List.mem_singleton.mpr rfl) rfl hset, ?_⟩
  have hvalues : ((Typed.Document.compile Schema.animals {} none titledWhenDocument).toOption.bind
      fun document => (SelectionSet.ofSource Schema.animals
          (titledWhenDocument.prepared {}).fragmentType? "Query" titledWhen).toOption.bind
        fun set => (flatten {} document set).toOption.bind
          fun node => (node.fieldFor? "Query" "animal").bind
            fun outer => outer.selection?.bind
              fun inner => (inner.fieldFor? "Dog" "title").map
                fun field => (outer.head.type.innermost, field.head.isConditional)) =
      some ("Animal", false) := by decide +kernel
  rw [hcompile, hset, Except.toOption, Option.bind_some, Except.toOption, Option.bind_some]
    at hvalues
  obtain ⟨node, hnode, hvalues⟩ := Option.bind_eq_some_iff.mp hvalues
  obtain ⟨outer, houter, hvalues⟩ := Option.bind_eq_some_iff.mp hvalues
  obtain ⟨inner, hinner, hvalues⟩ := Option.bind_eq_some_iff.mp hvalues
  obtain ⟨field, hfield, hvalues⟩ := Option.map_eq_some_iff.mp hvalues
  obtain ⟨htype, hconditional⟩ := Prod.mk.inj hvalues
  have hquery : "Query" ∈ Schema.animals.possibleTypes "Query" := by decide
  refine ⟨node, outer, inner, field, Outcome.toOption_eq_some.mp hnode, .field hquery houter,
    hinner, ?_, hfield, hconditional⟩
  rw [htype]
  decide

theorem unconditional_iff_selected_unchecked_titledWhen :
    ∃ document set, Typed.Document.compile Schema.animals {} none titledWhenDocument =
        .ok document ∧
      "" ∉ titledWhenDocument.aliases ∧ document.HasRoot "Query" set ∧
      ∃ node outer inner field, flatten {} document set = .ok node ∧
        node.ShowsAt Schema.animals "Query" [⟨"Query", "animal"⟩] outer ∧
        outer.selection? = some inner ∧
        "Dog" ∈ Schema.animals.possibleTypes outer.head.type.innermost ∧
        inner.fieldFor? "Dog" "title" = some field ∧
        (field.head.isConditional = false ↔ ∃ origin,
          document.SelectsAt set [⟨"Query", "animal"⟩] origin ∧
            document.SelectsUnchecked origin ⟨"Dog", "title"⟩) := by
  obtain ⟨document, hcompile, hall⟩ := exists_shown_titledWhen
  obtain ⟨hroot, node, outer, inner, field, hnode, houter, hinner, htype, hfield, _⟩ := hall _ rfl
  have haliases : "" ∉ titledWhenDocument.aliases := by decide
  have hmerge : ({} : Options).mergeSpreadFields = true := rfl
  obtain ⟨other, hother, hshown⟩ :=
    unconditional_iff_selected_unchecked hcompile haliases hroot hmerge
  obtain rfl := Except.ok.inj (hnode.symm.trans hother)
  exact ⟨document, _, hcompile, haliases, hroot, node, outer, inner, field, hnode, houter, hinner,
    htype, hfield, (hshown _ _ _ ⟨"Dog", "title"⟩ _ houter hinner htype hfield).1⟩

/-- Without the variable the animal is there, and the unconditional field is not. -/
theorem not_includes_titledWhen :
    ∃ document set, Typed.Document.compile Schema.animals {} none titledWhenDocument =
        .ok document ∧
      document.HasRoot "Query" set ∧
      ∃ node outer inner field, flatten {} document set = .ok node ∧
        node.ShowsAt Schema.animals "Query" [⟨"Query", "animal"⟩] outer ∧
        outer.selection? = some inner ∧
        "Dog" ∈ Schema.animals.possibleTypes outer.head.type.innermost ∧
        inner.fieldFor? "Dog" "title" = some field ∧ field.head.isConditional = false ∧
        document.Includes (fun _ => false) set [⟨"Query", "animal"⟩] ∧
        ¬document.Includes (fun _ => false) set [⟨"Dog", "title"⟩, ⟨"Query", "animal"⟩] := by
  obtain ⟨document, hcompile, hall⟩ := exists_shown_titledWhen
  obtain ⟨hroot, node, outer, inner, field, hnode, houter, hinner, htype, hfield, hconditional⟩ :=
    hall _ rfl
  refine ⟨document, _, hcompile, hroot, node, outer, inner, field, hnode, houter, hinner, htype,
    hfield, hconditional, ?_, ?_⟩
  -- One animal is selected without a check and without the title, the other one under a check.
  · exact ⟨_, .field ⟨_, .composite (.check (.composite .nil) .nil), List.mem_cons_self, by decide⟩,
      by simp⟩
  · rintro ⟨member, hselected, hholds⟩
    cases hselected with
    | nested horigin hinside hmember =>
      cases horigin with
      | field horigin =>
        obtain ⟨selected, hselects, hmem, _⟩ := horigin
        obtain rfl := hselects.unique (.composite (.check (.composite .nil) .nil))
        rcases List.mem_pair.mp hmem with rfl | rfl
        · obtain rfl := Option.some.inj hinside
          obtain ⟨inner, hinner, hmem, hkey⟩ := hmember
          obtain rfl := hinner.unique (.leaf .nil)
          obtain rfl := List.mem_singleton.mp hmem
          exact absurd hkey (by decide)
        · exact absurd (hholds ⟨"c", false⟩ (List.mem_append_left _ (by decide))) (by decide)
      | nested hnone => cases hnone

end QueryShape.Flat
