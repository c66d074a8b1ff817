import QueryShape.Proofs.Schema.OutputTypes
import QueryShape.Proofs.Source.SelectionSets
import QueryShape.Proofs.Typed.Typename

/-!
# Types used are a closure

The types that a document uses are registered one after another: one that is known or that nobody
has to declare adds nothing, any other one is added, and after it, if it is an input object, the
types of its fields. This ends however input objects refer to each other, and what has been
registered at the end is closed: it has the declared types of the fields of all its input objects.
-/

set_option autoImplicit false

namespace QueryShape.Schema

def colors : Schema :=
  .ofTypes
    [⟨"Query", .object []
      [{ Introspection.plain "color" (.named "Color") with
         arguments := [inputValue "range" (.named "Range")] }]⟩,
     ⟨"Range", .inputObject [inputValue "within" (.named "Filter")] false⟩,
     ⟨"Filter", .inputObject
       [inputValue "limit" (.named "Int"), inputValue "ranges" (.list (.named "Range")),
        inputValue "tag" (.named "Tag")] false⟩,
     ⟨"Color", .enum ["RED", "BLUE"]⟩,
     ⟨"Tag", .scalar⟩,
     ⟨"Unused", .enum ["NEVER"]⟩]
where
  inputValue (name : String) (type : TypeRef) : InputValue := ⟨name, type, none, none⟩

end QueryShape.Schema

namespace QueryShape.Typed

def inputFields (schema : Schema) (name : String) : List String :=
  ((schema.body? name).map (·.inputFields)).getD [] |>.map (·.type.innermost)

/-- Registering types after those used so far, without a bound. -/
inductive Registers (schema : Schema) : List String → List String → List String → Prop
  | nil {used : List String} : Registers schema [] used used
  | skipped {name : String} {rest used result : List String}
      (hskip : name ∈ used ∨ schema.isDeclared name = false)
      (hrest : Registers schema rest used result) : Registers schema (name :: rest) used result
  | added {name : String} {rest used between result : List String} (hnew : name ∉ used)
      (hdeclared : schema.isDeclared name = true)
      (hfields : Registers schema (inputFields schema name) (used ++ [name]) between)
      (hrest : Registers schema rest between result) : Registers schema (name :: rest) used result

section

variable {schema : Schema}

theorem inputFieldTypes_eq_filter (name : String) :
    inputFieldTypes schema name = (inputFields schema name).filter schema.isDeclared := by
  rw [inputFieldTypes, inputFields]
  cases schema.body? name with
  | none => rfl
  | some body => cases body <;> rfl

theorem mem_inputFieldTypes {name next : String} :
    next ∈ inputFieldTypes schema name ↔ ∃ fields isOneOf,
      schema.body? name = some (.inputObject fields isOneOf) ∧
        ∃ field ∈ fields, field.type.innermost = next ∧ schema.isDeclared next = true := by
  rw [inputFieldTypes]
  constructor
  · intro h
    split at h
    · rename_i fields isOneOf hbody
      obtain ⟨hmem, hdeclared⟩ := List.mem_filter.mp h
      obtain ⟨field, hfield, rfl⟩ := List.mem_map.mp hmem
      exact ⟨fields, isOneOf, hbody, field, hfield, rfl, hdeclared⟩
    · cases h
  · rintro ⟨fields, isOneOf, hbody, field, hfield, rfl, hdeclared⟩
    simp only [hbody]
    exact List.mem_filter.mpr ⟨List.mem_map.mpr ⟨field, hfield, rfl⟩, hdeclared⟩

theorem mem_types_of_inputFieldTypes {name : String} (h : inputFieldTypes schema name ≠ []) :
    name ∈ schema.types.map (·.name) := by
  obtain ⟨next, hnext⟩ := List.exists_mem_of_ne_nil _ h
  obtain ⟨fields, isOneOf, hbody, _⟩ := mem_inputFieldTypes.mp hnext
  obtain ⟨type, htype, _⟩ := Option.map_eq_some_iff.mp hbody
  have hname : type.name = name := by simpa using List.find?_some htype
  exact List.mem_map.mpr ⟨type, List.mem_of_find?_eq_some htype, hname⟩

namespace Registers

variable {names used result : List String}

theorem unique {other : List String} (h : Registers schema names used result)
    (hother : Registers schema names used other) : result = other := by
  induction h generalizing other with
  | nil =>
    cases hother
    rfl
  | skipped hskip _ ih =>
    cases hother with
    | skipped _ hrest => exact ih hrest
    | added hnew hdeclared _ _ => simp [hnew, hdeclared] at hskip
  | added hnew hdeclared _ _ ihFields ih =>
    cases hother with
    | skipped hskip _ => simp [hnew, hdeclared] at hskip
    | added _ _ hfields hrest =>
      obtain rfl := ihFields hfields
      exact ih hrest

theorem of_undeclared (h : names.filter schema.isDeclared = []) :
    Registers schema names used used := by
  induction names with
  | nil => exact .nil
  | cons name rest ih =>
    obtain ⟨hname, hrest⟩ := List.forall_mem_cons.mp (List.filter_eq_nil_iff.mp h)
    exact .skipped (Or.inr (by simpa using hname)) (ih (List.filter_eq_nil_iff.mpr hrest))

/-- A walk through the input objects registers the types, if its bound is at least the number of
types that are not used yet. -/
theorem foldl_visit {bound : Nat}
    (hbound : (Walk.pending (schema.types.map (·.name)) used).length ≤ bound) :
    Registers schema names used ((names.filter schema.isDeclared).foldl
      (Walk.visit (inputFieldTypes schema) bound) used) := by
  induction bound using Nat.strong_induction_on generalizing names used with
  | _ bound ihBound =>
    induction names generalizing used with
    | nil => exact .nil
    | cons name rest ih =>
      cases hdeclared : schema.isDeclared name with
      | false =>
        rw [List.filter_cons_of_neg (by rw [hdeclared]; exact Bool.false_ne_true)]
        exact .skipped (Or.inr hdeclared) (ih hbound)
      | true =>
        rw [List.filter_cons_of_pos hdeclared, List.foldl_cons]
        have hgrown : (Walk.pending (schema.types.map (·.name))
            (Walk.visit (inputFieldTypes schema) bound used name)).length ≤ bound :=
          (Walk.length_pending_le fun _ => Walk.mem_visit_of_mem _ bound used name).trans hbound
        have hrest := ih hgrown
        by_cases hmem : name ∈ used
        · rw [Walk.visit_of_mem hmem] at hrest ⊢
          exact .skipped (Or.inl hmem) hrest
        by_cases hleaf : inputFieldTypes schema name = []
        · have hfields : Registers schema (inputFields schema name) (used ++ [name])
              (used ++ [name]) := of_undeclared (inputFieldTypes_eq_filter name ▸ hleaf)
          rw [Walk.visit_of_leaf hmem hleaf] at hrest ⊢
          exact .added hmem hdeclared hfields hrest
        -- The input object is used from here on, so that one type less is pending in its fields.
        have hlength := Walk.length_pending_lt (mem_types_of_inputFieldTypes hleaf) hmem
        obtain ⟨lesser, rfl⟩ : ∃ lesser, bound = lesser + 1 :=
          Nat.exists_eq_add_one.mpr (by omega)
        rw [Walk.visit, if_neg hmem, inputFieldTypes_eq_filter] at hrest ⊢
        exact .added hmem hdeclared (ihBound lesser (Nat.lt_succ_self lesser) (by omega)) hrest

theorem of_mentionedTypes (schema : Schema) (document : Source.Document) :
    Registers schema (mentionedTypes schema document) [] (usedTypes schema document) := by
  apply foldl_visit
  calc
    (Walk.pending (schema.types.map (·.name)) []).length ≤ (schema.types.map (·.name)).length :=
      List.length_filter_le _ _
    _ = schema.types.length := List.length_map _

end Registers

theorem allFieldTypes_eq_flatMap (parent : String) (selections : List Source.Selection) :
    allFieldTypes schema parent selections = selections.flatMap (fieldTypes schema parent) := by
  induction selections with
  | nil => rfl
  | cons selection rest ih => rw [allFieldTypes, ih, List.flatMap_cons]

variable {document : Source.Document}

theorem mem_mentionedTypes_of_hasSelections {parent : String} {selections : List Source.Selection}
    (h : document.HasSelections schema parent selections) :
    ∀ type ∈ allFieldTypes schema parent selections, type ∈ mentionedTypes schema document := by
  induction h with
  | @operation operation root hoperation hroot =>
    intro type htype
    refine List.mem_append_right _ (List.mem_flatMap.mpr ⟨operation, hoperation, ?_⟩)
    rw [operationTypes, hroot]
    exact List.mem_append_right _ htype
  | fragment hfragment =>
    exact fun type htype => List.mem_append_left _ (List.mem_flatMap.mpr ⟨_, hfragment, htype⟩)
  | field _ hfield hdefinition hcomposite ih =>
    intro type htype
    apply ih
    rw [allFieldTypes_eq_flatMap]
    refine List.mem_flatMap.mpr ⟨_, hfield, ?_⟩
    simp only [fieldTypes, hdefinition, hcomposite, if_true]
    exact List.mem_cons_of_mem _ htype
  | inlineFragment _ hinline ih =>
    intro type htype
    apply ih
    rw [allFieldTypes_eq_flatMap]
    exact List.mem_flatMap.mpr ⟨_, hinline, htype⟩

theorem mentions_of_mem_allFieldTypes {parent : String} {whole selections : List Source.Selection}
    (hwhole : document.HasSelections schema parent whole)
    (hsub : ∀ selection ∈ selections, selection ∈ whole) :
    ∀ type ∈ allFieldTypes schema parent selections, document.Mentions schema type := by
  induction selections using Source.Selection.listInduction generalizing parent whole with
  | nil => exact fun _ htype => absurd htype List.not_mem_nil
  | field aliasName name arguments directives inner rest ihInner ih =>
    obtain ⟨hfield, hrest⟩ := List.forall_mem_cons.mp hsub
    rw [allFieldTypes, List.forall_mem_append]
    refine ⟨?_, ih hwhole hrest⟩
    rw [fieldTypes]
    cases hdefinition : schema.field? parent name with
    | none => exact fun _ htype => absurd htype List.not_mem_nil
    | some definition =>
      refine List.forall_mem_cons.mpr ⟨.fieldType hwhole hfield hdefinition, ?_⟩
      split
      · rename_i hcomposite
        exact ihInner (.field hwhole hfield hdefinition hcomposite) fun _ => id
      · exact fun _ htype => absurd htype List.not_mem_nil
  | fragmentSpread name directives rest ih => exact ih hwhole (List.forall_mem_cons.mp hsub).2
  | inlineFragment condition directives inner rest ihInner ih =>
    obtain ⟨hinline, hrest⟩ := List.forall_mem_cons.mp hsub
    rw [allFieldTypes, List.forall_mem_append, fieldTypes]
    exact ⟨ihInner (.inlineFragment hwhole hinline) fun _ => id, ih hwhole hrest⟩

theorem mem_mentionedTypes {type : String} :
    type ∈ mentionedTypes schema document ↔ document.Mentions schema type := by
  constructor
  · intro h
    rcases List.mem_append.mp h with h | h
    · obtain ⟨fragment, hfragment, htype⟩ := List.mem_flatMap.mp h
      exact mentions_of_mem_allFieldTypes (.fragment hfragment) (fun _ => id) type htype
    · obtain ⟨operation, hoperation, htype⟩ := List.mem_flatMap.mp h
      rcases List.mem_append.mp htype with htype | htype
      · obtain ⟨definition, hdefinition, rfl⟩ := List.mem_map.mp htype
        exact .variableType hoperation hdefinition
      · split at htype
        · cases htype
        · rename_i root hroot
          exact mentions_of_mem_allFieldTypes (.operation hoperation hroot) (fun _ => id) type htype
  · intro hmentions
    cases hmentions with
    | @variableType operation definition hoperation hdefinition =>
      refine List.mem_append_right _ (List.mem_flatMap.mpr ⟨operation, hoperation, ?_⟩)
      exact List.mem_append_left _ (List.mem_map.mpr ⟨definition, hdefinition, rfl⟩)
    | fieldType hselections hfield hdefinition =>
      apply mem_mentionedTypes_of_hasSelections hselections
      rw [allFieldTypes_eq_flatMap]
      refine List.mem_flatMap.mpr ⟨_, hfield, ?_⟩
      simp only [fieldTypes, hdefinition]
      exact List.mem_cons_self

theorem mem_usedTypes {name : String} :
    name ∈ usedTypes schema document ↔ document.Uses schema name := by
  have hnodes : ∀ name, inputFieldTypes schema name ≠ [] → name ∈ schema.types.map (·.name) :=
    fun _ => mem_types_of_inputFieldTypes
  refine (Walk.mem_fromAll hnodes (List.length_map _).le).trans ?_
  constructor
  · rintro ⟨start, hstart, hreaches⟩
    induction hreaches with
    | refl =>
      obtain ⟨hmentioned, hdeclared⟩ := List.mem_filter.mp hstart
      exact .mentioned (mem_mentionedTypes.mp hmentioned) hdeclared
    | tail _ hstep ih =>
      obtain ⟨fields, isOneOf, hbody, field, hfield, rfl, hdeclared⟩ := mem_inputFieldTypes.mp hstep
      exact .inputField ih hbody hfield hdeclared
  · intro huses
    induction huses with
    | mentioned hmentions hdeclared =>
      exact ⟨_, List.mem_filter.mpr ⟨mem_mentionedTypes.mpr hmentions, hdeclared⟩, .refl⟩
    | inputField _ hbody hfield hdeclared ih =>
      obtain ⟨start, hstart, hreaches⟩ := ih
      exact ⟨start, hstart, hreaches.tail
        (mem_inputFieldTypes.mpr ⟨_, _, hbody, _, hfield, rfl, hdeclared⟩)⟩

end

namespace Document

variable {schema : Schema} {options : Options} {filePath : Option String}
  {source : Source.Document}

theorem typesUsed_of_compile {document : Document}
    (h : compile schema options filePath source = .ok document) :
    document.typesUsed = usedTypes schema (source.prepared options) := by
  simp only [compile, Outcome.guard_eq_ok, Outcome.mapError_eq_ok] at h
  obtain ⟨_, _, _, htyped⟩ := h
  simp only [ofSource, Outcome.bind_eq_ok, Outcome.pure_eq_ok] at htyped
  obtain ⟨_, _, _, _, rfl⟩ := htyped
  rfl

theorem usedTypes_prepared (hstring : schema.body? "String" = some .scalar) :
    usedTypes schema (source.prepared options) = usedTypes schema source := by
  rw [Source.Document.prepared]
  split
  · exact usedTypes_addTypename (Schema.isDeclared_of_scalar hstring (by decide)) source
  · rfl

/-- Whatever the schema and the document, registering the types that the document mentions ends, and
in one way. If the document compiles, this gives the types used by what has been compiled: each
once, those and only those that the document uses, so that with every input object there are the
declared types of all its fields. -/
theorem typesUsed_eq_closure (schema : Schema) (options : Options) (filePath : Option String)
    (source : Source.Document) :
    (∀ result, Registers schema (mentionedTypes schema (source.prepared options)) [] result ↔
      result = usedTypes schema (source.prepared options)) ∧
    ∀ document, compile schema options filePath source = .ok document →
      document.typesUsed = usedTypes schema (source.prepared options) ∧
      document.typesUsed.Nodup ∧
      (∀ name, name ∈ document.typesUsed ↔ (source.prepared options).Uses schema name) ∧
      (schema.body? "String" = some .scalar →
        ∀ name, name ∈ document.typesUsed ↔ source.Uses schema name) ∧
      ∀ name ∈ document.typesUsed, ∀ fields isOneOf,
        schema.body? name = some (.inputObject fields isOneOf) →
          ∀ field ∈ fields, schema.isDeclared field.type.innermost = true →
            field.type.innermost ∈ document.typesUsed := by
  refine ⟨fun result => ⟨fun hresult => hresult.unique (.of_mentionedTypes schema _), ?_⟩,
    fun document hcompile => ?_⟩
  · rintro rfl
    exact .of_mentionedTypes schema _
  · have htypes := typesUsed_of_compile hcompile
    rw [htypes]
    refine ⟨rfl, Walk.nodup_fromAll _ _ _, fun _ => mem_usedTypes, fun hstring name => ?_, ?_⟩
    · rw [usedTypes_prepared hstring, mem_usedTypes]
    · intro name hname fields isOneOf hbody field hfield hdeclared
      exact mem_usedTypes.mpr (.inputField (mem_usedTypes.mp hname) hbody hfield hdeclared)

def excludedColor : Source.Document where
  definitions :=
    [.operation
       { description := none
         kind := .query
         name := some "Q"
         variableDefinitions := [⟨none, "range", .named "Range", none, []⟩]
         directives := []
         selections := [.field none "color" [⟨"range", .var "range"⟩]
           [⟨"skip", [⟨"if", .boolean true⟩]⟩] []] }]

theorem typesUsed_eq_closure_excludedColor :
    ∃ document, compile Schema.colors { addTypename := true } none excludedColor = .ok document ∧
      document.typesUsed = ["Range", "Filter", "Tag", "Color"] ∧
      (∀ name, name ∈ document.typesUsed ↔ excludedColor.Uses Schema.colors name) ∧
      Registers Schema.colors (mentionedTypes Schema.colors excludedColor.addTypename) []
        ["Range", "Filter", "Tag", "Color"] := by
  have hclosure :=
    typesUsed_eq_closure Schema.colors { addTypename := true } none excludedColor
  obtain ⟨hregisters, hcompiled⟩ := hclosure
  obtain ⟨document, hcompile⟩ : ∃ document,
      compile Schema.colors { addTypename := true } none excludedColor = .ok document :=
    Outcome.exists_eq_ok (by decide +kernel)
  have hvalue : (compile Schema.colors { addTypename := true } none excludedColor).toOption.map
      (·.typesUsed) = some ["Range", "Filter", "Tag", "Color"] := by decide +kernel
  rw [hcompile] at hvalue
  have htypes := Option.some.inj hvalue
  obtain ⟨hused, _, _, hiff, _⟩ := hcompiled document hcompile
  exact ⟨document, hcompile, htypes, hiff rfl, (hregisters _).mpr (htypes.symm.trans hused)⟩

end Document

end QueryShape.Typed
