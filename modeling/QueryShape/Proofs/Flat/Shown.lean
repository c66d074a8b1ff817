import QueryShape.Proofs.Flat.Flattening
import QueryShape.Proofs.Typed.Compiled

/-!
# What a node shows for a type

A node shows for a type, under a response name, the field of the type's inline fragment if that has
one, and otherwise its own. For the flat form of a selection set these are the flat forms of the
fields that the type case holds for the type.
-/

set_option autoImplicit false

namespace QueryShape.Flat

open Typed (FragmentError SelectionSet Record TypeCase)

/-- What a node shows for a type under a response name. -/
def Node.shown? (node : Node) (type responseName : String) : Option Node :=
  ((node.inlineFragmentFor? type).bind (·.field? responseName)).or (node.field? responseName)

def Selection.inlineFor? (node : Selection) (type : String) : Option InlineFragment :=
  node.inlineFragments.reverse.find? (·.type == type)

/-- The field that a selection shows for a type under a response name. -/
def Selection.fieldFor? (node : Selection) (type responseName : String) : Option Field :=
  ((node.inlineFragments.reverse.find? (·.type == type)).bind fun fragment =>
    fragment.fields.reverse.find? (·.responseName == responseName)).or
      (node.fields.reverse.find? (·.responseName == responseName))

theorem Node.field?_eq {node : Node} {fields : List Field} (h : node.fields? = some fields)
    (responseName : String) :
    node.field? responseName =
      (fields.reverse.find? (·.responseName == responseName)).map Node.ofField := by
  simp only [Node.field?, h, Option.bind_eq_bind, Option.bind_some]
  cases fields.reverse.find? (·.responseName == responseName) <;> rfl

theorem Node.inlineFragmentFor?_selection (node : Selection) (type : String) :
    (Node.selection node).inlineFragmentFor? type =
      (node.inlineFragments.reverse.find? (·.type == type)).map Node.inlineFragment := by
  simp only [Node.inlineFragmentFor?, Node.inlineFragments?, Option.bind_eq_bind, Option.bind_some]
  cases node.inlineFragments.reverse.find? (·.type == type) <;> rfl

theorem Node.shown?_eq (node : Selection) (type responseName : String) :
    (Node.selection node).shown? type responseName =
      (node.fieldFor? type responseName).map Node.ofField := by
  rw [shown?, Selection.fieldFor?, inlineFragmentFor?_selection,
    @field?_eq (.selection node) node.fields rfl, Option.map_or]
  cases node.inlineFragments.reverse.find? (·.type == type) with
  | none => rfl
  | some fragment =>
    exact congrArg (Option.or · _)
      (@field?_eq (.inlineFragment fragment) fragment.fields rfl responseName)

theorem responseName_of_fieldFor? {node : Selection} {type key : String} {field : Field}
    (h : node.fieldFor? type key = some field) : field.responseName = key := by
  rw [Selection.fieldFor?, Option.or_eq_some_iff, Option.bind_eq_some_iff] at h
  rcases h with ⟨fragment, _, h⟩ | ⟨_, h⟩
  · simpa using List.find?_some h
  · simpa using List.find?_some h

theorem responseName_ofTyped {head : Typed.FieldHead} (h : head.IsNamed) :
    (FieldHead.ofTyped head).responseName = head.responseKey := by
  obtain ⟨hkey, hne⟩ := h
  rw [hkey, FieldHead.ofTyped]
  cases halias : head.aliasName with
  | none => rfl
  | some aliasName =>
    have hne : aliasName ≠ "" := fun h => hne (by rw [halias, h])
    simp [hne]

section

variable {flattenNested : SelectionSet → Except FragmentError Selection}

theorem head_of_ofTyped {field : Typed.Field} {flat : Field}
    (h : Field.ofTyped flattenNested field = .ok flat) : flat.head = .ofTyped field.head := by
  rcases ofTyped_field_eq_ok.mp h with ⟨_, rfl⟩ | ⟨_, _, _, _, rfl⟩ <;> rfl

theorem isSome_selection?_of_ofTyped {field : Typed.Field} {flat : Field}
    (h : Field.ofTyped flattenNested field = .ok flat) :
    flat.selection?.isSome = field.selectionSet.isSome := by
  rcases ofTyped_field_eq_ok.mp h with ⟨hnone, rfl⟩ | ⟨_, _, hnested, _, rfl⟩
  · rw [hnone]
    rfl
  · rw [hnested]
    rfl

theorem responseName_of_ofTyped_field {field : Typed.Field} {flat : Field}
    (hnamed : field.head.IsNamed) (h : Field.ofTyped flattenNested field = .ok flat) :
    flat.responseName = field.responseKey := by
  rw [Field.responseName, head_of_ofTyped h, responseName_ofTyped hnamed]
  rfl

theorem rel_field? {record : Record} (hkeys : record.keys.Nodup)
    (hnamed : ∀ field ∈ record.fields, field.head.IsNamed) {flats : List Field}
    (h : record.fields.mapM (Field.ofTyped flattenNested) = .ok flats) (key : String) :
    Option.Rel (fun field flat => Field.ofTyped flattenNested field = .ok flat)
      (record.field? key) (flats.reverse.find? (·.responseName == key)) := by
  have hname : ∀ field ∈ record.fields, ∀ flat, Field.ofTyped flattenNested field = .ok flat →
      flat.responseName = field.responseKey :=
    fun field hfield flat => responseName_of_ofTyped_field (hnamed field hfield)
  cases hfound : flats.reverse.find? (·.responseName == key) with
  | none =>
    have hnone : record.field? key = none := by
      apply List.find?_eq_none.mpr
      intro field hfield
      obtain ⟨flat, hflat, hof⟩ := Outcome.exists_mem_of_mapM h hfield
      have hother := List.find?_eq_none.mp hfound flat (List.mem_reverse.mpr hflat)
      rwa [hname field hfield flat hof] at hother
    rw [hnone]
    exact .none
  | some flat =>
    have hmem := List.mem_reverse.mp (List.mem_of_find?_eq_some hfound)
    have hkey : flat.responseName = key := by simpa using List.find?_some hfound
    obtain ⟨field, hfield, hof⟩ := Outcome.exists_of_mem_mapM h hmem
    rw [← hkey, hname field hfield flat hof, Record.field?_eq_of_mem hkeys hfield]
    exact .some hof

variable {options : Options} {document : Typed.Document} {set : SelectionSet} {node : Selection}
  {typeCase : TypeCase}

/-- The inline fragment for a type holds the fields of its record; there is none if the record needs
none. -/
theorem inlineFor?_of_flattenStep
    (hnode : flattenStep options document flattenNested set = .ok node)
    (htypeCase : typeCaseOf options document set = .ok typeCase) {record : Record}
    (hrecord : record ∈ typeCase.records) {type : String} (htype : type ∈ record.possibleTypes) :
    if needsInlineFragments options set record then
      ∃ flats, record.fields.mapM (Field.ofTyped flattenNested) = .ok flats ∧
        node.inlineFor? type = some (.mk type flats (set.spreadNamesFor [type]))
    else node.inlineFor? type = none := by
  obtain ⟨_, hsame, fields, _, groups, hgroups, rfl⟩ := flattenStep_eq_ok.mp hnode
  obtain rfl := Except.ok.inj (htypeCase.symm.trans hsame)
  obtain ⟨merged, rfl, _, _⟩ := exists_merged_of_typeCaseOf htypeCase
  -- Any inline fragment for the type is of this record, since the records have no type in common.
  have hinline : ∀ fragment ∈ groups.flatten, fragment.type = type →
      needsInlineFragments options set record = true ∧
        ∃ flats, record.fields.mapM (Field.ofTyped flattenNested) = .ok flats ∧
          fragment = .mk type flats (set.spreadNamesFor [type]) := by
    intro fragment hfragment hfor
    obtain ⟨other, hother, own, hown, flats, hflats, rfl⟩ :=
      exists_record_of_mem_flatten hgroups hfragment
    obtain ⟨hother, hneeds⟩ := List.mem_filter.mp hother
    obtain rfl : own = type := hfor
    obtain rfl := merged.sorts_typeCase.partition.eq_of_mem hrecord hother htype hown
    exact ⟨hneeds, flats, hflats, rfl⟩
  cases hfound : groups.flatten.reverse.find? (·.type == type) with
  | none =>
    split
    · rename_i hneeds
      obtain ⟨group, hgroup, hof⟩ :=
        Outcome.exists_mem_of_mapM hgroups (List.mem_filter.mpr ⟨hrecord, hneeds⟩)
      obtain ⟨flats, _, rfl⟩ := inlineGroup_eq_ok.mp hof
      have hmem : InlineFragment.mk type flats (set.spreadNamesFor [type]) ∈ groups.flatten :=
        List.mem_flatten.mpr ⟨_, hgroup, List.mem_map.mpr ⟨type, htype, rfl⟩⟩
      have hnot := List.find?_eq_none.mp hfound _ (List.mem_reverse.mpr hmem)
      exact absurd (beq_self_eq_true type) hnot
    · exact hfound
  | some fragment =>
    have hmem := List.mem_reverse.mp (List.mem_of_find?_eq_some hfound)
    have hfor : fragment.type = type := by simpa using List.find?_some hfound
    obtain ⟨hneeds, flats, hflats, rfl⟩ := hinline fragment hmem hfor
    rw [if_pos hneeds]
    exact ⟨flats, hflats, hfound⟩

theorem fields_eq_nil_of_not_needs (htypeCase : typeCaseOf options document set = .ok typeCase)
    {record : Record} (hrecord : record ∈ typeCase.records)
    (hneeds : needsInlineFragments options set record = false) : record.fields = [] := by
  obtain ⟨merged, rfl, htypes, _⟩ := exists_merged_of_typeCaseOf htypeCase
  by_contra hfields
  obtain ⟨type, htype, hout⟩ := merged.sorts_typeCase.proper record hrecord hfields
  rw [htypes] at htype
  have hcontained : PossibleTypes.contained set.possibleTypes record.possibleTypes = false := by
    rw [Bool.eq_false_iff]
    exact fun hall => hout (PossibleTypes.contained_eq_true.mp hall type htype)
  simp [needsInlineFragments, hcontained, hfields] at hneeds

/-- A node shows for a type the flat form of the field that the type case holds for it. -/
theorem rel_fieldFor? (hnode : flattenStep options document flattenNested set = .ok node)
    (htypeCase : typeCaseOf options document set = .ok typeCase)
    (hnamed : ∀ field ∈ typeCase.fields, field.head.IsNamed) {record : Record}
    (hrecord : record ∈ typeCase.records) {type : String} (htype : type ∈ record.possibleTypes)
    (key : String) :
    Option.Rel (fun field flat => Field.ofTyped flattenNested field = .ok flat)
      ((record.field? key).or (typeCase.defaultRecord.field? key)) (node.fieldFor? type key) := by
  have hinline := inlineFor?_of_flattenStep hnode htypeCase hrecord htype
  have hkeys : typeCase.HasDistinctKeys := by
    obtain ⟨merged, rfl, _, _⟩ := exists_merged_of_typeCaseOf htypeCase
    exact merged.hasDistinctKeys_typeCase
  obtain ⟨_, hsame, fields, hfields, groups, _, rfl⟩ := flattenStep_eq_ok.mp hnode
  obtain rfl := Except.ok.inj (htypeCase.symm.trans hsame)
  have hdefault := rel_field? hkeys.defaultRecord
    (fun field hfield => hnamed field (TypeCase.mem_fields.mpr (Or.inl hfield))) hfields key
  have hown : ∀ flats, record.fields.mapM (Field.ofTyped flattenNested) = .ok flats →
      Option.Rel (fun field flat => Field.ofTyped flattenNested field = .ok flat)
        (record.field? key) (flats.reverse.find? (·.responseName == key)) :=
    fun flats hflats => rel_field? (hkeys.record record hrecord)
      (fun field hfield =>
        hnamed field (TypeCase.mem_fields.mpr (Or.inr ⟨record, hrecord, hfield⟩))) hflats key
  rw [Selection.fieldFor?, ← Selection.inlineFor?]
  split at hinline
  · obtain ⟨flats, hflats, hfound⟩ := hinline
    rw [hfound]
    exact rel_or (hown flats hflats) hdefault
  · rename_i hneeds
    have hnil := fields_eq_nil_of_not_needs htypeCase hrecord (by simpa using hneeds)
    have hnone : record.field? key = none := by
      rw [Record.field?, hnil]
      rfl
    rw [hinline, hnone]
    exact hdefault

theorem rel_shown? (hnode : flattenStep options document flattenNested set = .ok node)
    (htypeCase : typeCaseOf options document set = .ok typeCase)
    (hnamed : ∀ field ∈ typeCase.fields, field.head.IsNamed) {record : Record}
    (hrecord : record ∈ typeCase.records) {type : String} (htype : type ∈ record.possibleTypes)
    (key : String) :
    Option.Rel
      (fun field shown => ∃ flat, Field.ofTyped flattenNested field = .ok flat ∧
        Node.ofField flat = shown)
      ((record.field? key).or (typeCase.defaultRecord.field? key))
      ((Node.selection node).shown? type key) := by
  have hrel := rel_fieldFor? hnode htypeCase hnamed hrecord htype key
  rw [Node.shown?_eq]
  generalize (record.field? key).or _ = held, node.fieldFor? type key = flat at hrel ⊢
  cases hrel with
  | some hflat => exact .some ⟨_, hflat, rfl⟩
  | none => exact .none

end

end QueryShape.Flat
