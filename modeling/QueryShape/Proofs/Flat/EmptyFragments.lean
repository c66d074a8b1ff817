import QueryShape.Proofs.Flat.Documents
import QueryShape.Proofs.Flat.Shown
import QueryShape.Proofs.Typed.Paths

/-!
# Leaving out empty inline fragments

Without the inline fragments of some types a node shows the same for every type, as long as these
inline fragments have no fields. Flattening can be asked to leave out inline fragments without
fields, at every depth; that changes nothing else, and it neither adds nor removes an error.
-/

set_option autoImplicit false

namespace QueryShape.Flat

open Typed (FragmentError SelectionSet Record TypeCase Step)

mutual

/-- The other field has all of the field, apart from inline fragments without fields which are
missing in the nodes inside of it. -/
inductive Field.Prunes : Field → Field → Prop
  | leaf (head : FieldHead) : Field.Prunes (.leaf head) (.leaf head)
  | composite {head : FieldHead} {fields others : List Field} {spreads omitted : List String}
      {fragments kept : List InlineFragment} (hfields : List.Forall₂ Field.Prunes fields others)
      (hempty : ∀ fragment ∈ fragments, fragment.type ∈ omitted → fragment.fields = [])
      (hkept : List.Forall₂ InlineFragment.Prunes (fragments.filter (·.type ∉ omitted)) kept) :
      Field.Prunes (.composite head fields spreads fragments)
        (.composite head others spreads kept)

inductive InlineFragment.Prunes : InlineFragment → InlineFragment → Prop
  | mk {type : String} {fields others : List Field} {spreads : List String}
      (hfields : List.Forall₂ Field.Prunes fields others) :
      InlineFragment.Prunes (.mk type fields spreads) (.mk type others spreads)

end

/-- Of the inline fragments those for some types are missing, none of which has fields. -/
structure LeavesOut (omitted : List String) (fragments kept : List InlineFragment) : Prop where
  empty : ∀ fragment ∈ fragments, fragment.type ∈ omitted → fragment.fields = []
  kept : List.Forall₂ InlineFragment.Prunes (fragments.filter (·.type ∉ omitted)) kept

/-- The other node has all of the node, apart from inline fragments without fields. -/
structure Selection.Prunes (node other : Selection) : Prop where
  fields : List.Forall₂ Field.Prunes node.fields other.fields
  spreads : other.spreads = node.spreads
  inlineFragments : ∃ omitted, LeavesOut omitted node.inlineFragments other.inlineFragments

structure Operation.Prunes (operation other : Operation) : Prop where
  selection : operation.selection.Prunes other.selection
  rest : other = { operation with selection := other.selection }

structure Fragment.Prunes (fragment other : Fragment) : Prop where
  selection : fragment.selection.Prunes other.selection
  rest : other = { fragment with selection := other.selection }

structure Document.Prunes (document other : Document) : Prop where
  operations : List.Forall₂ Operation.Prunes document.operations other.operations
  fragments : List.Forall₂ Fragment.Prunes document.fragments other.fragments
  typesUsed : other.typesUsed = document.typesUsed

/-- The node that is shown at a path, which lists the last step first. -/
def Selection.nodeAt? (node : Selection) : List Step → Option Selection
  | [] => some node
  | step :: path =>
    ((node.nodeAt? path).bind (·.fieldFor? step.type step.key)).bind Field.selection?

theorem Field.Prunes.head_eq {field other : Field} (h : field.Prunes other) :
    other.head = field.head := by
  cases h <;> rfl

theorem InlineFragment.Prunes.type_eq {fragment other : InlineFragment}
    (h : fragment.Prunes other) : other.type = fragment.type := by
  cases h
  rfl

theorem Field.Prunes.rel_selection? {field other : Field} (h : field.Prunes other) :
    Option.Rel Selection.Prunes field.selection? other.selection? := by
  cases h with
  | leaf head => exact .none
  | composite hfields hempty hkept => exact .some ⟨hfields, rfl, _, hempty, hkept⟩

theorem rel_find?_of_prunes {fields others : List Field}
    (h : List.Forall₂ Field.Prunes fields others) (key : String) :
    Option.Rel Field.Prunes (fields.reverse.find? (·.responseName == key))
      (others.reverse.find? (·.responseName == key)) := by
  apply rel_find?_of_forall₂ (List.rel_reverse h)
  intro field other hprunes
  rw [Field.responseName, Field.responseName, hprunes.head_eq]

namespace LeavesOut

variable {omitted : List String} {fragments kept : List InlineFragment}

theorem append {others more : List InlineFragment} (h : LeavesOut omitted fragments kept)
    (hothers : LeavesOut omitted others more) :
    LeavesOut omitted (fragments ++ others) (kept ++ more) where
  empty := List.forall_mem_append.mpr ⟨h.empty, hothers.empty⟩
  kept := by
    rw [List.filter_append]
    exact List.rel_append h.kept hothers.kept

theorem find?_filter_type (omitted : List String) (fragments : List InlineFragment)
    (type : String) :
    (fragments.filter (·.type ∉ omitted)).find? (·.type == type) =
      if type ∈ omitted then none else fragments.find? (·.type == type) := by
  rw [List.find?_filter]
  split
  · rename_i hin
    rw [List.find?_eq_none]
    intro fragment _ hfound
    simp only [decide_eq_true_eq, beq_iff_eq] at hfound
    exact hfound.1 (hfound.2 ▸ hin)
  · rename_i hout
    congr 1
    funext fragment
    by_cases hfor : fragment.type = type <;> simp [hfor, hout]

theorem rel_find? (h : LeavesOut omitted fragments kept) (type key : String) :
    Option.Rel Field.Prunes
      ((fragments.reverse.find? (·.type == type)).bind fun fragment =>
        fragment.fields.reverse.find? (·.responseName == key))
      ((kept.reverse.find? (·.type == type)).bind fun fragment =>
        fragment.fields.reverse.find? (·.responseName == key)) := by
  have hrel : Option.Rel InlineFragment.Prunes
      ((fragments.filter (·.type ∉ omitted)).reverse.find? (·.type == type))
      (kept.reverse.find? (·.type == type)) :=
    rel_find?_of_forall₂ (List.rel_reverse h.kept) fun fragment other hprunes => by
      rw [hprunes.type_eq]
  rw [← List.filter_reverse, find?_filter_type] at hrel
  split at hrel
  · rename_i hin
    have hempty : ((fragments.reverse.find? (·.type == type)).bind fun fragment =>
        fragment.fields.reverse.find? (·.responseName == key)) = none := by
      rw [Option.bind_eq_none_iff]
      intro fragment hfound
      have hmem := List.mem_reverse.mp (List.mem_of_find?_eq_some hfound)
      have hsame : fragment.type = type := by simpa using List.find?_some hfound
      rw [h.empty fragment hmem (hsame ▸ hin)]
      rfl
    generalize kept.reverse.find? (·.type == type) = found at hrel ⊢
    cases hrel
    rw [hempty]
    exact .none
  · refine rel_bind hrel fun fragment other hprunes => ?_
    cases hprunes with
    | mk hfields => exact rel_find?_of_prunes hfields key

end LeavesOut

namespace Selection.Prunes

variable {node other : Selection} (h : node.Prunes other)
include h

theorem rel_fieldFor? (type key : String) :
    Option.Rel Field.Prunes (node.fieldFor? type key) (other.fieldFor? type key) := by
  obtain ⟨omitted, hfragments⟩ := h.inlineFragments
  exact rel_or (hfragments.rel_find? type key) (rel_find?_of_prunes h.fields key)

theorem rel_nodeAt? (path : List Step) :
    Option.Rel Selection.Prunes (node.nodeAt? path) (other.nodeAt? path) := by
  induction path with
  | nil => exact .some h
  | cons step path ih =>
    apply rel_bind (rel_bind ih fun _ _ hprunes => hprunes.rel_fieldFor? step.type step.key)
    exact fun _ _ hprunes => hprunes.rel_selection?

end Selection.Prunes

section

variable {set : SelectionSet} {omitted : List String}
  {flattenNested flattenOther : SelectionSet → Except FragmentError Selection}
  (hnested : ∀ nested, Outcome.Rel Selection.Prunes (flattenNested nested) (flattenOther nested))
include hnested

theorem rel_ofTyped_field (field : Typed.Field) :
    Outcome.Rel Field.Prunes (Field.ofTyped flattenNested field)
      (Field.ofTyped flattenOther field) := by
  rw [Field.ofTyped, Field.ofTyped]
  cases field.selectionSet with
  | none => exact .ok (.leaf _)
  | some nested =>
    refine (hnested nested).bind fun node other hprunes => .ok ?_
    obtain ⟨hfields, hspreads, _, hempty, hkept⟩ := hprunes
    rw [hspreads]
    exact .composite hfields hempty hkept

theorem rel_inlineGroup {record : Record} (h : ∀ type ∈ record.possibleTypes, type ∉ omitted) :
    Outcome.Rel (LeavesOut omitted) (inlineGroup flattenNested set record)
      (inlineGroup flattenOther set record) := by
  refine (Outcome.Rel.mapM fun field _ => rel_ofTyped_field hnested field).bind
    fun fields others hfields => .ok ?_
  have hout : ∀ fragment ∈ inlineFragmentsFor set record fields, fragment.type ∉ omitted := by
    intro fragment hfragment
    obtain ⟨type, htype, rfl⟩ := List.mem_map.mp hfragment
    exact h type htype
  constructor
  · exact fun fragment hfragment hin => absurd hin (hout fragment hfragment)
  · rw [List.filter_eq_self.mpr (by simpa using hout), inlineFragmentsFor, inlineFragmentsFor,
      List.forall₂_map_left_iff, List.forall₂_map_right_iff, List.forall₂_same]
    exact fun type _ => .mk hfields

theorem rel_groups {keeps : Record → Bool} {records : List Record}
    (hkeep : ∀ record ∈ records, keeps record = true →
      ∀ type ∈ record.possibleTypes, type ∉ omitted)
    (hleave : ∀ record ∈ records, keeps record = false →
      record.fields = [] ∧ ∀ type ∈ record.possibleTypes, type ∈ omitted) :
    Outcome.Rel (fun groups others => LeavesOut omitted groups.flatten others.flatten)
      (records.mapM (inlineGroup flattenNested set))
      ((records.filter keeps).mapM (inlineGroup flattenOther set)) := by
  induction records with
  | nil => exact .ok ⟨by simp, .nil⟩
  | cons record rest ih =>
    obtain ⟨hkeepFirst, hkeepRest⟩ := List.forall_mem_cons.mp hkeep
    obtain ⟨hleaveFirst, hleaveRest⟩ := List.forall_mem_cons.mp hleave
    have ih := ih hkeepRest hleaveRest
    cases hkeeps : keeps record with
    | true =>
      rw [List.filter_cons_of_pos hkeeps, List.mapM_cons, List.mapM_cons]
      exact (rel_inlineGroup hnested (hkeepFirst hkeeps)).bind fun _ _ hgroup =>
        ih.bind fun _ _ hgroups => .ok (hgroup.append hgroups)
    | false =>
      obtain ⟨hfields, hin⟩ := hleaveFirst hkeeps
      have hgroup : LeavesOut omitted (inlineFragmentsFor set record []) [] := by
        have hempty : ∀ fragment ∈ inlineFragmentsFor set record [],
            fragment.fields = [] ∧ fragment.type ∈ omitted := by
          intro fragment hfragment
          obtain ⟨type, htype, rfl⟩ := List.mem_map.mp hfragment
          exact ⟨rfl, hin type htype⟩
        refine ⟨fun fragment hfragment _ => (hempty fragment hfragment).1, ?_⟩
        have hleft : (inlineFragmentsFor set record []).filter (·.type ∉ omitted) = [] := by
          simpa [List.filter_eq_nil_iff] using fun fragment hmem => (hempty fragment hmem).2
        rw [hleft]
        exact .nil
      -- A record without fields has no nested sets, so that its group is no source of errors.
      rw [List.filter_cons_of_neg (by rw [hkeeps]; exact Bool.false_ne_true), List.mapM_cons,
        inlineGroup, hfields]
      generalize rest.mapM (inlineGroup flattenNested set) = groups,
        (rest.filter keeps).mapM (inlineGroup flattenOther set) = others at ih ⊢
      cases ih with
      | error error => exact .error error
      | ok hgroups => exact .ok (hgroup.append hgroups)

end

section

variable (options : Options) (document : Typed.Document)

def hasContent (set : SelectionSet) (record : Record) : Bool :=
  !record.fields.isEmpty || (set.spreadNamesFor record.possibleTypes).any (· ∉ set.spreadNames)

theorem needsInlineFragments_omitting (set : SelectionSet) (record : Record) :
    needsInlineFragments { options with omitEmptyInlineFragments := true } set record =
      (hasContent set record &&
        needsInlineFragments { options with omitEmptyInlineFragments := false } set record) := by
  cases hcontained : PossibleTypes.contained set.possibleTypes record.possibleTypes with
  | true => simp [needsInlineFragments, hcontained]
  | false =>
    cases hempty : record.fields.isEmpty <;>
      simp [needsInlineFragments, hasContent, hcontained, hempty]

theorem rel_flattenStep {flattenNested flattenOther : SelectionSet → Except FragmentError Selection}
    (hnested : ∀ nested, Outcome.Rel Selection.Prunes (flattenNested nested) (flattenOther nested))
    (set : SelectionSet) :
    Outcome.Rel Selection.Prunes
      (flattenStep { options with omitEmptyInlineFragments := false } document flattenNested set)
      (flattenStep { options with omitEmptyInlineFragments := true } document flattenOther
        set) := by
  apply Outcome.Rel.bind_same
  intro typeCase htypeCase
  obtain ⟨merged, rfl, _, _⟩ := exists_merged_of_typeCaseOf htypeCase
  have hpartition := merged.sorts_typeCase.partition
  refine (Outcome.Rel.mapM fun field _ => rel_ofTyped_field hnested field).bind
    fun fields others hfields => ?_
  have hneeds := funext (needsInlineFragments_omitting options set)
  rw [hneeds, ← List.filter_filter]
  let records := merged.typeCase.records.filter
    (needsInlineFragments { options with omitEmptyInlineFragments := false } set)
  have hrecords : ∀ record ∈ records, record ∈ merged.typeCase.records :=
    fun record => List.mem_of_mem_filter
  let omitted := (records.filter (!hasContent set ·)).flatMap (·.possibleTypes)
  have hgroups := @rel_groups set omitted _ _ hnested (hasContent set) records ?_ ?_
  · exact hgroups.bind fun _ _ hinline => .ok ⟨hfields, rfl, omitted, hinline⟩
  · intro record hrecord hcontent type htype hin
    obtain ⟨other, hother, htypeOther⟩ := List.mem_flatMap.mp hin
    obtain ⟨hother, hno⟩ := List.mem_filter.mp hother
    obtain rfl :=
      hpartition.eq_of_mem (hrecords record hrecord) (hrecords other hother) htype htypeOther
    simp [hcontent] at hno
  · intro record hrecord hcontent
    refine ⟨?_, fun type htype => List.mem_flatMap.mpr ⟨record, ?_, htype⟩⟩
    · simp only [hasContent, Bool.or_eq_false_iff, Bool.not_eq_false', List.isEmpty_iff] at hcontent
      exact hcontent.1
    · exact List.mem_filter.mpr ⟨hrecord, by simp [hcontent]⟩

theorem rel_ofTyped (bound : Nat) (set : SelectionSet) :
    Outcome.Rel Selection.Prunes
      (Selection.ofTyped { options with omitEmptyInlineFragments := false } document bound set)
      (Selection.ofTyped { options with omitEmptyInlineFragments := true } document bound set) := by
  induction bound generalizing set with
  | zero => exact .error FragmentError.cycle
  | succ bound ih =>
    rw [ofTyped_succ, ofTyped_succ]
    exact rel_flattenStep options document ih set

theorem rel_ofTyped_operation (operation : Typed.Operation) :
    Outcome.Rel Operation.Prunes
      (Operation.ofTyped { options with omitEmptyInlineFragments := false } document operation)
      (Operation.ofTyped { options with omitEmptyInlineFragments := true } document operation) :=
  Outcome.Rel.bind_same fun _ _ => Outcome.Rel.bind_same fun _ _ =>
    (rel_ofTyped options document _ operation.selectionSet).bind fun _ _ hprunes =>
      .ok ⟨hprunes, rfl⟩

theorem rel_ofTyped_fragment (fragment : Typed.Fragment) :
    Outcome.Rel Fragment.Prunes
      (Fragment.ofTyped { options with omitEmptyInlineFragments := false } document fragment)
      (Fragment.ofTyped { options with omitEmptyInlineFragments := true } document fragment) :=
  (rel_ofTyped options document _ fragment.selectionSet).bind fun _ _ hprunes =>
    .ok ⟨hprunes, rfl⟩

/-- If empty inline fragments are to be left out, the flat form of a document lacks some inline
fragments without fields, at every depth, and is otherwise the same: whatever it is shown for a type
under a response name at a path differs again only so. An error is the same error. -/
theorem prunes_omitEmptyInlineFragments :
    Outcome.Rel Document.Prunes
      (Document.ofTyped { options with omitEmptyInlineFragments := false } document)
      (Document.ofTyped { options with omitEmptyInlineFragments := true } document) ∧
    ∀ node other : Selection, node.Prunes other → ∀ (path : List Step) (type key : String),
      Option.Rel Field.Prunes ((node.nodeAt? path).bind (·.fieldFor? type key))
        ((other.nodeAt? path).bind (·.fieldFor? type key)) := by
  constructor
  · have hoperations := Outcome.Rel.mapM fun operation (_ : operation ∈ document.operations) =>
      rel_ofTyped_operation options document operation
    have hfragments := Outcome.Rel.mapM fun fragment (_ : fragment ∈ document.fragments) =>
      rel_ofTyped_fragment options document fragment
    exact hoperations.bind fun _ _ hoperations => hfragments.bind fun _ _ hfragments =>
      .ok ⟨hoperations, hfragments, rfl⟩
  · intro node other hprunes path type key
    exact rel_bind (hprunes.rel_nodeAt? path) fun _ _ hinside => hinside.rel_fieldFor? type key

end

/-- A fragment on animals that selects nothing for cats. -/
def nameOfDogs : Typed.Document where
  operations := []
  fragments :=
    [⟨none, "NameOfDogs", "", "Animal",
      ⟨["Dog", "Cat"], [.typeCondition "Dog" ["Dog"] [.leaf nameOfDog]]⟩⟩]
  typesUsed := []
where
  nameOfDog : Typed.FieldHead :=
    ⟨"name", "name", none, .named "String", [], none, false, none, false, []⟩

theorem prunes_omitEmptyInlineFragments_nameOfDogs :
    ∃ flat other, Document.ofTyped { omitEmptyInlineFragments := false } nameOfDogs = .ok flat ∧
      Document.ofTyped { omitEmptyInlineFragments := true } nameOfDogs = .ok other ∧
      flat.Prunes other ∧
      flat.fragments.map (·.selection.inlineFragments.map (·.type)) = [["Dog", "Cat"]] ∧
      other.fragments.map (·.selection.inlineFragments.map (·.type)) = [["Dog"]] := by
  have hrel := (prunes_omitEmptyInlineFragments {} nameOfDogs).1
  have hflat : (Document.ofTyped { omitEmptyInlineFragments := false } nameOfDogs).toOption.map
      (·.fragments.map (·.selection.inlineFragments.map (·.type))) = some [["Dog", "Cat"]] := by
    decide
  have hother : (Document.ofTyped { omitEmptyInlineFragments := true } nameOfDogs).toOption.map
      (·.fragments.map (·.selection.inlineFragments.map (·.type))) = some [["Dog"]] := by
    decide
  obtain ⟨flat, hflat, htypes⟩ := Option.map_eq_some_iff.mp hflat
  obtain ⟨other, hother, hotherTypes⟩ := Option.map_eq_some_iff.mp hother
  rw [Outcome.toOption_eq_some] at hflat hother
  refine ⟨flat, other, hflat, hother, ?_, htypes, hotherTypes⟩
  simp only [hflat, hother] at hrel
  cases hrel with
  | ok hprunes => exact hprunes

end QueryShape.Flat
