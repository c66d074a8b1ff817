import QueryShape.Proofs.Source.Collection
import QueryShape.Proofs.Typed.Compiled

/-!
# Typing keeps the collected response keys

From a typed selection set those response keys are collected that are collected from the written one
when only the first spread of every fragment in a selection set counts. All collected keys are kept
exactly if none is lost with the spreads that do not count, as it is where the first spread of a
fragment is excluded and a later one is not.
-/

set_option autoImplicit false

namespace QueryShape.Typed

/-- A response key is collected for the type from typed selections: through conditions that the type
satisfies, checks that hold, and fragments that apply to the type. -/
inductive Document.Collects (document : Document) (values : String → Bool) (type : String) :
    List Selection → String → Prop
  | leaf {head : FieldHead} {rest : List Selection} :
      Collects document values type (.leaf head :: rest) head.responseKey
  | composite {head : FieldHead} {types : List String} {nested rest : List Selection} :
      Collects document values type (.composite head types nested :: rest) head.responseKey
  | typeCondition {condition : String} {narrowed : List String} {inner rest : List Selection}
      {key : String} (htype : type ∈ narrowed) (hinner : Collects document values type inner key) :
      Collects document values type (.typeCondition condition narrowed inner :: rest) key
  | check {check : Check} {types : List String} {inner rest : List Selection} {key : String}
      (hholds : check.holds values = true) (hinner : Collects document values type inner key) :
      Collects document values type (.booleanCondition check types inner :: rest) key
  | spread {name : String} {fragment : Fragment} {rest : List Selection} {key : String}
      (hfragment : document.fragment? name = some fragment)
      (htype : type ∈ fragment.selectionSet.possibleTypes)
      (hinner : Collects document values type fragment.selectionSet.selections key) :
      Collects document values type (.fragmentSpread name :: rest) key
  | later {selection : Selection} {rest : List Selection} {key : String}
      (hrest : Collects document values type rest key) :
      Collects document values type (selection :: rest) key

section

variable (values : String → Bool) (type key : String) (given : String → Prop)

mutual

def Selection.CollectsGiven : Selection → Prop
  | .leaf head => head.responseKey = key
  | .composite head _ _ => head.responseKey = key
  | .typeCondition _ narrowed inner => type ∈ narrowed ∧ Selection.AnyCollectsGiven inner
  | .booleanCondition check _ inner =>
    check.holds values = true ∧ Selection.AnyCollectsGiven inner
  | .fragmentSpread name => given name

def Selection.AnyCollectsGiven : List Selection → Prop
  | [] => False
  | selection :: rest => Selection.CollectsGiven selection ∨ Selection.AnyCollectsGiven rest

end

end

section

variable {values : String → Bool} {type key : String} {given : String → Prop}

theorem Selection.collectsGiven_under {types : List String} {checks : List Check}
    {selection : Selection} :
    (selection.under types checks).CollectsGiven values type key given ↔
      (∀ check ∈ checks, check.holds values = true) ∧
        selection.CollectsGiven values type key given := by
  induction checks generalizing selection with
  | nil => simp [under]
  | cons check rest ih =>
    refine ih.trans ?_
    simp only [CollectsGiven, AnyCollectsGiven, or_false, List.forall_mem_cons]
    exact and_left_comm.trans and_assoc.symm

theorem collectsGiven_spreadWithin {schema : Schema} {types : List String}
    {name fragmentType : String} (htype : type ∈ types)
    (hgiven : given name → type ∈ schema.possibleTypes fragmentType) :
    (spreadWithin schema types name fragmentType).CollectsGiven values type key given ↔
      given name := by
  rw [spreadWithin]
  split
  · rfl
  · simp only [Selection.CollectsGiven, Selection.AnyCollectsGiven, or_false,
      PossibleTypes.mem_intersect]
    exact ⟨fun h => h.2, fun h => ⟨⟨htype, hgiven h⟩, h⟩⟩

end

namespace Typing

variable {schema : Schema} {written : Source.Document} {values : String → Bool} {type key : String}

def FragmentCollects (schema : Schema) (written : Source.Document) (values : String → Bool)
    (type key name : String) : Prop :=
  ∃ fragment, written.fragment? name = some fragment ∧
    type ∈ schema.possibleTypes fragment.typeCondition ∧
      written.Collects schema values type false [] fragment.selections key

theorem anyCollectsGiven_iff {parent : String} {types seen : List String}
    {selections : List Source.Selection} {typed : List Selection}
    (h : Typing schema written.fragmentType? parent types seen selections typed)
    (htype : type ∈ types) (hparent : ∀ type ∈ types, type ∈ schema.possibleTypes parent) :
    Selection.AnyCollectsGiven values type key (FragmentCollects schema written values type key)
        typed ↔
      written.Collects schema values type false seen selections key := by
  induction h with
  | nil => exact ⟨False.elim, nofun⟩
  | excluded hexcluded _ ih =>
    rw [ih htype hparent, Source.Document.Collects.excluded_cons_iff]
    exact Source.Directive.anyExcludes_of_literal (checksOf?_eq_none.mp hexcluded) _
  | repeated hseen _ ih =>
    -- The fragment is seen already, whether or not its earlier spread is excluded.
    rw [ih htype hparent, Source.Document.Collects.spread_cons_iff, List.insert_of_mem hseen]
    simp [hseen]
  | leaf hchecks _ _ _ ih =>
    rw [Selection.AnyCollectsGiven, Selection.collectsGiven_under, all_holds_iff hchecks,
      ih htype hparent, Source.Document.Collects.field_cons_iff]
    rfl
  | composite hchecks _ _ _ _ _ ih =>
    rw [Selection.AnyCollectsGiven, Selection.collectsGiven_under, all_holds_iff hchecks,
      ih htype hparent, Source.Document.Collects.field_cons_iff]
    rfl
  | @spread _ _ _ name fragmentType _ _ _ _ hnew hchecks hfragment _ ih =>
    have hgiven : FragmentCollects schema written values type key name →
        type ∈ schema.possibleTypes fragmentType := by
      rintro ⟨fragment, hfound, happlies, _⟩
      rw [Source.Document.fragmentType?, hfound] at hfragment
      rwa [← Option.some.inj hfragment]
    rw [Selection.AnyCollectsGiven, Selection.collectsGiven_under, all_holds_iff hchecks,
      collectsGiven_spreadWithin htype hgiven, ih htype hparent,
      Source.Document.Collects.spread_cons_iff]
    simp [hnew, FragmentCollects]
  | @inline parent types _ condition _ _ _ _ _ _ hchecks _ _ ihInner ih =>
    have hcondition : (∀ name ∈ condition, type ∈ schema.possibleTypes name) ↔
        type ∈ schema.possibleTypes (condition.getD parent) := by
      cases condition with
      | none => simp [hparent type htype]
      | some name => simp
    have hinner : type ∈ PossibleTypes.intersect types
          (schema.possibleTypes (condition.getD parent)) →
        (Selection.AnyCollectsGiven values type key
            (FragmentCollects schema written values type key) _ ↔ _) :=
      fun hin => ihInner hin fun _ hmem => (PossibleTypes.mem_intersect.mp hmem).2
    rw [Selection.AnyCollectsGiven, Selection.collectsGiven_under, all_holds_iff hchecks,
      ih htype hparent, Source.Document.Collects.inline_cons_iff, Selection.CollectsGiven,
      hcondition, and_congr_right hinner, PossibleTypes.mem_intersect]
    simp only [htype, true_and]

theorem exists_rest {parent : String} {types seen : List String} {selection : Source.Selection}
    {rest : List Source.Selection} {typed : List Selection}
    (h : Typing schema written.fragmentType? parent types seen (selection :: rest) typed) :
    ∃ first others, first ++ others = typed ∧
      Typing schema written.fragmentType? parent types (selection.seenAfter seen) rest others := by
  cases h with
  | excluded _ hrest => exact ⟨[], _, rfl, hrest⟩
  | repeated hseen hrest =>
    rw [Source.Selection.seenAfter, List.insert_of_mem hseen]
    exact ⟨[], _, rfl, hrest⟩
  | leaf _ _ _ hrest => exact ⟨[_], _, rfl, hrest⟩
  | composite _ _ _ _ hrest => exact ⟨[_], _, rfl, hrest⟩
  | spread _ _ _ hrest => exact ⟨[_], _, rfl, hrest⟩
  | inline _ _ hrest => exact ⟨[_], _, rfl, hrest⟩

end Typing

namespace Document

variable {document : Document} {values : String → Bool} {type key : String}

namespace Collects

theorem append_left {selections : List Selection}
    (h : document.Collects values type selections key) (first : List Selection) :
    document.Collects values type (first ++ selections) key := by
  induction first with
  | nil => exact h
  | cons _ _ ih => exact .later ih

theorem under {types : List String} {checks : List Check}
    (hholds : ∀ check ∈ checks, check.holds values = true) {selection : Selection}
    {rest : List Selection} (h : ∀ rest, document.Collects values type (selection :: rest) key) :
    document.Collects values type (selection.under types checks :: rest) key := by
  induction checks generalizing selection with
  | nil => exact h rest
  | cons check others ih =>
    obtain ⟨hfirst, hothers⟩ := List.forall_mem_cons.mp hholds
    exact ih hothers fun _ => .check hfirst (h [])

theorem spreadWithin {schema : Schema} {types : List String} {name fragmentType : String}
    (htype : type ∈ types) (happlies : type ∈ schema.possibleTypes fragmentType)
    (h : ∀ rest, document.Collects values type (.fragmentSpread name :: rest) key)
    (rest : List Selection) :
    document.Collects values type (spreadWithin schema types name fragmentType :: rest) key := by
  rw [Typed.spreadWithin]
  split
  · exact h rest
  · exact .typeCondition (PossibleTypes.mem_intersect.mpr ⟨htype, happlies⟩) (h [])

end Collects

namespace IsTyped

variable {schema : Schema} {filePath : Option String} {written : Source.Document}
  (h : IsTyped schema filePath written document)
include h

theorem anyCollectsGiven_of_collects {selections : List Selection}
    (hcollects : document.Collects values type selections key) :
    Selection.AnyCollectsGiven values type key
      (Typing.FragmentCollects schema written values type key) selections := by
  induction hcollects with
  | leaf => exact Or.inl rfl
  | composite => exact Or.inl rfl
  | typeCondition htype _ ih => exact Or.inl ⟨htype, ih⟩
  | check hholds _ ih => exact Or.inl ⟨hholds, ih⟩
  | spread hfragment htype _ ih =>
    obtain ⟨original, horiginal, hsource⟩ := h.exists_fragment hfragment
    obtain ⟨other, hother, htypes, htyping⟩ := h.typing_of_fragment? horiginal
    obtain rfl := Option.some.inj (hfragment.symm.trans hother)
    rw [htypes] at htype
    exact Or.inl ⟨original, horiginal, htype,
      (htyping.anyCollectsGiven_iff htype fun _ hmem => hmem).mp ih⟩
  | later _ ih => exact Or.inr ih

theorem collects_of_written {seen : List String} {selections : List Source.Selection}
    (hcollects : written.Collects schema values type false seen selections key) {parent : String}
    {types : List String} {typed : List Selection}
    (htyping : Typing schema written.fragmentType? parent types seen selections typed)
    (htype : type ∈ types) (hparent : type ∈ schema.possibleTypes parent) :
    document.Collects values type typed key := by
  -- The derivation enters fragments, which typing does not, so that the induction is on what is
  -- collected and not on how the selections are typed.
  induction hcollects generalizing parent types typed with
  | field hincluded =>
    cases htyping with
    | excluded hexcluded _ => exact absurd hexcluded (checksOf?_ne_none hincluded)
    | leaf hchecks _ _ _ =>
      exact .under ((all_holds_iff hchecks values).mpr hincluded) fun _ => .leaf
    | composite hchecks _ _ _ _ =>
      exact .under ((all_holds_iff hchecks values).mpr hincluded) fun _ => .composite
  | @inline _ condition _ _ _ _ hincluded happlies _ ih =>
    cases htyping with
    | excluded hexcluded _ => exact absurd hexcluded (checksOf?_ne_none hincluded)
    | inline hchecks hinner _ =>
      have hcondition : type ∈ schema.possibleTypes (condition.getD parent) := by
        cases condition with
        | none => exact hparent
        | some name => exact happlies name rfl
      have hnarrowed := PossibleTypes.mem_intersect.mpr ⟨htype, hcondition⟩
      exact .under ((all_holds_iff hchecks values).mpr hincluded) fun _ =>
        .typeCondition hnarrowed (ih hinner hnarrowed hcondition)
  | spread hcounts hincluded hfragment happlies _ ih =>
    cases htyping with
    | excluded hexcluded _ => exact absurd hexcluded (checksOf?_ne_none hincluded)
    | repeated hseen _ =>
      rcases hcounts with hagain | hnew
      · cases hagain
      · exact absurd hseen hnew
    | spread _ hchecks hof _ =>
      obtain ⟨fragment, hfound, htypes, hinner⟩ := h.typing_of_fragment? hfragment
      rw [Source.Document.fragmentType?, hfragment, Option.map_some] at hof
      obtain rfl := Option.some.inj hof
      have hin : type ∈ fragment.selectionSet.possibleTypes := htypes ▸ happlies
      exact .under ((all_holds_iff hchecks values).mpr hincluded)
        (Collects.spreadWithin htype happlies fun _ =>
          .spread hfound hin (ih hinner happlies happlies))
  | later _ ih =>
    obtain ⟨first, others, rfl, hrest⟩ := htyping.exists_rest
    exact (ih hrest htype hparent).append_left first

/-- The first spreads of fragments in each selection set decide what is collected. -/
theorem collects_iff {parent : String} {types : List String} {selections : List Source.Selection}
    {typed : List Selection}
    (htyping : Typing schema written.fragmentType? parent types [] selections typed)
    (htype : type ∈ types) (hparent : ∀ type ∈ types, type ∈ schema.possibleTypes parent) :
    document.Collects values type typed key ↔
      written.Collects schema values type false [] selections key := by
  constructor
  · intro hcollects
    exact (htyping.anyCollectsGiven_iff htype hparent).mp (h.anyCollectsGiven_of_collects hcollects)
  · intro hcollects
    exact h.collects_of_written hcollects htyping htype (hparent type htype)

end IsTyped

end Document

section

variable {schema : Schema} {options : Options} {filePath : Option String}
  {source : Source.Document} {document : Document}

/-- From a selection set of a compiled document, for an object type and values of variables, those
response keys are collected that are collected from the written set when only the first spread of a
fragment in a selection set counts. These are all that the written set selects for the type if and
only if every key that is collected with spreads of fragments that were spread before is collected
without them. -/
theorem collects_iff_collects_first
    (hcompile : Document.compile schema options filePath source = .ok document) {parent : String}
    {selections : List Source.Selection} {set : SelectionSet}
    (hset : SelectionSet.ofSource schema (source.prepared options).fragmentType? parent selections =
      .ok set)
    {type : String} (htype : type ∈ schema.possibleTypes parent) (values : String → Bool) :
    (∀ key, document.Collects values type set.selections key ↔
      (source.prepared options).Collects schema values type false [] selections key) ∧
    ((∀ key, document.Collects values type set.selections key ↔
        (source.prepared options).Collects schema values type true [] selections key) ↔
      ∀ key, (source.prepared options).Collects schema values type true [] selections key →
        (source.prepared options).Collects schema values type false [] selections key) := by
  obtain ⟨_, _, htyped⟩ := Document.isTyped_of_compile hcompile
  obtain ⟨_, htyping⟩ := typing_of_ofSource hset
  have hfirst : ∀ key, document.Collects values type set.selections key ↔
      (source.prepared options).Collects schema values type false [] selections key :=
    fun key => htyped.collects_iff htyping htype fun _ hmem => hmem
  refine ⟨hfirst, ?_⟩
  constructor
  · intro hall key hcollects
    exact (hfirst key).mp ((hall key).mpr hcollects)
  · intro hkept key
    exact ⟨fun h => ((hfirst key).mp h).spreadAgain, fun h => (hfirst key).mpr (hkept key h)⟩

end

/-- A field, and two spreads of a fragment of which the first is excluded and the second depends on
a variable. -/
def spreadTwice : List Source.Selection :=
  [.field none "b" [] [] [],
   .fragmentSpread "F" [⟨"skip", [⟨"if", .boolean true⟩]⟩],
   .fragmentSpread "F" [⟨"include", [⟨"if", .var "c"⟩]⟩]]

def spreadTwiceDocument : Source.Document where
  definitions :=
    [.operation
       { description := none
         kind := .query
         name := some "Q"
         variableDefinitions := [⟨none, "c", .nonNull (.named "Boolean"), none, []⟩]
         directives := []
         selections := spreadTwice },
     .fragment ⟨none, "F", "Query", [], [.field none "a" [] [] []]⟩]

theorem exists_compile_spreadTwice :
    ∃ document, Document.compile Schema.twoFields {} none spreadTwiceDocument = .ok document :=
  Outcome.exists_eq_ok (by decide +kernel)

theorem collects_iff_collects_first_spreadTwice :
    ∃ document set, Document.compile Schema.twoFields {} none spreadTwiceDocument = .ok document ∧
      SelectionSet.ofSource Schema.twoFields (spreadTwiceDocument.prepared {}).fragmentType? "Query"
        spreadTwice = .ok set ∧
      "Query" ∈ Schema.twoFields.possibleTypes "Query" ∧
      ∀ key, document.Collects (fun _ => true) "Query" set.selections key ↔
        (spreadTwiceDocument.prepared {}).Collects Schema.twoFields (fun _ => true) "Query" false []
          spreadTwice key := by
  obtain ⟨document, hcompile⟩ := exists_compile_spreadTwice
  have htype : "Query" ∈ Schema.twoFields.possibleTypes "Query" := by decide
  exact ⟨document, _, hcompile, rfl, htype,
    (collects_iff_collects_first hcompile rfl htype fun _ => true).1⟩

/-- The key of the fragment's field is lost, although the second spread is not excluded. -/
theorem not_collects_spreadTwice :
    ∃ document set, Document.compile Schema.twoFields {} none spreadTwiceDocument = .ok document ∧
      SelectionSet.ofSource Schema.twoFields (spreadTwiceDocument.prepared {}).fragmentType? "Query"
        spreadTwice = .ok set ∧
      (spreadTwiceDocument.prepared {}).Collects Schema.twoFields (fun _ => true) "Query" true []
        spreadTwice "a" ∧
      ¬document.Collects (fun _ => true) "Query" set.selections "a" := by
  obtain ⟨document, hcompile⟩ := exists_compile_spreadTwice
  have honly : ∀ head key, document.Collects (fun _ => true) "Query" [.leaf head] key →
      head.responseKey = key := by
    intro head key hcollects
    cases hcollects with
    | leaf => rfl
    | later hrest => cases hrest
  refine ⟨document, _, hcompile, rfl, ?_, fun hcollects => ?_⟩
  · exact .later (.later (.spread (Or.inl rfl) (by decide) rfl (by decide) (.field (by decide))))
  · exact absurd (honly _ _ hcollects) (by decide)

end QueryShape.Typed
