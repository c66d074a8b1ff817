import QueryShape.Proofs.Flat.Coverage
import QueryShape.Proofs.Flat.Listed
import QueryShape.Proofs.Flat.Merged
import QueryShape.Proofs.Typed.Following

/-!
# Merging fragments in and following the listed ones

A selection set can be flattened with its fragments merged in, or on its own with the fragments
listed beside it. Following the listed fragments shows the same response keys as merging them in.
-/

set_option autoImplicit false

namespace QueryShape.Flat

open Typed (SelectionSet)

section

variable {options : Options} {document : Typed.Document} {set : SelectionSet} {node : Selection}
  {type : String}

theorem exists_listed? (hclosed : document.IsClosed) (hset : document.Defines set.selections)
    (hseparate : options.mergeSpreadFields = false)
    (hnode : flatten options document set = .ok node) (htype : type ∈ set.possibleTypes) :
    ∃ names, (Node.selection node).listed? type = some names ∧
      ∀ name, name ∈ names ↔ Typed.Selection.Spreads [type] set.selections name := by
  have hacyclic : options.mergeSpreadFields = true → document.IsAcyclic := by simp [hseparate]
  have htypeCase : typeCaseOf options document set = .ok set.typeCase := by
    rw [typeCaseOf, hseparate]
    rfl
  rw [flatten_eq hclosed hacyclic hset] at hnode
  obtain ⟨record, hrecord, hin⟩ := set.sorts_typeCase.partition.covered type htype
  obtain ⟨_, hlisted⟩ := listed?_of_flattenStep hnode htypeCase hrecord hin
  refine ⟨_, hlisted, fun name => ?_⟩
  -- Without an inline fragment the node answers, which lists what applies to all of its types.
  split
  · exact SelectionSet.mem_spreadNamesFor
  · rename_i hneeds
    rw [SelectionSet.spreadNames, SelectionSet.mem_spreadNamesFor]
    constructor
    · exact fun h => h.mono (List.forall_mem_singleton.mpr htype)
    · exact spreads_all_of_not_needs hrecord (by simpa using hneeds) hin

end

/-- The fragment of the name, flattened on its own, shows a field for the type under the key. -/
def FragmentShows (options : Options) (document : Typed.Document) (type key name : String) : Prop :=
  ∃ fragment node, document.fragment? name = some fragment ∧
    flatten options document fragment.selectionSet = .ok node ∧ (node.fieldFor? type key).isSome

section

variable {schema : Schema} {options : Options} {document : Typed.Document} {set : SelectionSet}
  {type : String} (hsound : document.IsSound schema) (hnames : document.HasNames)
  (hmerge : options.mergeSpreadFields = true)
include hsound hnames hmerge

theorem fragmentShows_iff {key name : String} {fragment : Typed.Fragment}
    (hfragment : document.fragment? name = some fragment)
    (htype : type ∈ fragment.selectionSet.possibleTypes) :
    FragmentShows options document type key name ↔
      document.FragmentSelects type key name := by
  have hset := (Typed.Document.hasSet_of_fragment? hfragment).composes
  have hdefines := hset.defines hsound.closed
  obtain ⟨node, hnode⟩ := exists_flatten hsound.closed (fun _ => hsound.acyclic) hdefines
  obtain ⟨selected, hselects⟩ : ∃ selected, document.Selects true type []
      fragment.selectionSet.possibleTypes fragment.selectionSet.selections selected :=
    Typed.Document.exists_selects hsound.closed (fun _ => hsound.acyclic) hdefines type _
  rw [Typed.Document.fragmentSelects_iff hsound.closed hsound.acyclic hfragment hselects,
    ← isSome_fieldFor? hsound hnames hset hnode htype (hmerge ▸ hselects) key]
  constructor
  · rintro ⟨other, otherNode, hother, hotherNode, hshown⟩
    obtain rfl := Option.some.inj (hfragment.symm.trans hother)
    obtain rfl := Except.ok.inj (hnode.symm.trans hotherNode)
    exact hshown
  · exact fun hshown => ⟨fragment, node, hfragment, hnode, hshown⟩

theorem isSome_fieldFor?_merging (hset : document.HasSet set) {node : Selection}
    (hnode : flatten options document set = .ok node) (htype : type ∈ set.possibleTypes)
    (key : String) :
    (node.fieldFor? type key).isSome ↔
      (∃ member ∈ set.selectedFor type, member.field.responseKey = key) ∨
      ∃ name, Typed.Selection.Spreads [type] set.selections name ∧
        FragmentShows options document type key name := by
  have hfits := hsound.fits set hset
  obtain ⟨selected, hselects⟩ : ∃ selected,
      document.Selects true type [] set.possibleTypes set.selections selected :=
    Typed.Document.exists_selects hsound.closed (fun _ => hsound.acyclic)
      (hset.defines hsound.closed) type _
  rw [isSome_fieldFor? hsound hnames hset.composes hnode htype (hmerge ▸ hselects) key,
    hselects.exists_key_iff hsound.closed hsound.acyclic hfits htype htype]
  apply or_congr Iff.rfl
  apply exists_congr
  intro name
  rw [Typed.Selection.mem_allSpreadsFor]
  apply and_congr_right
  intro hspreads
  obtain ⟨fragment, hfragment, happlies⟩ := hspreads.exists_fragment hfits htype
  exact (fragmentShows_iff hsound hnames hmerge hfragment happlies).symm

end

variable {schema : Schema} {compileOptions : Options} {filePath : Option String}
  {source : Source.Document} {document : Typed.Document} {set : SelectionSet}

/-- For each possible type of the set the keys that are shown with fragments merged in are those
that are shown without, and those that are shown by the fragments that are listed without, of which
each applies to the type. -/
def ShowsFollowed (options : Options) (document : Typed.Document) (set : SelectionSet)
    (merging separate : Selection) : Prop :=
  ∀ type ∈ set.possibleTypes, ∃ names,
    (Node.selection separate).listed? type = some names ∧
    (∀ name ∈ names, ∃ fragment node, document.fragment? name = some fragment ∧
      type ∈ fragment.selectionSet.possibleTypes ∧
      flatten { options with mergeSpreadFields := true } document fragment.selectionSet =
        .ok node) ∧
    ∀ key, (merging.fieldFor? type key).isSome ↔
      (separate.fieldFor? type key).isSome ∨
      ∃ name ∈ names,
        FragmentShows { options with mergeSpreadFields := true } document type key name

theorem exists_showsFollowed (hsound : document.IsSound schema) (hnames : document.HasNames)
    (hset : document.HasSet set) (options : Options) :
    ∃ merging separate,
      flatten { options with mergeSpreadFields := true } document set = .ok merging ∧
      flatten { options with mergeSpreadFields := false } document set = .ok separate ∧
      ShowsFollowed options document set merging separate := by
  have hdefines := hset.defines hsound.closed
  obtain ⟨merging, hmerging⟩ : ∃ node,
      flatten { options with mergeSpreadFields := true } document set = .ok node :=
    exists_flatten hsound.closed (fun _ => hsound.acyclic) hdefines
  obtain ⟨separate, hseparate⟩ : ∃ node,
      flatten { options with mergeSpreadFields := false } document set = .ok node :=
    exists_flatten hsound.closed (fun _ => hsound.acyclic) hdefines
  refine ⟨merging, separate, hmerging, hseparate, fun type htype => ?_⟩
  obtain ⟨names, hlisted, hmem⟩ := exists_listed? hsound.closed hdefines rfl hseparate htype
  refine ⟨names, hlisted, ?_, fun key => ?_⟩
  · intro name hname
    obtain ⟨fragment, hfragment, happlies⟩ :=
      ((hmem name).mp hname).exists_fragment (hsound.fits set hset) htype
    obtain ⟨node, hnode⟩ : ∃ node, flatten { options with mergeSpreadFields := true } document
        fragment.selectionSet = .ok node :=
      exists_flatten hsound.closed (fun _ => hsound.acyclic) (hsound.closed.defines hfragment)
    exact ⟨fragment, node, hfragment, happlies, hnode⟩
  have hown := isSome_fieldFor? hsound hnames hset.composes hseparate htype
    (Typed.Document.Selects.of_passing document type [] set.possibleTypes set.selections) key
  rw [isSome_fieldFor?_merging hsound hnames rfl hset hmerging htype key, hown]
  apply or_congr Iff.rfl
  apply exists_congr
  intro name
  rw [hmem]

/-- Whatever selection set of a compiled document is flattened in both ways, merging fragments in
shows what following the listed ones shows. -/
theorem shown_merging_iff_following
    (hcompile : Typed.Document.compile schema compileOptions filePath source = .ok document)
    (haliases : "" ∉ source.aliases) (hset : document.HasSet set) (options : Options) :
    ∃ merging separate,
      flatten { options with mergeSpreadFields := true } document set = .ok merging ∧
      flatten { options with mergeSpreadFields := false } document set = .ok separate ∧
      ShowsFollowed options document set merging separate :=
  exists_showsFollowed (Typed.Document.isSound_of_compile hcompile)
    (Typed.Document.hasNames_of_compile hcompile haliases) hset options

theorem shown_merging_iff_following_friends :
    ∃ (document : Typed.Document) (fragment : Typed.Fragment) (merging separate : Selection),
      Typed.Document.compile Schema.animals {} none friends = .ok document ∧
      "" ∉ friends.aliases ∧ document.HasSet fragment.selectionSet ∧
      flatten {} document fragment.selectionSet = .ok merging ∧
      flatten { mergeSpreadFields := false } document fragment.selectionSet = .ok separate ∧
      (Node.selection separate).listed? "Cat" = some ["OfCats"] ∧
      ∀ key, (merging.fieldFor? "Cat" key).isSome ↔
        (separate.fieldFor? "Cat" key).isSome ∨ FragmentShows {} document "Cat" key "OfCats" := by
  obtain ⟨document, hcompile⟩ : ∃ document,
      Typed.Document.compile Schema.animals {} none friends = .ok document :=
    Outcome.exists_eq_ok (by decide +kernel)
  have hvalues : ((Typed.Document.compile Schema.animals {} none friends).toOption.bind
      fun document => (document.fragment? "Friends").bind fun fragment =>
        (flatten { mergeSpreadFields := false } document fragment.selectionSet).toOption.map
          fun node => (fragment.selectionSet.possibleTypes,
            (Node.selection node).listed? "Cat")) =
      some (["Dog", "Cat"], some ["OfCats"]) := by decide +kernel
  rw [hcompile, Except.toOption, Option.bind_some] at hvalues
  obtain ⟨fragment, hfragment, hvalues⟩ := Option.bind_eq_some_iff.mp hvalues
  have hset := Typed.Document.hasSet_of_fragment? hfragment
  have haliases : "" ∉ friends.aliases := by decide
  obtain ⟨merging, separate, hmerging, hseparate, hall⟩ :=
    shown_merging_iff_following hcompile haliases hset {}
  obtain ⟨node, hnode, hvalues⟩ := Option.map_eq_some_iff.mp hvalues
  obtain ⟨htypes, hlisted⟩ := Prod.mk.inj hvalues
  rw [hseparate] at hnode
  obtain rfl := Option.some.inj hnode
  obtain ⟨names, hnames, _, hkeys⟩ := hall "Cat" (by simp [htypes])
  obtain rfl := Option.some.inj (hnames.symm.trans hlisted)
  refine ⟨document, fragment, merging, separate, hcompile, haliases, hset, hmerging, hseparate,
    hlisted, fun key => ?_⟩
  rw [hkeys key]
  simp

end QueryShape.Flat
