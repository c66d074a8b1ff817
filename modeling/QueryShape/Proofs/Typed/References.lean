import QueryShape.Proofs.Outcome
import QueryShape.Proofs.Typed.Fragments
import QueryShape.Typed.Identity

/-!
# References of closed documents

The references of a selection set are the fragments that it reaches through spreads, each once. If
the document is closed, all of them are found, and so are the sources of their fragments.
-/

set_option autoImplicit false

namespace QueryShape.Typed.Document

variable {document : Document}

theorem mem_fragmentNames_of_spreadsOf_ne_nil {name : String} (h : document.spreadsOf name ≠ []) :
    name ∈ document.fragmentNames := by
  cases hfragment : document.fragment? name with
  | none =>
    rw [spreadsOf, hfragment] at h
    exact absurd rfl h
  | some fragment =>
    obtain ⟨hmem, hname⟩ := mem_of_fragment? hfragment
    exact List.mem_map.mpr ⟨fragment, hmem, hname⟩

def Reaches (document : Document) (set : SelectionSet) (name : String) : Prop :=
  ∃ start ∈ set.spreads, Walk.Reaches document.spreadsOf start name

theorem mem_reachableNames {set : SelectionSet} {name : String} :
    name ∈ document.reachableNames set ↔ document.Reaches set name :=
  Walk.mem_fromAll (fun _ => mem_fragmentNames_of_spreadsOf_ne_nil)
    (by rw [fragmentNames, List.length_map])

theorem nodup_reachableNames (set : SelectionSet) : (document.reachableNames set).Nodup :=
  Walk.nodup_fromAll document.spreadsOf _ _

/-- The names if all of them have fragments, and otherwise the error for the first that has none. -/
def checked (document : Document) (names : List String) : Except FragmentError (List String) :=
  match names.find? fun name => (document.fragment? name).isNone with
  | none => .ok names
  | some name => .error (.missing name document.fragmentNames)

theorem checked_eq_ok {names listed : List String} :
    document.checked names = .ok listed ↔
      names = listed ∧ ∀ name ∈ names, (document.fragment? name).isSome := by
  have hdefined : names.find? (fun name => (document.fragment? name).isNone) = none ↔
      ∀ name ∈ names, (document.fragment? name).isSome := by
    simp [Option.isSome_iff_ne_none]
  rw [checked]
  cases hmissing : names.find? fun name => (document.fragment? name).isNone with
  | none => simpa using fun _ => hdefined.mp hmissing
  | some name =>
    have hnot : ¬∀ name ∈ names, (document.fragment? name).isSome := by
      rw [← hdefined, hmissing]
      exact Option.some_ne_none name
    simp [hnot]

theorem references_eq_ok {set : SelectionSet} {names : List String} :
    document.references set = .ok names ↔ document.reachableNames set = names ∧
      ∀ name ∈ document.reachableNames set, (document.fragment? name).isSome :=
  checked_eq_ok

section

variable {set : SelectionSet} (hclosed : document.IsClosed) (hset : document.Defines set.selections)
include hclosed hset

theorem isSome_of_mem_reachableNames {name : String} (h : name ∈ document.reachableNames set) :
    (document.fragment? name).isSome := by
  obtain ⟨start, hstart, hreaches⟩ := mem_reachableNames.mp h
  induction hreaches with
  | refl => exact hset start hstart
  | @tail previous next _ hstep _ =>
    cases hfragment : document.fragment? previous with
    | none =>
      rw [spreadsOf, hfragment] at hstep
      cases hstep
    | some fragment =>
      rw [spreadsOf_eq hfragment] at hstep
      exact hclosed.defines hfragment next hstep

theorem references_eq : document.references set = .ok (document.reachableNames set) :=
  references_eq_ok.mpr ⟨rfl, fun _ => isSome_of_mem_reachableNames hclosed hset⟩

theorem exists_identityWith (operation : Operation) :
    ∃ fragments, (document.reachableNames set).mapM document.requireFragment = .ok fragments ∧
      document.identityWith operation (document.reachableNames set) =
        .ok (.ofSource ("\n".intercalate (operation.source :: fragments.map (·.source)))) := by
  obtain ⟨fragments, hfragments⟩ := Outcome.exists_mapM_eq_ok fun name hname => by
    have hfound := isSome_of_mem_reachableNames hclosed hset hname
    obtain ⟨fragment, hfragment⟩ := Option.isSome_iff_exists.mp hfound
    exact ⟨fragment, requireFragment_eq_ok.mpr hfragment⟩
  refine ⟨fragments, hfragments, ?_⟩
  rw [identityWith, hfragments]
  rfl

end

end QueryShape.Typed.Document
