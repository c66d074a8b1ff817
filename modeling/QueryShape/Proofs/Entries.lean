import Mathlib.Data.List.Basic
import Mathlib.Data.List.Induction
import QueryShape.Data
import QueryShape.Distinct

/-!
# Entries under distinct keys

Setting one entry after another leaves every key once, where it first occurs and with the value that
it has last. Entries whose keys are distinct are left as they are.
-/

set_option autoImplicit false

namespace QueryShape.Data

variable {α β : Type}

def lastEntries (entries : List (String × α)) : List (String × α) :=
  (distinct (entries.map (·.1))).filterMap fun key => entries.reverse.find? (·.1 == key)

theorem insertEntry_of_not_mem {entries : List (String × α)} {key : String}
    (h : key ∉ entries.map (·.1)) (value : α) :
    insertEntry entries key value = entries ++ [(key, value)] := by
  induction entries with
  | nil => rfl
  | cons entry rest ih =>
    obtain ⟨hne, hrest⟩ := not_or.mp (List.mem_cons.not.mp h)
    rw [insertEntry, if_neg (Ne.symm hne), ih hrest, List.cons_append]

theorem insertEntry_of_mem {entries : List (String × α)} (hkeys : (entries.map (·.1)).Nodup)
    {key : String} (h : key ∈ entries.map (·.1)) (value : α) :
    insertEntry entries key value =
      entries.map fun entry => if entry.1 = key then (key, value) else entry := by
  induction entries with
  | nil => cases h
  | cons entry rest ih =>
    obtain ⟨hnew, hrest⟩ := List.nodup_cons.mp hkeys
    by_cases hentry : entry.1 = key
    · have hothers : ∀ other ∈ rest, (if other.1 = key then (key, value) else other) = other := by
        intro other hother
        refine if_neg fun hother' => hnew ?_
        exact List.mem_map.mpr ⟨other, hother, hother'.trans hentry.symm⟩
      rw [insertEntry, if_pos hentry, List.map_cons, if_pos hentry, List.map_congr_left hothers,
        List.map_id']
    · have hlater := (List.mem_cons.mp h).resolve_left (Ne.symm hentry)
      rw [insertEntry, if_neg hentry, List.map_cons, if_neg hentry, ih hrest hlater]

theorem distinctEntries_eq_self {entries : List (String × α)} (h : (entries.map (·.1)).Nodup) :
    distinctEntries entries = entries := by
  induction entries using List.reverseRecOn with
  | nil => rfl
  | append_singleton entries entry ih =>
    rw [List.map_append, List.nodup_append] at h
    obtain ⟨hentries, _, hapart⟩ := h
    have hnew : entry.1 ∉ entries.map (·.1) :=
      fun hmem => hapart _ hmem _ (List.mem_singleton.mpr rfl) rfl
    have hbefore := ih hentries
    rw [distinctEntries] at hbefore ⊢
    rw [List.foldl_append, hbefore]
    exact insertEntry_of_not_mem hnew entry.2

theorem exists_last_of_mem {entries : List (String × α)} {key : String}
    (h : key ∈ entries.map (·.1)) :
    ∃ value, entries.reverse.find? (·.1 == key) = some (key, value) := by
  obtain ⟨entry, hentry, rfl⟩ := List.mem_map.mp h
  have hsome : (entries.reverse.find? (·.1 == entry.1)).isSome = true :=
    List.find?_isSome.mpr ⟨entry, List.mem_reverse.mpr hentry, by simp⟩
  obtain ⟨⟨key, value⟩, hfind⟩ := Option.isSome_iff_exists.mp hsome
  have hkey : key = entry.1 := by simpa using List.find?_some hfind
  exact ⟨value, by rw [hfind, hkey]⟩

theorem map_key_lastEntries (entries : List (String × α)) :
    (lastEntries entries).map (·.1) = distinct (entries.map (·.1)) := by
  have hkeys : ∀ key ∈ distinct (entries.map (·.1)),
      (entries.reverse.find? (·.1 == key)).map (·.1) = some key := by
    intro key hkey
    obtain ⟨value, hfind⟩ := exists_last_of_mem (mem_distinct.mp hkey)
    rw [hfind, Option.map_some]
  rw [lastEntries, List.map_filterMap, List.filterMap_congr hkeys, List.filterMap_some]

theorem lastEntries_append_singleton (entries : List (String × α)) (key : String) (value : α) :
    lastEntries (entries ++ [(key, value)]) = insertEntry (lastEntries entries) key value := by
  have hkeys : ((lastEntries entries).map (·.1)).Nodup := by
    rw [map_key_lastEntries]
    exact nodup_distinct _
  have hmem : key ∈ (lastEntries entries).map (·.1) ↔ key ∈ entries.map (·.1) := by
    rw [map_key_lastEntries, mem_distinct]
  rw [lastEntries, List.map_append, List.reverse_append, List.map_singleton, List.reverse_singleton,
    List.singleton_append, distinct_append_singleton]
  by_cases h : key ∈ entries.map (·.1)
  · rw [if_pos h, insertEntry_of_mem hkeys (hmem.mpr h), lastEntries, List.map_filterMap]
    apply List.filterMap_congr
    intro other hother
    obtain ⟨last, hlast⟩ := exists_last_of_mem (mem_distinct.mp hother)
    by_cases hsame : key = other
    · simp [hsame, hlast]
    · simp [hsame, hlast, Ne.symm hsame]
  · rw [if_neg h, insertEntry_of_not_mem (hmem.not.mpr h), List.filterMap_append]
    congr 1
    · apply List.filterMap_congr
      intro other hother
      have hne : key ≠ other := fun heq => h (heq ▸ mem_distinct.mp hother)
      rw [List.find?_cons_of_neg (by simpa using hne)]
    · simp

/-- Entries that are set one after another end up as the last ones of their keys. -/
theorem distinctEntries_eq (entries : List (String × α)) :
    distinctEntries entries = lastEntries entries := by
  induction entries using List.reverseRecOn with
  | nil => rfl
  | append_singleton entries entry ih =>
    rw [lastEntries_append_singleton, ← ih, distinctEntries, List.foldl_append]
    rfl

theorem lastEntries_map (f : α → β) (entries : List (String × α)) :
    lastEntries (entries.map (Prod.map id f)) = (lastEntries entries).map (Prod.map id f) := by
  rw [lastEntries, lastEntries, List.map_filterMap, List.map_map]
  apply List.filterMap_congr
  intro key _
  rw [← List.map_reverse, List.find?_map]
  rfl

theorem mem_of_mem_lastEntries {entries : List (String × α)} {entry : String × α}
    (h : entry ∈ lastEntries entries) : entry ∈ entries := by
  obtain ⟨key, -, hfind⟩ := List.mem_filterMap.mp h
  exact List.mem_reverse.mp (List.mem_of_find?_eq_some hfind)

end QueryShape.Data
