import Mathlib.Data.List.Induction
import Mathlib.Data.List.Nodup
import QueryShape.Options
import QueryShape.Proofs.Outcome

/-!
# Reading options

Pairs of names and values are read if every name is a spelling of some setting, no setting is
spelled twice, and boolean settings get booleans. The result then depends on which settings are
given and on their values, but not on spellings or on the order of the pairs. If reading fails, the
first pair that does not fit to those before it decides the error.
-/

set_option autoImplicit false

namespace QueryShape

namespace Setting

/-- The name is one of the two spellings of the setting. -/
def Spells (setting : Setting) (name : String) : Prop :=
  name = setting.camelName ∨ name = setting.snakeName

instance (setting : Setting) (name : String) : Decidable (setting.Spells name) :=
  inferInstanceAs (Decidable (_ ∨ _))

def isBoolean : Setting → Bool
  | customScalarsPrefix | namespaceValue => false
  | _ => true

def Accepts (setting : Setting) (value : Data) : Prop :=
  setting.isBoolean = true → ∃ decided, value = .bool decided

theorem mem_all (setting : Setting) : setting ∈ all := by
  cases setting <;> decide

theorem ofName?_eq_some {name : String} {setting : Setting} :
    ofName? name = some setting ↔ setting.Spells name := by
  constructor
  · intro h
    simpa [Spells] using List.find?_some h
  · rintro (rfl | rfl) <;> cases setting <;> decide

theorem ofName?_eq_none {name : String} :
    ofName? name = none ↔ ∀ setting : Setting, ¬setting.Spells name := by
  rw [Option.eq_none_iff_forall_ne_some]
  exact forall_congr' fun setting => not_congr ofName?_eq_some

theorem Spells.eq {setting other : Setting} {name : String} (h : setting.Spells name)
    (hother : other.Spells name) : setting = other :=
  Option.some.inj ((ofName?_eq_some.mpr h).symm.trans (ofName?_eq_some.mpr hother))

def spelling (setting : Setting) (inCamelCase : Bool) : String :=
  if inCamelCase then setting.camelName else setting.snakeName

theorem spells_spelling (setting : Setting) (inCamelCase : Bool) :
    setting.Spells (setting.spelling inCamelCase) := by
  cases inCamelCase
  · exact Or.inr rfl
  · exact Or.inl rfl

end Setting

namespace Options

def get (options : Options) : Setting → Data
  | .addTypename => .bool options.addTypename
  | .mergeSpreadFields => .bool options.mergeSpreadFields
  | .passthroughCustomScalars => .bool options.passthroughCustomScalars
  | .customScalarsPrefix => options.customScalarsPrefix
  | .namespaceValue => options.namespaceValue
  | .generateOperationIds => .bool options.generateOperationIds
  | .omitEmptyInlineFragments => .bool options.omitEmptyInlineFragments

theorem eq_of_get {options others : Options}
    (h : ∀ setting, options.get setting = others.get setting) : options = others := by
  have haddTypename := h .addTypename
  have hmergeSpreadFields := h .mergeSpreadFields
  have hpassthrough := h .passthroughCustomScalars
  have hprefix := h .customScalarsPrefix
  have hnamespace := h .namespaceValue
  have hids := h .generateOperationIds
  have homit := h .omitEmptyInlineFragments
  cases options
  cases others
  simp_all [get]

theorem accepts_get (options : Options) (setting : Setting) :
    setting.Accepts (options.get setting) := by
  intro hboolean
  cases setting with
  | customScalarsPrefix | namespaceValue => cases hboolean
  | addTypename | mergeSpreadFields | passthroughCustomScalars | generateOperationIds
  | omitEmptyInlineFragments => exact ⟨_, rfl⟩

theorem exists_set? (options : Options) {setting : Setting} {value : Data}
    (h : setting.Accepts value) : ∃ changed, options.set? setting value = some changed := by
  cases setting with
  | customScalarsPrefix | namespaceValue => exact ⟨_, rfl⟩
  | addTypename | mergeSpreadFields | passthroughCustomScalars | generateOperationIds
  | omitEmptyInlineFragments =>
    obtain ⟨decided, rfl⟩ := h rfl
    exact ⟨_, rfl⟩

theorem accepts_of_set? {options changed : Options} {setting : Setting} {value : Data}
    (h : options.set? setting value = some changed) : setting.Accepts value := by
  intro hboolean
  cases setting with
  | customScalarsPrefix | namespaceValue => cases hboolean
  | addTypename | mergeSpreadFields | passthroughCustomScalars | generateOperationIds
  | omitEmptyInlineFragments =>
    cases value with
    | bool decided => exact ⟨decided, rfl⟩
    | null | int _ | float _ | string _ | list _ | object _ => cases h

theorem get_of_set? {options changed : Options} {setting : Setting} {value : Data}
    (h : options.set? setting value = some changed) (other : Setting) :
    changed.get other = if other = setting then value else options.get other := by
  have haccepts := accepts_of_set? h
  cases setting with
  | customScalarsPrefix | namespaceValue =>
    obtain rfl := Option.some.inj h
    cases other <;> rfl
  | addTypename | mergeSpreadFields | passthroughCustomScalars | generateOperationIds
  | omitEmptyInlineFragments =>
    obtain ⟨decided, rfl⟩ := haccepts rfl
    obtain rfl := Option.some.inj h
    cases other <;> rfl

/-- Every name is a spelling, no two names spell one setting, and every value is accepted. -/
structure AreConsistent (pairs : List (String × Data)) : Prop where
  known : ∀ pair ∈ pairs, ∃ setting : Setting, setting.Spells pair.1
  distinct : pairs.Pairwise fun first second =>
    ∀ setting : Setting, setting.Spells first.1 → ¬setting.Spells second.1
  accepted : ∀ pair ∈ pairs, ∀ setting : Setting, setting.Spells pair.1 → setting.Accepts pair.2

/-- The options have the values given in the pairs, and the defaults of all other settings. -/
structure Takes (options : Options) (pairs : List (String × Data)) : Prop where
  given : ∀ pair ∈ pairs, ∀ setting : Setting, setting.Spells pair.1 →
    options.get setting = pair.2
  default : ∀ setting : Setting, (∀ pair ∈ pairs, ¬setting.Spells pair.1) →
    options.get setting = ({} : Options).get setting

/-- Why a pair cannot be read after others. That its name is unknown comes before anything else, and
that its setting was given before comes before its value. -/
inductive FailsAfter (earlier : List (String × Data)) : String × Data → OptionError → Prop
  | unknown {name : String} {value : Data} (hname : ∀ setting : Setting, ¬setting.Spells name) :
      FailsAfter earlier (name, value) (.unknown name)
  | repeated {setting : Setting} {name : String} {value : Data} (hname : setting.Spells name)
      (hagain : ∃ pair ∈ earlier, setting.Spells pair.1) :
      FailsAfter earlier (name, value) (.repeated setting)
  | notBoolean {setting : Setting} {name : String} {value : Data} (hname : setting.Spells name)
      (hnew : ∀ pair ∈ earlier, ¬setting.Spells pair.1) (hvalue : ¬setting.Accepts value) :
      FailsAfter earlier (name, value) (.notBoolean name value)

def givenIn (pairs : List (String × Data)) : List Setting :=
  pairs.filterMap fun pair => Setting.ofName? pair.1

theorem mem_givenIn {pairs : List (String × Data)} {setting : Setting} :
    setting ∈ givenIn pairs ↔ ∃ pair ∈ pairs, setting.Spells pair.1 := by
  simp [givenIn, List.mem_filterMap, Setting.ofName?_eq_some]

theorem readFrom_append (given : List Setting) (options : Options)
    (pairs others : List (String × Data)) :
    readFrom given options (pairs ++ others) =
      readFrom given options pairs >>= fun read =>
        readFrom ((givenIn pairs).reverse ++ given) read others := by
  induction pairs generalizing given options with
  | nil => rfl
  | cons pair rest ih =>
    obtain ⟨name, value⟩ := pair
    rw [List.cons_append, readFrom, readFrom, givenIn, List.filterMap_cons]
    cases Setting.ofName? name with
    | none => rfl
    | some setting =>
      simp only
      split
      · rfl
      · cases options.set? setting value with
        | none => rfl
        | some changed =>
          simp only [ih, givenIn, List.reverse_cons, List.append_assoc, List.singleton_append]

theorem readFrom_singleton_eq_ok {given : List Setting} {options changed : Options} {name : String}
    {value : Data} :
    readFrom given options [(name, value)] = .ok changed ↔
      ∃ setting : Setting, setting.Spells name ∧ setting ∉ given ∧
        options.set? setting value = some changed := by
  simp only [← Setting.ofName?_eq_some]
  rw [readFrom]
  cases Setting.ofName? name with
  | none => simp
  | some setting =>
    by_cases hgiven : setting ∈ given
    · simp [hgiven]
    · cases hset : options.set? setting value <;> simp [hgiven, hset, readFrom]

theorem readFrom_singleton_eq_error {earlier : List (String × Data)} {options : Options}
    {pair : String × Data} {error : OptionError} :
    readFrom (givenIn earlier).reverse options [pair] = .error error ↔
      FailsAfter earlier pair error := by
  obtain ⟨name, value⟩ := pair
  rw [readFrom]
  constructor
  · intro h
    cases hname : Setting.ofName? name with
    | none =>
      rw [hname] at h
      obtain rfl := Except.error.inj h
      exact .unknown (Setting.ofName?_eq_none.mp hname)
    | some setting =>
      have hspells := Setting.ofName?_eq_some.mp hname
      simp only [hname, List.mem_reverse, mem_givenIn] at h
      split at h
      · rename_i hagain
        obtain rfl := Except.error.inj h
        exact .repeated hspells hagain
      · rename_i hnew
        cases hset : options.set? setting value with
        | none =>
          rw [hset] at h
          obtain rfl := Except.error.inj h
          refine .notBoolean hspells (fun pair hpair hsame => hnew ⟨pair, hpair, hsame⟩) ?_
          intro haccepts
          obtain ⟨changed, hchanged⟩ := exists_set? options haccepts
          rw [hset] at hchanged
          cases hchanged
        | some changed =>
          rw [hset] at h
          cases h
  · rintro (hname | ⟨hspells, hagain⟩ | ⟨hspells, hnew, hvalue⟩)
    · rw [Setting.ofName?_eq_none.mpr hname]
    · rw [Setting.ofName?_eq_some.mpr hspells]
      exact if_pos (by simpa [mem_givenIn] using hagain)
    · rw [Setting.ofName?_eq_some.mpr hspells]
      refine (if_neg (by simpa [mem_givenIn] using hnew)).trans ?_
      cases hset : options.set? _ value with
      | none => rfl
      | some changed => exact absurd (accepts_of_set? hset) hvalue

theorem read_append_singleton (pairs : List (String × Data)) (pair : String × Data) :
    read (pairs ++ [pair]) =
      read pairs >>= fun options => readFrom (givenIn pairs).reverse options [pair] := by
  rw [read, readFrom_append, List.append_nil]
  rfl

namespace AreConsistent

variable {pairs others : List (String × Data)}

theorem perm (h : AreConsistent pairs) (hperm : pairs.Perm others) : AreConsistent others where
  known pair hpair := h.known pair (hperm.mem_iff.mpr hpair)
  distinct := h.distinct.perm hperm fun hapart setting hsecond hfirst =>
    hapart setting hfirst hsecond
  accepted pair hpair := h.accepted pair (hperm.mem_iff.mpr hpair)

theorem append_singleton {pair : String × Data} :
    AreConsistent (pairs ++ [pair]) ↔ AreConsistent pairs ∧
      ∃ setting : Setting, setting.Spells pair.1 ∧ (∀ other ∈ pairs, ¬setting.Spells other.1) ∧
        setting.Accepts pair.2 := by
  constructor
  · rintro ⟨hknown, hdistinct, haccepted⟩
    rw [List.forall_mem_append, List.forall_mem_singleton] at hknown haccepted
    obtain ⟨hpairs, -, hapart⟩ := List.pairwise_append.mp hdistinct
    obtain ⟨setting, hspells⟩ := hknown.2
    refine ⟨⟨hknown.1, hpairs, haccepted.1⟩, setting, hspells, fun other hother hsame => ?_,
      haccepted.2 setting hspells⟩
    exact hapart other hother pair (List.mem_singleton.mpr rfl) setting hsame hspells
  · rintro ⟨⟨hknown, hdistinct, haccepted⟩, setting, hspells, hnew, haccepts⟩
    constructor
    · rw [List.forall_mem_append, List.forall_mem_singleton]
      exact ⟨hknown, setting, hspells⟩
    · refine List.pairwise_append.mpr ⟨hdistinct, List.pairwise_singleton _ _, ?_⟩
      intro other hother last hlast same hsame hlastSpells
      obtain rfl := List.mem_singleton.mp hlast
      exact hnew other hother (hspells.eq hlastSpells ▸ hsame)
    · rw [List.forall_mem_append, List.forall_mem_singleton]
      exact ⟨haccepted, fun same hsame => hspells.eq hsame ▸ haccepts⟩

end AreConsistent

namespace Takes

variable {options others : Options} {pairs : List (String × Data)}

theorem eq (h : options.Takes pairs) (hothers : others.Takes pairs) : options = others := by
  apply eq_of_get
  intro setting
  by_cases hgiven : ∃ pair ∈ pairs, setting.Spells pair.1
  · obtain ⟨pair, hpair, hspells⟩ := hgiven
    rw [h.given pair hpair setting hspells, hothers.given pair hpair setting hspells]
  · push Not at hgiven
    rw [h.default setting hgiven, hothers.default setting hgiven]

theorem perm (h : options.Takes pairs) {more : List (String × Data)} (hperm : pairs.Perm more) :
    options.Takes more where
  given pair hpair := h.given pair (hperm.mem_iff.mpr hpair)
  default setting hnot := h.default setting fun pair hpair => hnot pair (hperm.mem_iff.mp hpair)

theorem append_singleton (h : options.Takes pairs) {pair : String × Data} {setting : Setting}
    (hspells : setting.Spells pair.1) (hnew : ∀ other ∈ pairs, ¬setting.Spells other.1)
    (hset : options.set? setting pair.2 = some others) : others.Takes (pairs ++ [pair]) where
  given other hother same hsame := by
    rw [get_of_set? hset]
    rcases List.mem_append.mp hother with hother | hother
    · have hne : same ≠ setting := fun heq => hnew other hother (heq ▸ hsame)
      rw [if_neg hne, h.given other hother same hsame]
    · obtain rfl := List.mem_singleton.mp hother
      rw [if_pos (hsame.eq hspells)]
  default other hnot := by
    rw [List.forall_mem_append, List.forall_mem_singleton] at hnot
    have hne : other ≠ setting := fun heq => hnot.2 (heq ▸ hspells)
    rw [get_of_set? hset, if_neg hne, h.default other hnot.1]

end Takes

theorem takes_of_read {pairs : List (String × Data)} {options : Options}
    (h : read pairs = .ok options) : AreConsistent pairs ∧ options.Takes pairs := by
  induction pairs using List.reverseRecOn generalizing options with
  | nil =>
    obtain rfl := Except.ok.inj h
    exact ⟨⟨by simp, .nil, by simp⟩, by simp, fun _ _ => rfl⟩
  | append_singleton pairs pair ih =>
    rw [read_append_singleton, Outcome.bind_eq_ok] at h
    obtain ⟨earlier, hearlier, hpair⟩ := h
    obtain ⟨hconsistent, htakes⟩ := ih hearlier
    obtain ⟨setting, hspells, hnew, hset⟩ := readFrom_singleton_eq_ok.mp hpair
    have hnew : ∀ other ∈ pairs, ¬setting.Spells other.1 := by
      simpa [mem_givenIn] using hnew
    exact ⟨AreConsistent.append_singleton.mpr
        ⟨hconsistent, setting, hspells, hnew, accepts_of_set? hset⟩,
      htakes.append_singleton hspells hnew hset⟩

theorem exists_read {pairs : List (String × Data)} (h : AreConsistent pairs) :
    ∃ options, read pairs = .ok options := by
  induction pairs using List.reverseRecOn with
  | nil => exact ⟨{}, rfl⟩
  | append_singleton pairs pair ih =>
    obtain ⟨hconsistent, setting, hspells, hnew, haccepts⟩ := AreConsistent.append_singleton.mp h
    obtain ⟨earlier, hearlier⟩ := ih hconsistent
    obtain ⟨changed, hchanged⟩ := exists_set? earlier haccepts
    refine ⟨changed, ?_⟩
    rw [read_append_singleton, hearlier]
    exact readFrom_singleton_eq_ok.mpr
      ⟨setting, hspells, by simpa [mem_givenIn] using hnew, hchanged⟩

theorem read_eq_ok {pairs : List (String × Data)} {options : Options} :
    read pairs = .ok options ↔ AreConsistent pairs ∧ options.Takes pairs := by
  refine ⟨takes_of_read, fun ⟨hconsistent, htakes⟩ => ?_⟩
  obtain ⟨others, hothers⟩ := exists_read hconsistent
  rw [hothers, (takes_of_read hothers).2.eq htakes]

/-- The first pair that fails after those before it decides the error. -/
theorem read_eq_error {pairs : List (String × Data)} {error : OptionError} :
    read pairs = .error error ↔ ∃ earlier pair later, pairs = earlier ++ pair :: later ∧
      AreConsistent earlier ∧ FailsAfter earlier pair error := by
  constructor
  · intro h
    induction pairs using List.reverseRecOn with
    | nil => cases h
    | append_singleton pairs last ih =>
      rw [read_append_singleton] at h
      cases hread : read pairs with
      | error other =>
        rw [hread] at h
        obtain ⟨earlier, pair, later, rfl, hearlier, hfails⟩ := ih (h ▸ hread)
        exact ⟨earlier, pair, later ++ [last], by simp, hearlier, hfails⟩
      | ok options =>
        rw [hread] at h
        exact ⟨pairs, last, [], rfl, (takes_of_read hread).1, readFrom_singleton_eq_error.mp h⟩
  · rintro ⟨earlier, pair, later, rfl, hearlier, hfails⟩
    obtain ⟨options, hoptions⟩ := exists_read hearlier
    have hpair : read (earlier ++ [pair]) = .error error := by
      rw [read_append_singleton, hoptions]
      exact readFrom_singleton_eq_error.mpr hfails
    rw [List.append_cons, read, readFrom_append, ← read, hpair]
    rfl

/-- Options are read back from their values, whatever the spellings and the order. -/
theorem read_spelled (options : Options) (inCamelCase : Setting → Bool) {settings : List Setting}
    (h : settings.Perm Setting.all) :
    read (settings.map fun setting =>
      (setting.spelling (inCamelCase setting), options.get setting)) = .ok options := by
  have hspells : ∀ {setting other : Setting},
      other.Spells (setting.spelling (inCamelCase setting)) → other = setting :=
    fun hother => hother.eq (Setting.spells_spelling _ _)
  refine read_eq_ok.mpr ⟨⟨?_, ?_, ?_⟩, ?_, ?_⟩
  · rw [List.forall_mem_map]
    exact fun setting _ => ⟨setting, setting.spells_spelling _⟩
  · have hnodup : settings.Nodup := h.nodup_iff.mpr (by decide)
    rw [List.pairwise_map]
    refine hnodup.imp fun {first second} hne setting hfirst hsecond => hne ?_
    rw [← hspells hfirst, ← hspells hsecond]
  · rw [List.forall_mem_map]
    intro setting _ other hother
    rw [hspells hother]
    exact options.accepts_get setting
  · rw [List.forall_mem_map]
    intro setting _ other hother
    rw [hspells hother]
  · intro setting hnot
    have hmem : setting ∈ settings := h.mem_iff.mpr setting.mem_all
    exact absurd (setting.spells_spelling _) (hnot _ (List.mem_map_of_mem hmem))

/-- Pairs are read exactly if they are consistent, to the options that take them, so that neither
their order nor the spellings matter to what is read. Else the first pair that fails after those
before it decides the error. -/
theorem read_accepts_consistent :
    (∀ pairs : List (String × Data),
      ((∃ options, read pairs = .ok options) ↔ AreConsistent pairs) ∧
      (∀ options, read pairs = .ok options →
        options.Takes pairs ∧ ∀ others, pairs.Perm others → read others = .ok options) ∧
      ∀ error, read pairs = .error error ↔ ∃ earlier pair later, pairs = earlier ++ pair :: later ∧
        AreConsistent earlier ∧ FailsAfter earlier pair error) ∧
    ∀ (options : Options) (inCamelCase : Setting → Bool) (settings : List Setting),
      settings.Perm Setting.all →
        read (settings.map fun setting =>
          (setting.spelling (inCamelCase setting), options.get setting)) = .ok options := by
  refine ⟨fun pairs => ⟨?_, ?_, fun error => read_eq_error⟩, fun options inCamelCase settings h =>
    read_spelled options inCamelCase h⟩
  · exact ⟨fun ⟨options, hread⟩ => (takes_of_read hread).1, exists_read⟩
  · intro options hread
    obtain ⟨hconsistent, htakes⟩ := takes_of_read hread
    refine ⟨htakes, fun others hperm => ?_⟩
    exact read_eq_ok.mpr ⟨hconsistent.perm hperm, htakes.perm hperm⟩

theorem read_accepts_consistent_twoPairs :
    (∃ options, read [("namespace", .string "api"), ("addTypename", .bool true)] = .ok options ∧
      options.addTypename = true ∧ options.namespaceValue.display = "api" ∧
      options.mergeSpreadFields = true ∧
      read [("addTypename", .bool true), ("namespace", .string "api")] = .ok options) ∧
    (∃ error, read [("addTypename", .bool true), ("add_typename", .null), ("mode", .null)] =
      .error error ∧ error.message = "Compiler option add_typename was specified more than once.") ∧
    Setting.all.reverse.Perm Setting.all ∧
    read (Setting.all.reverse.map fun setting =>
      (setting.spelling (setting == .addTypename),
        ({ addTypename := true } : Options).get setting)) = .ok { addTypename := true } := by
  obtain ⟨hpairs, hspelled⟩ := read_accepts_consistent
  refine ⟨?_, ?_, List.reverse_perm _, hspelled _ (· == .addTypename) _ (List.reverse_perm _)⟩
  · obtain ⟨-, hread, -⟩ := hpairs [("namespace", .string "api"), ("addTypename", .bool true)]
    exact ⟨_, rfl, rfl, rfl, rfl, (hread _ rfl).2 _ (List.Perm.swap _ _ _)⟩
  · obtain ⟨-, -, hfails⟩ :=
      hpairs [("addTypename", .bool true), ("add_typename", .null), ("mode", .null)]
    obtain ⟨hconsistent, -, -⟩ := hpairs [("addTypename", .bool true)]
    refine ⟨.repeated .addTypename, (hfails _).mpr ⟨[("addTypename", .bool true)],
      ("add_typename", .null), [("mode", .null)], rfl, hconsistent.mp ⟨_, rfl⟩, ?_⟩, rfl⟩
    exact .repeated (Or.inr rfl) ⟨_, List.mem_singleton.mpr rfl, Or.inl rfl⟩

end Options

end QueryShape
