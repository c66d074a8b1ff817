import QueryShape.Proofs.Outcome
import QueryShape.Proofs.Source.Selections
import QueryShape.Source.Parser

/-!
# Names that are read

A token that is a name has at least one character. Since readers take all names from tokens, the
documents that are read give no empty aliases.
-/

set_option autoImplicit false

namespace QueryShape.Source.Grammar

variable {α β : Type}

/-- Where no token is an empty name, the results of the reader have a property, and no token that is
left is an empty name. -/
def Gives (reader : Reader α) (p : α → Prop) : Prop :=
  ∀ tokens, Token.name "" ∉ tokens → ∀ result rest, reader tokens = .ok (result, rest) →
    p result ∧ Token.name "" ∉ rest

abbrev Reads (reader : Reader α) : Prop :=
  Gives reader fun _ => True

section

variable {p : α → Prop}

theorem Gives.pure {result : α} (h : p result) : Gives (Pure.pure result) p := by
  intro tokens htokens other rest hrun
  cases hrun
  exact ⟨h, htokens⟩

theorem Gives.bind {q : β → Prop} {first : Reader α} {next : α → Reader β} (hfirst : Gives first p)
    (hnext : ∀ result, p result → Gives (next result) q) : Gives (first >>= next) q := by
  intro tokens htokens result rest hrun
  have hsteps : (first tokens >>= fun pair => next pair.1 pair.2) = .ok (result, rest) := hrun
  obtain ⟨⟨value, middle⟩, hvalue, hrest⟩ := Outcome.bind_eq_ok.mp hsteps
  obtain ⟨hp, hmiddle⟩ := hfirst tokens htokens value middle hvalue
  exact hnext value hp middle hmiddle result rest hrest

theorem Gives.mono {q : α → Prop} {reader : Reader α} (h : Gives reader p)
    (himp : ∀ result, p result → q result) : Gives reader q := by
  intro tokens htokens result rest hrun
  obtain ⟨hp, hrest⟩ := h tokens htokens result rest hrun
  exact ⟨himp result hp, hrest⟩

theorem Gives.reads {reader : Reader α} (h : Gives reader p) : Reads reader :=
  h.mono fun _ _ => trivial

theorem gives_unexpected : Gives unexpected p := by
  intro tokens _ result rest hrun
  cases tokens <;> cases hrun

end

theorem reads_unexpected : Reads (unexpected : Reader α) :=
  gives_unexpected

theorem reads_advance : Reads advance := by
  intro tokens htokens result rest hrun
  cases hrun
  exact ⟨trivial, fun h => htokens (List.mem_of_mem_tail h)⟩

theorem gives_peek? : Gives peek? fun token => token ≠ some (.name "") := by
  intro tokens htokens result rest hrun
  cases hrun
  exact ⟨fun h => htokens (List.mem_of_head? h), htokens⟩

theorem reads_get : Reads (get : Reader (List Token)) := by
  intro tokens htokens result rest hrun
  cases hrun
  exact ⟨trivial, htokens⟩

theorem reads_remaining : Reads remaining :=
  reads_get.bind fun _ _ => .pure trivial

theorem reads_accept (token : Token) : Reads (accept token) := by
  rw [accept]
  refine gives_peek?.bind fun next _ => ?_
  split
  · exact reads_advance.bind fun _ _ => .pure trivial
  · exact .pure trivial

theorem reads_expect (token : Token) : Reads (expect token) := by
  rw [expect]
  refine (reads_accept token).bind fun accepted _ => ?_
  split
  · exact .pure trivial
  · exact gives_unexpected

theorem gives_name : Gives name (· ≠ "") := by
  rw [name]
  refine gives_peek?.bind fun next hnext => ?_
  split
  · refine reads_advance.bind fun _ _ => .pure ?_
    rintro rfl
    exact hnext rfl
  · exact gives_unexpected

theorem reads_nameExcept (excluded : List String) : Reads (nameExcept excluded) := by
  rw [nameExcept]
  refine gives_peek?.bind fun next _ => ?_
  split
  · split
    · exact gives_unexpected
    · exact reads_advance.bind fun _ _ => .pure trivial
  · exact gives_unexpected

section

variable {opening closing : Token} {item : Reader α} {p : α → Prop} (h : Gives item p)
include h

theorem gives_itemsUntil (bound : Nat) :
    Gives (itemsUntil closing item bound) fun items => ∀ item ∈ items, p item := by
  induction bound with
  | zero => exact gives_unexpected
  | succ bound ih =>
    rw [itemsUntil]
    refine (reads_accept closing).bind fun accepted _ => ?_
    split
    · exact .pure (by simp)
    · refine h.bind fun first hfirst => ih.bind fun rest hrest => .pure ?_
      exact List.forall_mem_cons.mpr ⟨hfirst, hrest⟩

theorem gives_anyBetween :
    Gives (anyBetween opening closing item) fun items => ∀ item ∈ items, p item :=
  (reads_expect opening).bind fun _ _ => reads_get.bind fun _ _ => gives_itemsUntil h _

theorem gives_someBetween :
    Gives (someBetween opening closing item) fun items => ∀ item ∈ items, p item := by
  refine (reads_expect opening).bind fun _ _ => h.bind fun first hfirst => ?_
  refine reads_get.bind fun _ _ => (gives_itemsUntil h _).bind fun rest hrest => .pure ?_
  exact List.forall_mem_cons.mpr ⟨hfirst, hrest⟩

theorem gives_optionalBetween :
    Gives (optionalBetween opening closing item) fun items => ∀ item ∈ items, p item := by
  refine gives_peek?.bind fun next _ => ?_
  split
  · exact gives_someBetween h
  · exact .pure (by simp)

end

section

variable {separator starting : Token} {item : Reader α} (h : Reads item)
include h

theorem reads_itemsAfter (bound : Nat) : Reads (itemsAfter separator item bound) := by
  induction bound with
  | zero => exact .pure trivial
  | succ bound ih =>
    rw [itemsAfter]
    refine (reads_accept separator).bind fun accepted _ => ?_
    split
    · exact h.bind fun _ _ => ih.bind fun _ _ => .pure trivial
    · exact .pure trivial

theorem reads_separated : Reads (separated separator item) :=
  (reads_accept separator).bind fun _ _ => h.bind fun _ _ => reads_get.bind fun _ _ =>
    (reads_itemsAfter h _).bind fun _ _ => .pure trivial

theorem reads_itemsWhile (bound : Nat) : Reads (itemsWhile starting item bound) := by
  induction bound with
  | zero => exact .pure trivial
  | succ bound ih =>
    rw [itemsWhile]
    refine gives_peek?.bind fun next _ => ?_
    split
    · exact h.bind fun _ _ => ih.bind fun _ _ => .pure trivial
    · exact .pure trivial

end

theorem reads_variableName : Reads variableName :=
  (reads_expect _).bind fun _ _ => gives_name.reads

theorem reads_value (constant : Bool) (depth : Nat) : Reads (value constant depth) := by
  induction depth with
  | zero => exact gives_unexpected
  | succ depth ih =>
    rw [value]
    refine gives_peek?.bind fun next _ => ?_
    split
    · split
      · exact (gives_anyBetween ih).bind fun _ _ => .pure trivial
      split
      · have hfield : Reads do
            let key ← name
            expect (mark ":")
            return (key, ← value constant depth) :=
          gives_name.bind fun _ _ => (reads_expect _).bind fun _ _ => ih.bind fun _ _ =>
            .pure trivial
        exact (gives_anyBetween hfield).bind fun _ _ => .pure trivial
      split
      · exact reads_variableName.bind fun _ _ => .pure trivial
      · exact gives_unexpected
    · exact reads_advance.bind fun _ _ => .pure trivial
    · exact reads_advance.bind fun _ _ => .pure trivial
    · exact reads_advance.bind fun _ _ => .pure trivial
    · exact reads_advance.bind fun _ _ => .pure trivial
    · exact reads_advance.bind fun _ _ => .pure trivial
    · exact gives_unexpected

theorem reads_type (depth : Nat) : Reads (type depth) := by
  induction depth with
  | zero => exact gives_unexpected
  | succ depth ih =>
    rw [type]
    refine (reads_accept _).bind fun accepted _ => ?_
    have hmarked : ∀ inner : TypeRef, Reads do
        if ← accept (mark "!") then return TypeRef.nonNull inner
        return inner := by
      intro inner
      refine (reads_accept _).bind fun _ _ => ?_
      split <;> exact .pure trivial
    split
    · exact ih.bind fun _ _ => (reads_expect _).bind fun _ _ => hmarked _
    · exact gives_name.bind fun _ _ => hmarked _

theorem reads_argument (constant : Bool) : Reads (argument constant) :=
  gives_name.bind fun _ _ => (reads_expect _).bind fun _ _ => reads_remaining.bind fun _ _ =>
    (reads_value _ _).bind fun _ _ => .pure trivial

theorem reads_arguments (constant : Bool) : Reads (arguments constant) :=
  (gives_optionalBetween (reads_argument constant)).reads

theorem reads_directive (constant : Bool) : Reads (directive constant) :=
  (reads_expect _).bind fun _ _ => gives_name.bind fun _ _ =>
    (reads_arguments constant).bind fun _ _ => .pure trivial

theorem reads_directives (constant : Bool) : Reads (directives constant) :=
  reads_remaining.bind fun _ _ => reads_itemsWhile (reads_directive constant) _

theorem reads_typeReference : Reads typeReference :=
  reads_remaining.bind fun _ _ => reads_type _

theorem not_mem_allAliases {selections : List Selection}
    (h : ∀ selection ∈ selections, "" ∉ selection.aliases) :
    "" ∉ Selection.allAliases selections := by
  induction selections with
  | nil => simp [Selection.allAliases]
  | cons selection rest ih =>
    obtain ⟨hfirst, hrest⟩ := List.forall_mem_cons.mp h
    rw [Selection.allAliases, List.mem_append]
    exact not_or.mpr ⟨hfirst, ih hrest⟩

theorem gives_field {nested : Reader (List Selection)}
    (hnested : Gives nested fun selections => ∀ selection ∈ selections, "" ∉ selection.aliases)
    {aliasName : Option String} (halias : aliasName ≠ some "") (fieldName : String) :
    Gives (do
      let args ← arguments false
      let ds ← directives false
      let selections ← if (← peek?) = some openBrace then nested else pure []
      return Selection.field aliasName fieldName args ds selections)
      fun selection => "" ∉ selection.aliases := by
  refine (reads_arguments false).bind fun args _ => (reads_directives false).bind fun ds _ => ?_
  refine gives_peek?.bind fun next _ => ?_
  have hfield : ∀ selections : List Selection, (∀ selection ∈ selections, "" ∉ selection.aliases) →
      "" ∉ (Selection.field aliasName fieldName args ds selections).aliases := by
    intro selections hselections
    rw [Selection.aliases, List.mem_append, Option.mem_toList]
    exact not_or.mpr ⟨halias, not_mem_allAliases hselections⟩
  split
  · exact hnested.bind fun selections hselections => .pure (hfield selections hselections)
  · exact .pure (hfield [] (by simp))

theorem gives_selection (depth : Nat) :
    Gives (selection depth) fun selection => "" ∉ selection.aliases := by
  induction depth with
  | zero => exact gives_unexpected
  | succ depth ih =>
    rw [selection]
    have hnested : Gives (someBetween openBrace closeBrace (selection depth))
        fun selections => ∀ selection ∈ selections, "" ∉ selection.aliases :=
      gives_someBetween ih
    refine (reads_accept _).bind fun accepted _ => ?_
    split
    · refine (reads_accept _).bind fun accepted _ => ?_
      split
      · exact gives_name.bind fun _ _ => (reads_directives _).bind fun _ _ =>
          hnested.bind fun _ h => .pure (not_mem_allAliases h)
      · refine gives_peek?.bind fun next _ => ?_
        split
        · exact (reads_nameExcept _).bind fun _ _ => (reads_directives _).bind fun _ _ =>
            .pure (by simp [Selection.aliases])
        · exact (reads_directives _).bind fun _ _ =>
            hnested.bind fun _ h => .pure (not_mem_allAliases h)
    · refine gives_name.bind fun first hfirst => (reads_accept _).bind fun accepted _ => ?_
      split
      · exact gives_name.bind fun _ _ => gives_field hnested (by simpa using hfirst) _
      · exact gives_field hnested (by simp) _

theorem gives_selectionSet :
    Gives selectionSet fun selections => "" ∉ Selection.allAliases selections :=
  reads_remaining.bind fun _ _ =>
    (gives_someBetween (gives_selection _)).mono fun _ => not_mem_allAliases

theorem reads_defaultValue : Reads defaultValue := by
  refine (reads_accept _).bind fun accepted _ => ?_
  split
  · exact reads_remaining.bind fun _ _ => (reads_value _ _).bind fun _ _ => .pure trivial
  · exact .pure trivial

theorem reads_description : Reads description := by
  refine gives_peek?.bind fun next _ => ?_
  split
  · exact reads_advance.bind fun _ _ => .pure trivial
  · exact reads_advance.bind fun _ _ => .pure trivial
  · exact .pure trivial

theorem reads_variableDefinition : Reads variableDefinition :=
  reads_description.bind fun _ _ => reads_variableName.bind fun _ _ =>
    (reads_expect _).bind fun _ _ => reads_typeReference.bind fun _ _ =>
      reads_defaultValue.bind fun _ _ => (reads_directives _).bind fun _ _ => .pure trivial

theorem reads_operationKind : Reads operationKind := by
  refine gives_peek?.bind fun next _ => ?_
  split
  · split
    · exact reads_advance.bind fun _ _ => .pure trivial
    · exact gives_unexpected
  · exact gives_unexpected

theorem gives_shortQuery :
    Gives shortQuery fun operation => "" ∉ Selection.allAliases operation.selections :=
  gives_selectionSet.bind fun _ h => .pure h

theorem gives_operation (described : Option Description) :
    Gives (operation described) fun operation =>
      "" ∉ Selection.allAliases operation.selections := by
  have hbody : ∀ kind given, Gives (do
      let variableDefinitions ← optionalBetween (mark "(") (mark ")") variableDefinition
      let ds ← directives false
      return { description := described, kind, name := given, variableDefinitions, directives := ds,
               selections := ← selectionSet : Operation })
      fun operation => "" ∉ Selection.allAliases operation.selections := by
    intro kind given
    exact (gives_optionalBetween reads_variableDefinition).bind fun _ _ =>
      (reads_directives _).bind fun _ _ => gives_selectionSet.bind fun _ h => .pure h
  refine reads_operationKind.bind fun kind _ => gives_peek?.bind fun next _ => ?_
  split
  · exact reads_advance.bind fun _ _ => hbody _ _
  · exact hbody _ _

theorem gives_fragment (described : Option Description) :
    Gives (fragment described) fun fragment => "" ∉ Selection.allAliases fragment.selections :=
  (reads_expect _).bind fun _ _ => (reads_nameExcept _).bind fun _ _ =>
    (reads_expect _).bind fun _ _ => gives_name.bind fun _ _ =>
      (reads_directives _).bind fun _ _ => gives_selectionSet.bind fun _ h => .pure h

theorem reads_inputValueDefinition : Reads inputValueDefinition :=
  reads_description.bind fun _ _ => gives_name.bind fun _ _ => (reads_expect _).bind fun _ _ =>
    reads_typeReference.bind fun _ _ => reads_defaultValue.bind fun _ _ =>
      (reads_directives _).bind fun _ _ => .pure trivial

theorem reads_argumentDefinitions : Reads argumentDefinitions :=
  (gives_optionalBetween reads_inputValueDefinition).reads

theorem reads_fieldDefinition : Reads fieldDefinition :=
  reads_description.bind fun _ _ => gives_name.bind fun _ _ =>
    reads_argumentDefinitions.bind fun _ _ => (reads_expect _).bind fun _ _ =>
      reads_typeReference.bind fun _ _ => (reads_directives _).bind fun _ _ => .pure trivial

theorem reads_interfaces : Reads interfaces := by
  refine (reads_accept _).bind fun accepted _ => ?_
  split
  · exact reads_separated gives_name.reads
  · exact .pure trivial

theorem reads_rootDefinition : Reads rootDefinition :=
  reads_operationKind.bind fun _ _ => (reads_expect _).bind fun _ _ =>
    gives_name.bind fun _ _ => .pure trivial

theorem reads_directiveLocation : Reads directiveLocation := by
  refine gives_peek?.bind fun next _ => ?_
  split
  · split
    · exact reads_advance.bind fun _ _ => .pure trivial
    · exact gives_unexpected
  · exact gives_unexpected

theorem reads_directiveDefinition : Reads directiveDefinition :=
  (reads_expect _).bind fun _ _ => (reads_expect _).bind fun _ _ => gives_name.bind fun _ _ =>
    reads_argumentDefinitions.bind fun _ _ => (reads_accept _).bind fun _ _ =>
      (reads_expect _).bind fun _ _ => (reads_separated reads_directiveLocation).bind fun _ _ =>
        .pure trivial

theorem reads_enumValue : Reads enumValue :=
  reads_description.bind fun _ _ => (reads_nameExcept _).bind fun _ _ =>
    (reads_directives _).bind fun _ _ => .pure trivial

theorem reads_fieldDefinitions : Reads (optionalBetween openBrace closeBrace fieldDefinition) :=
  (gives_optionalBetween reads_fieldDefinition).reads

theorem reads_typeDefinition : Reads typeDefinition := by
  refine gives_name.bind fun keyword _ => gives_name.bind fun key _ => ?_
  split
  · exact (reads_directives _).bind fun _ _ => .pure trivial
  · exact reads_interfaces.bind fun _ _ => (reads_directives _).bind fun _ _ =>
      reads_fieldDefinitions.bind fun _ _ => .pure trivial
  · exact reads_interfaces.bind fun _ _ => (reads_directives _).bind fun _ _ =>
      reads_fieldDefinitions.bind fun _ _ => .pure trivial
  · refine (reads_directives _).bind fun _ _ => (reads_accept _).bind fun accepted _ => ?_
    split
    · exact (reads_separated gives_name.reads).bind fun _ _ => .pure trivial
    · exact .pure trivial
  · exact (reads_directives _).bind fun _ _ =>
      (gives_optionalBetween reads_enumValue).bind fun _ _ => .pure trivial
  · exact (reads_directives _).bind fun _ _ =>
      (gives_optionalBetween reads_inputValueDefinition).bind fun _ _ => .pure trivial
  · exact gives_unexpected

theorem reads_rootDefinitions : Reads (someBetween openBrace closeBrace rootDefinition) :=
  (gives_someBetween reads_rootDefinition).reads

def IsNamed : Definition → Prop
  | .operation definition => "" ∉ Selection.allAliases definition.selections
  | .fragment definition => "" ∉ Selection.allAliases definition.selections
  | _ => True

theorem gives_schemaDefinition : Gives schemaDefinition IsNamed :=
  (reads_expect _).bind fun _ _ => (reads_directives _).bind fun _ _ =>
    reads_rootDefinitions.bind fun _ _ => .pure trivial

theorem gives_extension : Gives extension IsNamed := by
  refine (reads_expect _).bind fun _ _ => (reads_accept _).bind fun accepted _ => ?_
  split
  · refine (reads_directives _).bind fun ds _ =>
      (gives_optionalBetween reads_rootDefinition).bind fun roots _ => ?_
    split
    · exact reads_unexpected.bind fun _ _ => .pure trivial
    · exact .pure trivial
  · refine gives_peek?.bind fun next _ => ?_
    split
    · split
      · refine reads_typeDefinition.bind fun extended _ => ?_
        split
        split
        · exact reads_unexpected.bind fun _ _ => .pure trivial
        · exact .pure trivial
      · exact gives_unexpected
    · exact gives_unexpected

theorem gives_definition : Gives definition IsNamed := by
  refine reads_description.bind fun described _ => gives_peek?.bind fun next _ => ?_
  split
  · split
    · exact gives_schemaDefinition
    split
    · exact reads_directiveDefinition.bind fun _ _ => .pure trivial
    split
    · exact reads_typeDefinition.bind fun _ _ => .pure trivial
    split
    · exact (gives_fragment _).bind fun _ h => .pure h
    split
    · split
      · exact gives_unexpected
      · exact gives_extension
    · exact (gives_operation _).bind fun _ h => .pure h
  · split
    · exact gives_shortQuery.bind fun _ h => .pure h
    · exact gives_unexpected
  · exact gives_unexpected

theorem gives_definitionsToEnd (bound : Nat) :
    Gives (definitionsToEnd bound) fun definitions =>
      ∀ definition ∈ definitions, IsNamed definition := by
  induction bound with
  | zero => exact .pure (by simp)
  | succ bound ih =>
    refine gives_peek?.bind fun next _ => ?_
    split
    · exact .pure (by simp)
    · refine gives_definition.bind fun first hfirst => ih.bind fun rest hrest => .pure ?_
      exact List.forall_mem_cons.mpr ⟨hfirst, hrest⟩

theorem gives_document :
    Gives document fun document => ∀ definition ∈ document.definitions, IsNamed definition := by
  refine gives_definition.bind fun first hfirst => reads_get.bind fun _ _ => ?_
  refine (gives_definitionsToEnd _).bind fun rest hrest => .pure ?_
  exact List.forall_mem_cons.mpr ⟨hfirst, hrest⟩

theorem Gives.complete {p : α → Prop} {part : Reader α} (h : Gives part p) :
    Gives (complete part) p := by
  refine h.bind fun result hresult => gives_peek?.bind fun next _ => ?_
  split
  · exact .pure hresult
  · exact gives_unexpected

end QueryShape.Source.Grammar

namespace QueryShape.Source

theorem Token.ne_of_numeral {text rest : List Char} {token : Token}
    (h : Token.numeral text = .ok (token, rest)) : token ≠ .name "" := by
  simp only [Token.numeral, Outcome.bind_eq_ok] at h
  obtain ⟨_, _, fraction, _, exponent, _, h⟩ := h
  have hkind : ∀ written : String,
      (if fraction.1.isEmpty && exponent.1.isEmpty then Token.int written
        else Token.float written) ≠ .name "" := by
    intro written
    split <;> nofun
  split at h
  · split at h
    · cases h
    · cases h
      exact hkind _
  · cases h
    exact hkind _

theorem Token.ne_of_next {text rest : List Char} {token : Token}
    (h : Token.next text = .ok (token, rest)) : token ≠ .name "" := by
  rw [Token.next.eq_def] at h
  split at h
  · cases h
  · cases h
    nofun
  · simp only [Outcome.bind_eq_ok, Outcome.pure_eq_ok] at h
    obtain ⟨_, _, h⟩ := h
    cases h
    nofun
  · simp only [Outcome.bind_eq_ok, Outcome.pure_eq_ok] at h
    obtain ⟨_, _, h⟩ := h
    cases h
    nofun
  · split at h
    · cases h
      nofun
    split at h
    · cases h
      simp
    split at h
    · exact Token.ne_of_numeral h
    · cases h

theorem Token.not_mem_of_scanFrom {bound : Nat} {text : List Char} {tokens : List Token}
    (h : Token.scanFrom bound text = .ok tokens) : Token.name "" ∉ tokens := by
  induction bound generalizing text tokens with
  | zero =>
    cases h
    simp
  | succ bound ih =>
    rw [Token.scanFrom] at h
    split at h
    · cases h
      simp
    · simp only [Outcome.bind_eq_ok, Outcome.pure_eq_ok] at h
      obtain ⟨⟨token, rest⟩, hnext, others, hothers, rfl⟩ := h
      rw [List.mem_cons]
      exact not_or.mpr ⟨(Token.ne_of_next hnext).symm, ih hothers⟩

/-- A document that is read gives no empty aliases. -/
theorem Document.aliases_of_parse {text : String} {document : Document}
    (h : Document.parse text = .ok document) : "" ∉ document.aliases := by
  obtain ⟨tokens, hscan, hrun⟩ := Outcome.bind_eq_ok.mp h
  cases hread : Grammar.complete Grammar.document tokens with
  | error error => simp [StateT.run', hread, Functor.map, Except.map] at hrun
  | ok pair =>
    obtain rfl : pair.1 = document := by
      simpa [StateT.run', hread, Functor.map, Except.map] using hrun
    have hnamed := (Grammar.gives_document.complete tokens (Token.not_mem_of_scanFrom hscan) _ _
      hread).1
    rw [Document.aliases, List.mem_append, List.mem_flatMap, List.mem_flatMap]
    rintro (⟨operation, hoperation, hempty⟩ | ⟨fragment, hfragment, hempty⟩)
    · obtain ⟨definition, hmem, hdefinition⟩ := List.mem_filterMap.mp hoperation
      have hnot := hnamed definition hmem
      cases definition <;> cases hdefinition
      exact hnot hempty
    · obtain ⟨definition, hmem, hdefinition⟩ := List.mem_filterMap.mp hfragment
      have hnot := hnamed definition hmem
      cases definition <;> cases hdefinition
      exact hnot hempty

end QueryShape.Source
