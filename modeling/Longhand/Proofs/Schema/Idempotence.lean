import Longhand.Proofs.Additions
import Longhand.Proofs.Schema.Positions

/-!
# Expanding bare type names twice

The definitions of a document are expanded with the document, and once more when they
are learned.  The second time changes nothing but this: a bare type name that stands
alone under `variants` has become an object by then, and the members of an object in
that place are variants.
-/

namespace Longhand.Schema

/-! ## Names that stand for all variants -/

/-- In a value of a role, a bare type name stands where an array or an object of
variants might. -/
inductive NamesVariants : Role → Value → Prop
  | here (name : String) : NamesVariants .schemaOrVariants (.string name)
  | item {role : Role} {items : List Value} {item : Value} (mem : item ∈ items)
      (inItem : NamesVariants role.ofItem item) :
      NamesVariants role (.array items)
  | member {role : Role} {members : Members Value} {pair : String × Value}
      (mem : pair ∈ members) (inValue : NamesVariants (role.ofMember pair.1) pair.2) :
      NamesVariants role (.object members)

theorem namesVariants_string_iff {role : Role} {name : String} :
    NamesVariants role (.string name) ↔ role = .schemaOrVariants := by
  constructor
  · intro names
    cases names
    rfl
  · rintro rfl
    exact .here name

theorem namesVariants_array_iff {role : Role} {items : List Value} :
    NamesVariants role (.array items) ↔
      ∃ item ∈ items, NamesVariants role.ofItem item := by
  constructor
  · intro names
    cases names with
    | item mem inItem => exact ⟨_, mem, inItem⟩
  · rintro ⟨item, mem, inItem⟩
    exact .item mem inItem

theorem namesVariants_object_iff {role : Role} {members : Members Value} :
    NamesVariants role (.object members) ↔
      ∃ pair ∈ members, NamesVariants (role.ofMember pair.1) pair.2 := by
  constructor
  · intro names
    cases names with
    | member mem inValue => exact ⟨_, mem, inValue⟩
  · rintro ⟨pair, mem, inValue⟩
    exact .member mem inValue

/-! ## The second expansion -/

/-- The long form of a name is an object of the same role, so its member is looked at
again.  Only an object of variants makes a schema of it. -/
theorem expandAs_expandAs_string_iff {role : Role} {name : String} :
    expandAs role (expandAs role (.string name)) = expandAs role (.string name) ↔
      role ≠ .schemaOrVariants := by
  cases role with
  | schema | schemaOrItems =>
      have isOther : keywordRole "type" = .other := by decide
      simp [expandAs, expandMembers, Role.namesType, named, Role.ofMember, isOther]
  | schemaOrVariants =>
      simp [expandAs, expandMembers, Role.namesType, named, Role.ofMember]
  | namedSchemas | other => simp [expandAs, Role.namesType]

/-- Expanding in a role is idempotent on all values but those in which a name stands
for all variants. -/
theorem expandAs_expandAs_iff {role : Role} {value : Value} :
    expandAs role (expandAs role value) = expandAs role value ↔
      ¬NamesVariants role value := by
  induction value using Value.inductionOnParts generalizing role with
  | @scalar value noArray noObject =>
      cases value with
      | string name =>
          rw [expandAs_expandAs_string_iff, namesVariants_string_iff]
      | array items => exact absurd rfl (noArray items)
      | object members => exact absurd rfl (noObject members)
      | _ => exact iff_of_true rfl nofun
  | array items ih =>
      rw [namesVariants_array_iff]
      push Not
      simp only [expandAs, expandItems_eq_map, List.map_map, Value.array.injEq,
        List.map_inj_left, Function.comp_apply]
      exact forall₂_congr fun item mem => ih item mem
  | object members ih =>
      rw [namesVariants_object_iff]
      push Not
      simp only [expandAs, expandMembers_eq_map, List.map_map, Value.object.injEq,
        List.map_inj_left, Function.comp_apply, Prod.mk.injEq, true_and]
      exact forall₂_congr fun pair mem => ih pair mem

/-! ## Schemas with such a name -/

/-- Some schema in a document has a bare type name alone under `variants`. -/
def LoneVariant (document : Value) : Prop :=
  ∃ trail schema name, Position document trail schema ∧
    schema.get? "variants" = some (.string name)

theorem ExpandedAs.namesVariants {root value : Value} {role : Role}
    (expanded : ExpandedAs root role value) (names : NamesVariants role value) :
    NamesVariants .schema root := by
  induction expanded with
  | root => exact names
  | member _ mem ih => exact ih (.member mem names)
  | item _ mem ih => exact ih (.item mem names)

theorem NamesVariants.exists_expandedAs {root value : Value} {role : Role}
    (names : NamesVariants role value) (expanded : ExpandedAs root role value) :
    ∃ name, ExpandedAs root .schemaOrVariants (.string name) := by
  induction names with
  | here name => exact ⟨name, expanded⟩
  | item mem _ ih => exact ih (expanded.item mem)
  | member mem _ ih => exact ih (expanded.member mem)

/-- Where no object repeats a key, a name stands for all variants exactly where a
schema has it under `variants`. -/
theorem namesVariants_iff_loneVariant {document : Value}
    (wellFormed : document.WellFormed) :
    NamesVariants .schema document ↔ LoneVariant document := by
  constructor
  · intro names
    obtain ⟨name, expanded⟩ := names.exists_expandedAs .root
    obtain ⟨trail, schema, position, found⟩ := (expanded.standsAs wellFormed).1
    exact ⟨trail, schema, name, position, found⟩
  · rintro ⟨trail, schema, name, position, found⟩
    obtain ⟨role, expanded, isSchema⟩ := position.expandedAs
    have isVariants : keywordRole "variants" = .schemaOrVariants := by decide
    have atName := expanded.of_get? isSchema found
    rw [isVariants] at atName
    exact atName.namesVariants (.here name)

theorem expand_expand_iff {document : Value} (wellFormed : document.WellFormed) :
    expand (expand document) = expand document ↔ ¬LoneVariant document := by
  rw [← namesVariants_iff_loneVariant wellFormed]
  exact expandAs_expandAs_iff

/-! ## Definitions of a document -/

/-- The definitions of an expanded document are its definitions, each expanded. -/
theorem get?_own_expand (document : Value) (name : String) :
    Members.get? (Definition.own (expand document)) name =
      (Members.get? (Definition.own document) name).map expand := by
  cases document with
  | object members =>
      have sameHere : (expand (.object members)).get? Definition.definitionsKey =
          (Members.get? members Definition.definitionsKey).map
            (expandAs .namedSchemas) :=
        get?_expandMembers .schema members Definition.definitionsKey
      rw [Definition.own, sameHere, Definition.own, Value.get?, Value.members]
      cases Members.get? members Definition.definitionsKey with
      | none => rfl
      | some value =>
          cases value with
          | object own => exact get?_expandMembers .namedSchemas own name
          | _ => rfl
  | _ => rfl

theorem wellFormed_of_get?_own {document definition : Value} {name : String}
    (wellFormed : document.WellFormed)
    (found : Members.get? (Definition.own document) name = some definition) :
    definition.WellFormed := by
  rw [Definition.own] at found
  cases isOwn : document.get? Definition.definitionsKey with
  | none => simp [isOwn] at found
  | some own =>
      rw [isOwn] at found
      exact (wellFormed.of_get? isOwn).of_get? found

/-- Expanding a document a second time changes nothing unless a schema in it has a bare
type name alone under `variants`.  Likewise a definition under a new name is stored as
it stands in the expanded document, unless there is such a schema in the definition. -/
theorem same_when_expanded_twice (document : Value) (wellFormed : document.WellFormed) :
    (expand (expand document) = expand document ↔ ¬LoneVariant document) ∧
      ∀ (known : Members Value) (name : String) (definition : Value),
        name ∉ Members.keys known →
        Members.get? (Definition.own document) name = some definition →
        (Members.get? (Definition.register known (expand document)) name =
            Members.get? (Definition.own (expand document)) name ↔
          ¬LoneVariant definition) := by
  refine ⟨expand_expand_iff wellFormed, ?_⟩
  intro known name definition isNew found
  have unknown := (Members.get?_eq_none_iff known name).mpr isNew
  have inDocument := wellFormed_of_get?_own wellFormed found
  rw [Definition.register_eq_add, Definition.get?_add, unknown, get?_own_expand,
    found, ← expand_expand_iff inDocument]
  simp

/-- The definition `Pet` has a bare type name alone under `variants`. -/
theorem same_when_expanded_twice_pet :
    let pet : Value := .object [("variants", .string "Cat")]
    let document : Value := .object
      [("definitions", .object [("Id", .string "string"), ("Pet", pet)])]
    document.WellFormed ∧ "Pet" ∉ Members.keys [("Id", Value.null)] ∧
      Members.get? (Definition.own document) "Pet" = some pet ∧
      (Members.get? (Definition.register [("Id", .null)] (expand document)) "Pet" =
          Members.get? (Definition.own (expand document)) "Pet" ↔
        ¬LoneVariant pet) := by
  intro pet document
  have wellFormed : document.WellFormed := by
    simp [document, pet, Value.WellFormed, Value.WellFormedMembers, Members.keys]
  have isNew : "Pet" ∉ Members.keys [("Id", Value.null)] := by simp
  exact ⟨wellFormed, isNew, rfl,
    (same_when_expanded_twice document wellFormed).2 _ "Pet" pet isNew rfl⟩

/-- A bare type name under `variants` becomes an object, whose member `type` is expanded
the second time. -/
theorem not_forall_expand_expand :
    ¬∀ document : Value, expand (expand document) = expand document := by
  intro all
  have same := all (.object [("variants", .string "A")])
  have isVariants : keywordRole "variants" = .schemaOrVariants := by decide
  simp [expand, expandAs, expandMembers, Role.ofMember, isVariants, Role.namesType,
    named] at same

end Longhand.Schema
