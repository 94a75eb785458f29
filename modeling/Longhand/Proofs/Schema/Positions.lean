import Longhand.Proofs.Compile.Stages
import Longhand.Proofs.Schema.Structure
import Longhand.Schema

/-!
# Where schemas are expected

Bare type names are expanded wherever a schema is expected: at the root, and under
five keys of a schema, step by step.  The structural check looks at schemas under
four of these keys.  In a document that it accepts the two agree wherever no
`definitions` lead, and under `definitions` anything may stand.
-/

namespace Longhand.Schema

/-! ## Positions -/

/-- The keys under which a schema expects schemas. -/
inductive Keyword where
  | properties
  | definitions
  | items
  | variants
  | additionalProperties
  deriving DecidableEq, Repr

/-- A schema expects a value to be a schema, under one of the keywords. -/
inductive Expects (schema : Value) : Keyword → Value → Prop
  | property {properties : Members Value} {pair : String × Value}
      (found : schema.get? "properties" = some (.object properties))
      (mem : pair ∈ properties) : Expects schema .properties pair.2
  | definition {definitions : Members Value} {pair : String × Value}
      (found : schema.get? "definitions" = some (.object definitions))
      (mem : pair ∈ definitions) : Expects schema .definitions pair.2
  | items {inner : Value} (found : schema.get? "items" = some inner)
      (noArray : ∀ items, inner ≠ .array items) : Expects schema .items inner
  | item {items : List Value} {inner : Value}
      (found : schema.get? "items" = some (.array items))
      (mem : inner ∈ items) : Expects schema .items inner
  | onlyVariant {inner : Value} (found : schema.get? "variants" = some inner)
      (noArray : ∀ items, inner ≠ .array items)
      (noObject : ∀ members, inner ≠ .object members) :
      Expects schema .variants inner
  | namedVariant {variants : Members Value} {pair : String × Value}
      (found : schema.get? "variants" = some (.object variants))
      (mem : pair ∈ variants) : Expects schema .variants pair.2
  | variant {variants : List Value} {inner : Value}
      (found : schema.get? "variants" = some (.array variants))
      (mem : inner ∈ variants) : Expects schema .variants inner
  | additional {inner : Value}
      (found : schema.get? "additionalProperties" = some inner) :
      Expects schema .additionalProperties inner

/-- A value stands where a schema is expected: at the root, or under a keyword of
what stands at such a place.  The trail holds the keywords on the way. -/
inductive Position (root : Value) : List Keyword → Value → Prop
  | root : Position root [] root
  | inner {trail : List Keyword} {keyword : Keyword} {schema inner : Value}
      (outer : Position root trail schema)
      (expects : Expects schema keyword inner) :
      Position root (trail ++ [keyword]) inner

variable {root schema inner : Value} {keyword : Keyword} {trail : List Keyword}

/-- Only an object expects anything. -/
theorem Expects.isObject (expects : Expects schema keyword inner) :
    schema.isObject = true := by
  cases schema with
  | object members => rfl
  | _ => cases expects <;> simp_all [Value.get?, Value.members]

/-! ## Expanding bare type names -/

/-- Expanding the bare type names of a root expands a value inside it in a role. -/
inductive ExpandedAs (root : Value) : Role → Value → Prop
  | root : ExpandedAs root .schema root
  | member {role : Role} {members : Members Value} {pair : String × Value}
      (outer : ExpandedAs root role (.object members)) (mem : pair ∈ members) :
      ExpandedAs root (role.ofMember pair.1) pair.2
  | item {role : Role} {items : List Value} {item : Value}
      (outer : ExpandedAs root role (.array items)) (mem : item ∈ items) :
      ExpandedAs root role.ofItem item

/-- What stands in a role is a schema itself, and no array or object of schemas. -/
def Role.IsSchemaAt : Role → Value → Prop
  | .schema, _ => True
  | .schemaOrItems, value => ∀ items, value ≠ .array items
  | .schemaOrVariants, value =>
      value.isObject = false ∧ ∀ items, value ≠ .array items
  | .namedSchemas, _ => False
  | .other, _ => False

/-- The members of a schema are expanded by their keys. -/
theorem Role.IsSchemaAt.ofMember_eq {role : Role} {members : Members Value}
    (isSchema : role.IsSchemaAt (.object members)) (key : String) :
    role.ofMember key = keywordRole key := by
  cases role with
  | schema | schemaOrItems => rfl
  | schemaOrVariants => simp [IsSchemaAt, Value.isObject] at isSchema
  | _ => exact isSchema.elim

theorem ExpandedAs.of_get? {role : Role} {key : String}
    (outer : ExpandedAs root role schema) (isSchema : role.IsSchemaAt schema)
    (found : schema.get? key = some inner) :
    ExpandedAs root (keywordRole key) inner := by
  cases schema with
  | object members =>
      rw [← isSchema.ofMember_eq key]
      exact outer.member (Members.mem_of_get?_eq_some found)
  | _ => simp [Value.get?, Value.members] at found

/-- What a schema expects to be a schema is expanded as one. -/
theorem Expects.expandedAs {role : Role} (expects : Expects schema keyword inner)
    (outer : ExpandedAs root role schema) (isSchema : role.IsSchemaAt schema) :
    ∃ role, ExpandedAs root role inner ∧ role.IsSchemaAt inner := by
  cases expects with
  | property found mem | definition found mem =>
      exact ⟨.schema, (outer.of_get? isSchema found).member mem, trivial⟩
  | items found noArray =>
      exact ⟨.schemaOrItems, outer.of_get? isSchema found, noArray⟩
  | item found mem | variant found mem =>
      exact ⟨.schema, (outer.of_get? isSchema found).item mem, trivial⟩
  | onlyVariant found noArray noObject =>
      refine ⟨.schemaOrVariants, outer.of_get? isSchema found, ?_, noArray⟩
      cases inner with
      | object members => exact absurd rfl (noObject members)
      | _ => rfl
  | namedVariant found mem =>
      exact ⟨.schema, (outer.of_get? isSchema found).member mem, trivial⟩
  | additional found =>
      exact ⟨.schema, outer.of_get? isSchema found, trivial⟩

theorem Position.expandedAs (position : Position root trail inner) :
    ∃ role, ExpandedAs root role inner ∧ role.IsSchemaAt inner := by
  induction position with
  | root => exact ⟨.schema, .root, trivial⟩
  | inner _ expects ih =>
      obtain ⟨role, outer, isSchema⟩ := ih
      exact expects.expandedAs outer isSchema

/-- What stands in a role, told by the keywords that lead there. -/
def StandsAs (root : Value) : Role → Value → Prop
  | .schema, value => ∃ trail, Position root trail value
  | .namedSchemas, value => ∃ trail schema, Position root trail schema ∧
      (schema.get? "properties" = some value ∨
        schema.get? "definitions" = some value)
  | .schemaOrItems, value => ∃ trail schema, Position root trail schema ∧
      schema.get? "items" = some value
  | .schemaOrVariants, value => ∃ trail schema, Position root trail schema ∧
      schema.get? "variants" = some value
  | .other, _ => True

/-- A member of a schema stands in the role that its key tells. -/
theorem Position.standsAs {key : String} (position : Position root trail schema)
    (found : schema.get? key = some inner) :
    StandsAs root (keywordRole key) inner := by
  fun_cases keywordRole key with
  | case1 isNamed =>
      refine ⟨trail, schema, position, ?_⟩
      rcases isNamed with rfl | rfl
      · exact .inl found
      · exact .inr found
  | case2 _ isItems => exact ⟨trail, schema, position, isItems ▸ found⟩
  | case3 _ _ isVariants => exact ⟨trail, schema, position, isVariants ▸ found⟩
  | case4 _ _ _ isAdditional =>
      exact ⟨_, position.inner (.additional (isAdditional ▸ found))⟩
  | case5 => trivial

/-- Where no object repeats a key, nothing is expanded in a role but what stands in
it. -/
theorem ExpandedAs.standsAs {role : Role} {value : Value}
    (expanded : ExpandedAs root role value) (wellFormed : root.WellFormed) :
    StandsAs root role value ∧ value.WellFormed := by
  induction expanded with
  | root => exact ⟨⟨[], .root⟩, wellFormed⟩
  | @member role members pair _ mem ih =>
      obtain ⟨stands, inObject⟩ := ih
      obtain ⟨distinct, each⟩ := Value.wellFormed_object_iff.mp inObject
      refine ⟨?_, each pair mem⟩
      have found : (Value.object members).get? pair.1 = some pair.2 :=
        Members.get?_eq_some_of_mem distinct mem
      cases role with
      | schema =>
          obtain ⟨trail, position⟩ := stands
          exact position.standsAs found
      | namedSchemas =>
          obtain ⟨trail, schema, position, isProperties | isDefinitions⟩ := stands
          · exact ⟨_, position.inner (.property isProperties mem)⟩
          · exact ⟨_, position.inner (.definition isDefinitions mem)⟩
      | schemaOrItems =>
          obtain ⟨trail, schema, position, isItems⟩ := stands
          exact (position.inner (.items isItems (by simp))).standsAs found
      | schemaOrVariants =>
          obtain ⟨trail, schema, position, isVariants⟩ := stands
          exact ⟨_, position.inner (.namedVariant isVariants mem)⟩
      | other => trivial
  | @item role items item _ mem ih =>
      obtain ⟨stands, inArray⟩ := ih
      refine ⟨?_, Value.wellFormed_array_iff.mp inArray item mem⟩
      cases role with
      | schemaOrItems =>
          obtain ⟨trail, schema, position, isItems⟩ := stands
          exact ⟨_, position.inner (.item isItems mem)⟩
      | schemaOrVariants =>
          obtain ⟨trail, schema, position, isVariants⟩ := stands
          exact ⟨_, position.inner (.variant isVariants mem)⟩
      | _ => trivial

/-- The positions at which schemas are expected are exactly those at which bare type
names are expanded. -/
theorem exists_position_iff_expandedAs {value : Value}
    (wellFormed : root.WellFormed) :
    (∃ trail, Position root trail value) ↔
      ∃ role, ExpandedAs root role value ∧ role.IsSchemaAt value := by
  constructor
  · rintro ⟨trail, position⟩
    exact position.expandedAs
  · rintro ⟨role, expanded, isSchema⟩
    have stands := (expanded.standsAs wellFormed).1
    cases role with
    | schema => exact stands
    | schemaOrItems =>
        obtain ⟨trail, schema, position, isItems⟩ := stands
        exact ⟨_, position.inner (.items isItems isSchema)⟩
    | schemaOrVariants =>
        obtain ⟨trail, schema, position, isVariants⟩ := stands
        have noObject : ∀ members, value ≠ .object members := by
          rintro members rfl
          simp [Role.IsSchemaAt, Value.isObject] at isSchema
        exact ⟨_, position.inner (.onlyVariant isVariants isSchema.2 noObject)⟩
    | _ => exact isSchema.elim

/-! ## Checking -/

/-- What an accepted schema expects is a schema that it contains, unless it is under
`definitions` or a boolean under `additionalProperties`. -/
theorem Expects.contains (expects : Expects schema keyword inner)
    (accepted : firstMisshapen .schema schema = none)
    (noDefinitions : keyword ≠ .definitions) :
    Contains schema inner ∨
      keyword = .additionalProperties ∧ inner.isBool = true := by
  cases expects with
  | property found mem => exact .inl (.property found mem)
  | definition => exact absurd rfl noDefinitions
  | items found noArray => exact .inl (.items found noArray)
  | item found mem => exact .inl (.item found mem)
  | onlyVariant found noArray noObject =>
      rcases (wellShaped_of_accepted accepted).variantsIsObjectOrArray inner found
        with isObject | ⟨items, isArray⟩
      · obtain ⟨members, isObject⟩ := Value.isObject_iff.mp isObject
        exact absurd isObject (noObject members)
      · exact absurd isArray (noArray items)
  | namedVariant found mem => exact .inl (.namedVariant found mem)
  | variant found mem => exact .inl (.variant found mem)
  | additional found =>
      cases isBool : inner.isBool with
      | false => exact .inl (.additional found isBool)
      | true => exact .inr ⟨rfl, rfl⟩

/-- A schema expects whatever it contains. -/
theorem Contains.expects (contains : Contains schema inner) :
    ∃ keyword, keyword ≠ .definitions ∧ Expects schema keyword inner := by
  cases contains with
  | property found mem => exact ⟨.properties, by decide, .property found mem⟩
  | items found noArray => exact ⟨.items, by decide, .items found noArray⟩
  | item found mem => exact ⟨.items, by decide, .item found mem⟩
  | additional found _ =>
      exact ⟨.additionalProperties, by decide, .additional found⟩
  | namedVariant found mem => exact ⟨.variants, by decide, .namedVariant found mem⟩
  | variant found mem => exact ⟨.variants, by decide, .variant found mem⟩

/-- In an accepted document the check comes to every position that no `definitions`
lead to, but for booleans under `additionalProperties`. -/
theorem Position.reaches (position : Position root trail inner)
    (accepted : firstMisshapen .schema root = none)
    (noDefinitions : .definitions ∉ trail) :
    Reaches root inner ∨
      trail.getLast? = some .additionalProperties ∧ inner.isBool = true := by
  induction position with
  | root => exact .inl .refl
  | @inner trail keyword schema inner _ expects ih =>
      rw [List.mem_append, List.mem_singleton, not_or] at noDefinitions
      have isObject := expects.isObject
      rcases ih noDefinitions.1 with reaches | ⟨-, isBool⟩
      · rcases expects.contains (reaches.accepted accepted)
          (Ne.symm noDefinitions.2) with contains | ⟨rfl, isBool⟩
        · exact .inl (reaches.tail contains)
        · exact .inr ⟨by simp, isBool⟩
      · cases schema <;> simp [Value.isObject, Value.isBool] at isObject isBool

/-- The check comes to positions only, and none of them is under `definitions`. -/
theorem Reaches.position (reaches : Reaches root inner) :
    ∃ trail, .definitions ∉ trail ∧ Position root trail inner := by
  induction reaches with
  | refl => exact ⟨[], by simp, .root⟩
  | tail _ contains ih =>
      obtain ⟨trail, noDefinitions, position⟩ := ih
      obtain ⟨keyword, isOther, expects⟩ := contains.expects
      refine ⟨trail ++ [keyword], ?_, position.inner expects⟩
      rw [List.mem_append, List.mem_singleton, not_or]
      exact ⟨noDefinitions, Ne.symm isOther⟩

/-- The structural check and the expansion of bare type names agree on what a schema
is, wherever no `definitions` lead. -/
structure AgreeOnSchemas (document : Value) : Prop where
  /-- Where a schema is expected there is an object, or a boolean under
  `additionalProperties`. -/
  holdsObject : ∀ trail value, Position document trail value →
    .definitions ∉ trail → value.isObject = true ∨
      trail.getLast? = some .additionalProperties ∧ value.isBool = true
  /-- The objects that are expected to be schemas are those that the check looks
  at. -/
  reaches_iff : ∀ value, Reaches document value ↔ value.isObject = true ∧
    ∃ trail, .definitions ∉ trail ∧ Position document trail value

/-- In a document that passes the structural check, an object stands wherever a schema
is expected, or a boolean under `additionalProperties`, unless the position lies under
`definitions`.  The check does not look there. -/
theorem agreeOnSchemas_of_accepted {referenceKey : String}
    {document result : Value}
    (accepted :
      ((Check.structural referenceKey).run document).result = .ok result) :
    AgreeOnSchemas document := by
  have noViolation := (Check.run_structural_eq_ok_iff.mp accepted).1
  obtain ⟨-, -, root⟩ := firstViolation_eq_none_iff.mp noViolation
  have isObject {value : Value} (reaches : Reaches document value) :
      value.isObject = true :=
    (wellShaped_of_accepted (reaches.accepted root)).isObject
  constructor
  · intro trail value position noDefinitions
    exact (position.reaches root noDefinitions).imp_left isObject
  · intro value
    constructor
    · exact fun reaches => ⟨isObject reaches, reaches.position⟩
    · rintro ⟨notBool, trail, noDefinitions, position⟩
      rcases position.reaches root noDefinitions with reaches | ⟨-, isBool⟩
      · exact reaches
      · cases value <;> simp [Value.isObject, Value.isBool] at notBool isBool

/-- A document with a schema under each keyword, and no schema in its definitions. -/
theorem agreeOnSchemas_of_accepted_tags :
    let document : Value := .object
      [("properties", .object
        [("tags", .object
          [("items", .array [.object [("type", .string "string")]]),
            ("definitions", .object [("Tag", .number (.int 5))])])]),
        ("variants", .object [("empty", .object [])]),
        ("additionalProperties", .bool false)]
    ((Check.structural "$ref").run document).result = .ok document ∧
      AgreeOnSchemas document := by
  intro document
  have accepted : ((Check.structural "$ref").run document).result =
      .ok document :=
    Check.run_structural_eq_ok_iff.mpr ⟨by decide, rfl⟩
  exact ⟨accepted, agreeOnSchemas_of_accepted accepted⟩

/-- Under `definitions` a schema is expected, and the structural check accepts anything
there. -/
theorem not_forall_holdsObject :
    ¬∀ (referenceKey : String) (document result : Value),
      ((Check.structural referenceKey).run document).result = .ok result →
        ∀ trail value, Position document trail value → value.isObject = true ∨
          trail.getLast? = some .additionalProperties ∧ value.isBool = true := by
  intro all
  let tags : Value := .object
    [("definitions", .object [("Tag", .number (.int 5))])]
  let document : Value := .object [("properties", .object [("tags", tags)])]
  have accepted : ((Check.structural "$ref").run document).result =
      .ok document :=
    Check.run_structural_eq_ok_iff.mpr ⟨by decide, rfl⟩
  have isProperty : ("tags", tags) ∈ [("tags", tags)] := List.mem_cons_self
  have atTags : Position document ([] ++ [.properties]) tags :=
    Position.root.inner (.property rfl isProperty)
  have isDefinition : ("Tag", Value.number (.int 5)) ∈
      [("Tag", Value.number (.int 5))] := List.mem_cons_self
  have atTag : Position document ([] ++ [.properties] ++ [.definitions])
      (.number (.int 5)) :=
    atTags.inner (.definition rfl isDefinition)
  have holds := all "$ref" document document accepted _ _ atTag
  simp [Value.isObject, Value.isBool] at holds

end Longhand.Schema
