import Longhand.Proofs.Schema.Positions
import Longhand.Proofs.Value.Route

/-!
# What expanding bare type names changes

Whether a string is a bare type name depends on the whole route to it: every step from
the root tells what is expected next.  Expanding replaces the strings where a schema is
expected by their long forms, and changes nothing else in a value.
-/

namespace Longhand.Schema

open Value (LiesAt)

/-! ## Where schemas stand -/

/-- A schema with these members expects a schema at the end of a route. -/
inductive ExpectsAt (members : Members Value) : Route → Value → Prop
  | property {properties : Members Value} {pair : String × Value}
      (under : ("properties", .object properties) ∈ members) (mem : pair ∈ properties) :
      ExpectsAt members [.member "properties", .member pair.1] pair.2
  | definition {definitions : Members Value} {pair : String × Value}
      (under : ("definitions", .object definitions) ∈ members)
      (mem : pair ∈ definitions) :
      ExpectsAt members [.member "definitions", .member pair.1] pair.2
  | items {inner : Value} (under : ("items", inner) ∈ members)
      (noArray : ∀ items, inner ≠ .array items) :
      ExpectsAt members [.member "items"] inner
  | item {items : List Value} {index : Nat} {inner : Value}
      (under : ("items", .array items) ∈ members) (isItem : items[index]? = some inner) :
      ExpectsAt members [.member "items", .item index] inner
  | onlyVariant {inner : Value} (under : ("variants", inner) ∈ members)
      (noArray : ∀ items, inner ≠ .array items)
      (noObject : ∀ members, inner ≠ .object members) :
      ExpectsAt members [.member "variants"] inner
  | namedVariant {variants : Members Value} {pair : String × Value}
      (under : ("variants", .object variants) ∈ members) (mem : pair ∈ variants) :
      ExpectsAt members [.member "variants", .member pair.1] pair.2
  | variant {variants : List Value} {index : Nat} {inner : Value}
      (under : ("variants", .array variants) ∈ members)
      (isItem : variants[index]? = some inner) :
      ExpectsAt members [.member "variants", .item index] inner
  | additional {inner : Value} (under : ("additionalProperties", inner) ∈ members) :
      ExpectsAt members [.member "additionalProperties"] inner

/-- A schema stands at the end of a route: at the root, or where another such schema
expects one. -/
inductive SchemaStandsAt (root : Value) : Route → Value → Prop
  | root : SchemaStandsAt root [] root
  | inner {route below : Route} {members : Members Value} {inner : Value}
      (outer : SchemaStandsAt root route (.object members))
      (expects : ExpectsAt members below inner) :
      SchemaStandsAt root (route ++ below) inner

/-! ## Roles along a route -/

/-- The role of a part, one step inside a value of this role. -/
def Role.after : Role → Route.Step → Role
  | role, .member key => role.ofMember key
  | role, .item _ => role.ofItem

/-- The role of a part, at the end of a route inside a value of this role. -/
def Role.along (role : Role) (route : Route) : Role :=
  route.foldl Role.after role

variable {root inner value : Value} {members : Members Value} {route below : Route}
  {role : Role}

theorem Role.along_append (role : Role) (route below : Route) :
    role.along (route ++ below) = (role.along route).along below :=
  List.foldl_append

/-- What a string in a value of this role gives way to, by the route to it. -/
def expandName (role : Role) (route : Route) (name : String) : Value :=
  if (role.along route).namesType then named name else .string name

/-- Expanding changes every string by its role, and nothing else. -/
theorem expandAs_eq_mapStrings (role : Role) (value : Value) :
    expandAs role value = value.mapStrings (expandName role) := by
  induction value using Value.inductionOnParts generalizing role with
  | @scalar value noArray noObject =>
      cases value with
      | string name => rfl
      | array items => exact absurd rfl (noArray items)
      | object members => exact absurd rfl (noObject members)
      | _ => rfl
  | array items ih =>
      rw [expandAs, expandItems_eq_map, Value.mapStrings_array]
      apply congrArg
      apply List.ext_getElem (by simp)
      intro index inRange _
      rw [List.getElem_map, List.getElem_mapIdx]
      exact ih _ (List.getElem_mem _) role.ofItem
  | object members ih =>
      rw [expandAs, expandMembers_eq_map, Value.mapStrings_object]
      apply congrArg
      apply List.map_congr_left
      intro pair mem
      rw [ih pair mem]
      rfl

/-! ## Schemas by their roles -/

/-- What a schema expects below it is a schema by its role. -/
theorem ExpectsAt.isSchemaAt (expects : ExpectsAt members below inner)
    (isSchema : role.IsSchemaAt (.object members)) :
    (role.along below).IsSchemaAt inner := by
  have first (key : String) (rest : Route) :
      role.along (.member key :: rest) = (keywordRole key).along rest := by
    change (role.ofMember key).along rest = _
    rw [isSchema.ofMember_eq]
  cases expects with
  | property | definition | item | namedVariant | variant | additional =>
      rw [first]
      trivial
  | items _ noArray =>
      rw [first]
      exact noArray
  | onlyVariant _ noArray noObject =>
      rw [first]
      cases inner with
      | object members => exact absurd rfl (noObject members)
      | _ => exact ⟨rfl, noArray⟩

/-- What stands as a schema at the end of a route is one by its role. -/
theorem SchemaStandsAt.isSchemaAt (stands : SchemaStandsAt root route value) :
    (Role.schema.along route).IsSchemaAt value := by
  induction stands with
  | root => trivial
  | inner _ expects ih =>
      rw [Role.along_append]
      exact expects.isSchemaAt ih

/-- A route leads to a value under a keyword of a schema. -/
inductive KeywordAt (root : Value) (keyword : String) : Route → Value → Prop
  | intro {route : Route} {members : Members Value} {value : Value}
      (schema : SchemaStandsAt root route (.object members))
      (mem : (keyword, value) ∈ members) :
      KeywordAt root keyword (route ++ [.member keyword]) value

/-- What stands in this role, told by the schemas on the route to it. -/
def Role.Holds (root : Value) : Role → Route → Value → Prop
  | .schema => SchemaStandsAt root
  | .namedSchemas => fun route value =>
      KeywordAt root "properties" route value ∨ KeywordAt root "definitions" route value
  | .schemaOrItems => KeywordAt root "items"
  | .schemaOrVariants => KeywordAt root "variants"
  | .other => fun _ _ => True

theorem SchemaStandsAt.holds_keyword {pair : String × Value}
    (schema : SchemaStandsAt root route (.object members)) (mem : pair ∈ members) :
    (keywordRole pair.1).Holds root (route ++ [.member pair.1]) pair.2 := by
  rcases pair with ⟨key, value⟩
  fun_cases keywordRole key with
  | case1 isNamed =>
      rcases isNamed with rfl | rfl
      · exact .inl (.intro schema mem)
      · exact .inr (.intro schema mem)
  | case2 _ isItems =>
      subst isItems
      exact .intro schema mem
  | case3 _ _ isVariants =>
      subst isVariants
      exact .intro schema mem
  | case4 _ _ _ isAdditional =>
      subst isAdditional
      exact .inner schema (.additional mem)
  | case5 => trivial

/-- A member stands in its role when the object does. -/
theorem Role.Holds.member {pair : String × Value}
    (holds : role.Holds root route (.object members)) (mem : pair ∈ members) :
    (role.ofMember pair.1).Holds root (route ++ [.member pair.1]) pair.2 := by
  cases role with
  | schema => exact SchemaStandsAt.holds_keyword holds mem
  | namedSchemas =>
      rcases holds with ⟨schema, under⟩ | ⟨schema, under⟩
      · rw [List.append_assoc]
        exact schema.inner (.property under mem)
      · rw [List.append_assoc]
        exact schema.inner (.definition under mem)
  | schemaOrItems =>
      rcases holds with ⟨schema, under⟩
      exact (schema.inner (.items under (by simp))).holds_keyword mem
  | schemaOrVariants =>
      rcases holds with ⟨schema, under⟩
      rw [List.append_assoc]
      exact schema.inner (.namedVariant under mem)
  | other => trivial

/-- An item stands in its role when the array does. -/
theorem Role.Holds.item {items : List Value} {index : Nat} {item : Value}
    (holds : role.Holds root route (.array items)) (isItem : items[index]? = some item) :
    role.ofItem.Holds root (route ++ [.item index]) item := by
  cases role with
  | schemaOrItems =>
      rcases holds with ⟨schema, under⟩
      rw [List.append_assoc]
      exact schema.inner (.item under isItem)
  | schemaOrVariants =>
      rcases holds with ⟨schema, under⟩
      rw [List.append_assoc]
      exact schema.inner (.variant under isItem)
  | _ => trivial

/-- Every part of a root stands in the role that the route to it tells. -/
theorem holds_of_liesAt (lies : LiesAt root route value) :
    (Role.schema.along route).Holds root route value := by
  induction lies with
  | root => exact SchemaStandsAt.root
  | member _ mem ih =>
      rw [Role.along_append]
      exact ih.member mem
  | item _ isItem ih =>
      rw [Role.along_append]
      exact ih.item isItem

/-- The role of a part tells whether it stands as a schema. -/
theorem isSchemaAt_along_iff (lies : LiesAt root route value) :
    (Role.schema.along route).IsSchemaAt value ↔ SchemaStandsAt root route value := by
  constructor
  · intro isSchema
    have holds := holds_of_liesAt lies
    generalize Role.schema.along route = role at isSchema holds
    cases role with
    | schema => exact holds
    | schemaOrItems =>
        rcases holds with ⟨schema, under⟩
        exact schema.inner (.items under isSchema)
    | schemaOrVariants =>
        rcases holds with ⟨schema, under⟩
        rcases isSchema with ⟨noObject, noArray⟩
        apply schema.inner (.onlyVariant under noArray _)
        rintro members rfl
        cases noObject
    | _ => exact isSchema.elim
  · exact SchemaStandsAt.isSchemaAt

/-- Every role in which a string names a type is one of a schema. -/
theorem Role.namesType_iff {name : String} :
    role.namesType = true ↔ role.IsSchemaAt (.string name) := by
  cases role <;> simp [namesType, IsSchemaAt, Value.isObject]

/-! ## Routes and positions -/

theorem ExpectsAt.liesAt (expects : ExpectsAt members below inner) :
    LiesAt (.object members) below inner := by
  cases expects with
  | property under mem | definition under mem | namedVariant under mem =>
      exact (LiesAt.root.member under).member mem
  | item under isItem | variant under isItem =>
      exact (LiesAt.root.member under).item isItem
  | items under | onlyVariant under | additional under => exact LiesAt.root.member under

theorem SchemaStandsAt.liesAt (stands : SchemaStandsAt root route value) :
    LiesAt root route value := by
  induction stands with
  | root => exact .root
  | inner _ expects ih => exact expects.liesAt.inside ih

/-- A value is expanded in a role when a route along which it has the role leads to it. -/
theorem expandedAs_iff_liesAt :
    ExpandedAs root role value ↔
      ∃ route, LiesAt root route value ∧ Role.schema.along route = role := by
  constructor
  · intro expanded
    induction expanded with
    | root => exact ⟨[], .root, rfl⟩
    | member _ mem ih =>
        rcases ih with ⟨route, lies, rfl⟩
        exact ⟨_, lies.member mem, Role.along_append _ _ _⟩
    | item _ mem ih =>
        rcases ih with ⟨route, lies, rfl⟩
        rcases List.getElem?_of_mem mem with ⟨index, isItem⟩
        exact ⟨_, lies.item isItem, Role.along_append _ _ _⟩
  · rintro ⟨route, lies, rfl⟩
    induction lies with
    | root => exact .root
    | member _ mem ih =>
        rw [Role.along_append]
        exact ih.member mem
    | item _ isItem ih =>
        rw [Role.along_append]
        exact ih.item (List.mem_of_getElem? isItem)

/-- The positions at which schemas are expected are those that a route to a schema leads
to. -/
theorem exists_position_iff_schemaStandsAt (wellFormed : root.WellFormed) :
    (∃ trail, Position root trail value) ↔ ∃ route, SchemaStandsAt root route value := by
  rw [exists_position_iff_expandedAs wellFormed]
  constructor
  · rintro ⟨role, expanded, isSchema⟩
    rcases expandedAs_iff_liesAt.mp expanded with ⟨route, lies, rfl⟩
    exact ⟨route, (isSchemaAt_along_iff lies).mp isSchema⟩
  · rintro ⟨route, stands⟩
    exact ⟨_, expandedAs_iff_liesAt.mpr ⟨route, stands.liesAt, rfl⟩, stands.isSchemaAt⟩

/-! ## What expanding changes -/

open Classical

/-- Expanding the bare type names of a value replaces the strings that stand as schemas
by their long forms and changes nothing else: every other value, every key and every
order stays. -/
theorem expand_eq_mapStrings (value : Value) :
    expand value = value.mapStrings fun route name =>
      if SchemaStandsAt value route (.string name) then named name
      else .string name := by
  rw [expand, expandAs_eq_mapStrings]
  apply Value.mapStrings_congr
  intro route name lies
  have isSchema := Role.namesType_iff.trans (isSchemaAt_along_iff lies)
  exact ite_congr (propext isSchema) (fun _ => rfl) fun _ => rfl

/-- Properties may be named like keywords, and items of an array of items are no schemas. -/
example :
    expand (.object
        [("type", .string "object"),
          ("properties", .object
            [("items", .string "string"),
              ("properties", .object [("type", .string "Id")])]),
          ("items", .array [.string "Id", .array [.string "Id"]])]) =
      .object
        [("type", .string "object"),
          ("properties", .object
            [("items", .object [("type", .string "string")]),
              ("properties", .object [("type", .string "Id")])]),
          ("items", .array
            [.object [("type", .string "Id")], .array [.string "Id"]])] :=
  rfl

end Longhand.Schema
