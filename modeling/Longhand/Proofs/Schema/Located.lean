import Longhand.Proofs.Compile.Stages
import Longhand.Proofs.Pointer
import Longhand.Proofs.Schema.Structure

/-!
# Where the structural check points

The structural check accepts what has the structure of a finished document, and
nothing else.  A rejection names a rule and points to a place: read as keys and
indices and followed from the root, the pointer leads to something in the document
that breaks this rule.
-/

namespace Longhand

namespace Schema

/-! ## Schemas and where they stand -/

/-- A schema contains a schema, this far below it. -/
inductive ContainsAt (schema : Value) : Pointer → Value → Prop
  | property {properties : Members Value} {name : String} {inner : Value}
      (found : schema.get? "properties" = some (.object properties))
      (isMember : Members.get? properties name = some inner) :
      ContainsAt schema ["properties", name] inner
  | items {inner : Value} (found : schema.get? "items" = some inner)
      (noArray : ∀ items, inner ≠ .array items) :
      ContainsAt schema ["items"] inner
  | item {items : List Value} {index : Nat} {inner : Value}
      (found : schema.get? "items" = some (.array items))
      (isItem : items[index]? = some inner) :
      ContainsAt schema ["items", toString index] inner
  | additional {inner : Value}
      (found : schema.get? "additionalProperties" = some inner)
      (noBool : inner.isBool = false) :
      ContainsAt schema ["additionalProperties"] inner
  | namedVariant {variants : Members Value} {name : String} {inner : Value}
      (found : schema.get? "variants" = some (.object variants))
      (isMember : Members.get? variants name = some inner) :
      ContainsAt schema ["variants", name] inner
  | variant {variants : List Value} {index : Nat} {inner : Value}
      (found : schema.get? "variants" = some (.array variants))
      (isItem : variants[index]? = some inner) :
      ContainsAt schema ["variants", toString index] inner

/-- A schema stands at a place below the root, which is a schema itself. -/
inductive SchemaAt : Value → Pointer → Value → Prop
  | root {schema : Value} : SchemaAt schema [] schema
  | inner {root inner schema : Value} {tokens pointer : Pointer}
      (contains : ContainsAt root tokens inner)
      (further : SchemaAt inner pointer schema) :
      SchemaAt root (tokens ++ pointer) schema

variable {root schema inner whole value node document : Value}
variable {tokens pointer : Pointer}

theorem ContainsAt.contains (contains : ContainsAt schema tokens inner) :
    Contains schema inner := by
  cases contains with
  | property found isMember =>
      exact .property found (Members.mem_of_get?_eq_some isMember)
  | items found noArray => exact .items found noArray
  | item found isItem => exact .item found (List.mem_of_getElem? isItem)
  | additional found noBool => exact .additional found noBool
  | namedVariant found isMember =>
      exact .namedVariant found (Members.mem_of_get?_eq_some isMember)
  | variant found isItem => exact .variant found (List.mem_of_getElem? isItem)

/-- What a schema contains is found by following the way to it. -/
theorem ContainsAt.follow? (contains : ContainsAt schema tokens inner) :
    schema.follow? tokens = some inner := by
  cases contains with
  | items found _ | additional found _ =>
      rw [Value.follow?_cons, Value.step?_of_get? found, Option.bind_some,
        Value.follow?_nil]
  | property found isMember | namedVariant found isMember =>
      rw [Value.follow?_cons, Value.step?_of_get? found, Option.bind_some,
        Value.follow?_cons, Value.step?_object, isMember, Option.bind_some,
        Value.follow?_nil]
  | item found isItem | variant found isItem =>
      rw [Value.follow?_cons, Value.step?_of_get? found, Option.bind_some,
        Value.follow?_cons, Value.step?_array, isItem, Option.bind_some,
        Value.follow?_nil]

theorem SchemaAt.reaches (isSchema : SchemaAt root pointer schema) :
    Reaches root schema := by
  induction isSchema with
  | root => exact .refl
  | inner contains _ ih => exact .head contains.contains ih

theorem SchemaAt.follow? (isSchema : SchemaAt root pointer schema) :
    root.follow? pointer = some schema := by
  induction isSchema with
  | root => exact Value.follow?_nil _
  | inner contains _ ih =>
      rw [Value.follow?_append, contains.follow?, Option.bind_some, ih]

/-- A member of a schema is found behind its key. -/
theorem SchemaAt.follow?_member {key : String}
    (isSchema : SchemaAt root pointer schema)
    (found : schema.get? key = some value) :
    root.follow? (pointer ++ [key]) = some value := by
  rw [Value.follow?_append, isSchema.follow?, Option.bind_some, Value.follow?_cons,
    Value.step?_of_get? found, Option.bind_some, Value.follow?_nil]

/-! ## What breaks a rule -/

/-- Something at a place below a schema breaks a rule about the shape of schemas. -/
inductive Misshapen (root : Value) : Rule → Pointer → Value → Prop
  | schemaIsObject {pointer : Pointer} {schema : Value}
      (isSchema : SchemaAt root pointer schema)
      (isOther : schema.isObject = false) :
      Misshapen root .schemaIsObject pointer schema
  | typeIsString {pointer : Pointer} {schema value : Value}
      (isSchema : SchemaAt root pointer schema)
      (found : schema.get? "type" = some value)
      (isOther : value.isString = false) :
      Misshapen root .typeIsString (pointer ++ ["type"]) value
  | propertiesIsObject {pointer : Pointer} {schema value : Value}
      (isSchema : SchemaAt root pointer schema)
      (found : schema.get? "properties" = some value)
      (isOther : value.isObject = false) :
      Misshapen root .propertiesIsObject (pointer ++ ["properties"]) value
  | variantsIsObjectOrArray {pointer : Pointer} {schema value : Value}
      (isSchema : SchemaAt root pointer schema)
      (found : schema.get? "variants" = some value)
      (noObject : value.isObject = false)
      (noArray : ∀ items, value ≠ .array items) :
      Misshapen root .variantsIsObjectOrArray (pointer ++ ["variants"]) value

/-- Something at a place in a document breaks a rule. -/
inductive Breaks (referenceKey : String) (document : Value) :
    Rule → Pointer → Value → Prop
  | rootIsObject (isOther : document.isObject = false) :
      Breaks referenceKey document .rootIsObject [] document
  | noMarker {pointer : Pointer} {members : Members Value}
      (isThere : document.follow? pointer = some (.object members))
      (isMarker : referenceKey ∈ Members.keys members) :
      Breaks referenceKey document (.noMarker referenceKey) pointer
        (.object members)
  | misshapen {rule : Rule} {pointer : Pointer} {node : Value}
      (misshapen : Misshapen document rule pointer node) :
      Breaks referenceKey document rule pointer node

variable {rule : Rule} {violation : Violation} {referenceKey : String}

/-- What is misshapen in a schema is misshapen in each schema around it. -/
theorem Misshapen.under (misshapen : Misshapen inner rule pointer node)
    (contains : ContainsAt root tokens inner) :
    Misshapen root rule (tokens ++ pointer) node := by
  cases misshapen with
  | schemaIsObject isSchema isOther =>
      exact .schemaIsObject (.inner contains isSchema) isOther
  | typeIsString isSchema found isOther =>
      rw [← List.append_assoc]
      exact .typeIsString (.inner contains isSchema) found isOther
  | propertiesIsObject isSchema found isOther =>
      rw [← List.append_assoc]
      exact .propertiesIsObject (.inner contains isSchema) found isOther
  | variantsIsObjectOrArray isSchema found noObject noArray =>
      rw [← List.append_assoc]
      exact .variantsIsObjectOrArray (.inner contains isSchema) found noObject
        noArray

theorem Misshapen.follow? (misshapen : Misshapen root rule pointer node) :
    root.follow? pointer = some node := by
  cases misshapen with
  | schemaIsObject isSchema _ => exact isSchema.follow?
  | typeIsString isSchema found _
  | propertiesIsObject isSchema found _
  | variantsIsObjectOrArray isSchema found _ _ =>
      exact isSchema.follow?_member found

theorem Breaks.follow?
    (breaks : Breaks referenceKey document rule pointer node) :
    document.follow? pointer = some node := by
  cases breaks with
  | rootIsObject _ => exact Value.follow?_nil _
  | noMarker isThere _ => exact isThere
  | misshapen misshapen => exact misshapen.follow?

/-! ## What the walks report -/

/-- A marker that is reported stands where the report says. -/
theorem exists_marker_of_firstMarker (wellFormed : value.WellFormed)
    (found : firstMarker referenceKey value = some violation) :
    violation.rule = .noMarker referenceKey ∧
      ∃ members, value.follow? violation.pointer = some (.object members) ∧
        referenceKey ∈ Members.keys members := by
  induction value using Value.inductionOnParts generalizing violation with
  | scalar noArray noObject =>
      rw [firstMarker] at found
      · simp at found
      · exact noArray
      · exact noObject
  | array items ih =>
      rw [firstMarker, markerInItems_eq] at found
      obtain ⟨index, item, inner, isItem, inItem, rfl⟩ :=
        exists_of_firstInItems found
      have mem := List.mem_of_getElem? isItem
      have itemWellFormed := Value.wellFormed_array_iff.mp wellFormed item mem
      obtain ⟨sameRule, members, isThere, isMarker⟩ := ih item mem itemWellFormed inItem
      refine ⟨sameRule, members, ?_, isMarker⟩
      rw [Nat.zero_add, Violation.under, Value.follow?_cons, Value.step?_array, isItem,
        Option.bind_some, isThere]
  | object members ih =>
      obtain ⟨distinct, membersWellFormed⟩ := Value.wellFormed_object_iff.mp wellFormed
      rw [firstMarker] at found
      split at found
      · rename_i isMarker
        obtain rfl := Option.some.inj found
        exact ⟨rfl, members, rfl, (Members.contains_iff members referenceKey).mp isMarker⟩
      · rw [markerInMembers_eq] at found
        obtain ⟨pair, mem, inner, inMember, rfl⟩ := exists_of_firstInMembers found
        obtain ⟨sameRule, others, isThere, isMarker⟩ :=
          ih pair mem (membersWellFormed pair mem) inMember
        have isMember := Members.get?_eq_some_of_mem distinct mem
        refine ⟨sameRule, others, ?_, isMarker⟩
        rw [Violation.under, Value.follow?_cons, Value.step?_object, isMember,
          Option.bind_some, isThere]

/-- What is reported of a value, taken as a schema, is misshapen in it. -/
def Located (value : Value) : Prop :=
  ∀ violation, firstMisshapen .schema value = some violation →
    ∃ node, Misshapen value violation.rule violation.pointer node

/-- A report on a schema holds in the schema that contains it. -/
theorem Located.under (located : Located inner)
    (contains : ContainsAt whole tokens inner)
    (found : firstMisshapen .schema inner = some violation) :
    ∃ node, Misshapen whole violation.rule (tokens ++ violation.pointer) node := by
  obtain ⟨node, misshapen⟩ := located violation found
  exact ⟨node, misshapen.under contains⟩

/-- What is reported of the members and items of a value is misshapen in them, and
each member is the one that is found under its key. -/
structure PartsLocated (value : Value) : Prop where
  member : ∀ {members : Members Value}, value = .object members →
    ∀ pair ∈ members, Members.get? members pair.1 = some pair.2 ∧ Located pair.2
  item : ∀ {items : List Value}, value = .array items → ∀ item ∈ items, Located item

theorem misshapen_of_properties (inParts : PartsLocated value)
    (here : whole.get? "properties" = some value)
    (found : firstMisshapen .properties value = some violation) :
    ∃ node, Misshapen whole violation.rule ("properties" :: violation.pointer)
      node := by
  cases value with
  | object members =>
      rw [firstMisshapen, misshapenMember_eq] at found
      obtain ⟨pair, mem, inner, inMember, rfl⟩ := exists_of_firstInMembers found
      obtain ⟨isThere, located⟩ := inParts.member rfl pair mem
      exact located.under (.property here isThere) inMember
  | _ =>
      simp only [firstMisshapen, Option.some.injEq] at found
      subst found
      exact ⟨_, .propertiesIsObject .root here rfl⟩

theorem misshapen_of_items (located : Located value) (inParts : PartsLocated value)
    (here : whole.get? "items" = some value)
    (found : firstMisshapen .items value = some violation) :
    ∃ node, Misshapen whole violation.rule ("items" :: violation.pointer) node := by
  by_cases isArray : ∃ items, value = .array items
  · obtain ⟨items, rfl⟩ := isArray
    rw [firstMisshapen, misshapenItem_eq] at found
    obtain ⟨index, item, inner, isThere, inItem, rfl⟩ := exists_of_firstInItems found
    have itemLocated := inParts.item rfl item (List.mem_of_getElem? isThere)
    rw [Nat.zero_add]
    exact itemLocated.under (.item here isThere) inItem
  · rw [not_exists] at isArray
    rw [firstMisshapen_items_of_not_array isArray] at found
    exact located.under (.items here isArray) found

theorem misshapen_of_additional (located : Located value)
    (here : whole.get? "additionalProperties" = some value)
    (found : firstMisshapen .additional value = some violation) :
    ∃ node, Misshapen whole violation.rule
      ("additionalProperties" :: violation.pointer) node := by
  cases isBool : value.isBool with
  | true =>
      cases value with
      | bool value => simp [firstMisshapen] at found
      | _ => simp [Value.isBool] at isBool
  | false =>
      rw [firstMisshapen_additional_of_not_bool isBool] at found
      exact located.under (.additional here isBool) found

theorem misshapen_of_variants (inParts : PartsLocated value)
    (here : whole.get? "variants" = some value)
    (found : firstMisshapen .variants value = some violation) :
    ∃ node, Misshapen whole violation.rule ("variants" :: violation.pointer)
      node := by
  cases value with
  | object members =>
      rw [firstMisshapen, misshapenMember_eq] at found
      obtain ⟨pair, mem, inner, inMember, rfl⟩ := exists_of_firstInMembers found
      obtain ⟨isThere, located⟩ := inParts.member rfl pair mem
      exact located.under (.namedVariant here isThere) inMember
  | array items =>
      rw [firstMisshapen, misshapenItem_eq] at found
      obtain ⟨index, item, inner, isThere, inItem, rfl⟩ := exists_of_firstInItems found
      have itemLocated := inParts.item rfl item (List.mem_of_getElem? isThere)
      rw [Nat.zero_add]
      exact itemLocated.under (.variant here isThere) inItem
  | _ =>
      simp only [firstMisshapen, Option.some.injEq] at found
      subst found
      exact ⟨_, .variantsIsObjectOrArray .root here rfl (by simp)⟩

/-- A report on a value at one of the places of a schema holds in that schema. -/
theorem misshapen_of_place {key : String} {place : Place} (located : Located value)
    (inParts : PartsLocated value) (isPlace : (key, place) ∈ places)
    (here : whole.get? key = some value)
    (found : firstMisshapen place value = some violation) :
    ∃ node, Misshapen whole violation.rule (key :: violation.pointer) node := by
  simp only [places, List.mem_cons, List.not_mem_nil, or_false, Prod.mk.injEq]
    at isPlace
  rcases isPlace with ⟨rfl, rfl⟩ | ⟨rfl, rfl⟩ | ⟨rfl, rfl⟩ | ⟨rfl, rfl⟩
  · exact misshapen_of_properties inParts here found
  · exact misshapen_of_items located inParts here found
  · exact misshapen_of_additional located here found
  · exact misshapen_of_variants inParts here found

/-- A `type` that is reported is no string. -/
theorem misshapen_of_typeViolation {members : Members Value}
    (found : typeViolation members = some violation) :
    ∃ node, Misshapen (.object members) violation.rule violation.pointer node := by
  rw [typeViolation] at found
  split at found
  · simp at found
  · rename_i value noString here
    obtain rfl := Option.some.inj found
    have isOther : value.isString = false := by
      cases value with
      | string text => exact absurd rfl (noString text)
      | _ => rfl
    exact ⟨value, .typeIsString .root here isOther⟩
  · simp at found

/-- What is no object is reported as such. -/
theorem located_of_not_isObject (isOther : value.isObject = false) :
    Located value := by
  intro violation found
  have isReport : violation = ⟨[], .schemaIsObject⟩ := by
    cases value with
    | object members => simp [Value.isObject] at isOther
    | _ =>
        simp only [firstMisshapen, Option.some.injEq] at found
        exact found.symm
  subst isReport
  exact ⟨value, .schemaIsObject .root isOther⟩

/-- A report on an object is one on its `type` or on what it holds at a place. -/
theorem located_object {members : Members Value}
    (inMembers : ∀ pair ∈ members, Located pair.2 ∧ PartsLocated pair.2) :
    Located (.object members) := by
  intro violation found
  rw [firstMisshapen] at found
  · split at found
    · rename_i badType
      obtain rfl := Option.some.inj found
      exact misshapen_of_typeViolation badType
    · obtain ⟨⟨key, place⟩, isPlace, found⟩ :=
        List.exists_of_findSome?_eq_some found
      obtain ⟨value, inner, here, inValue, rfl⟩ := exists_of_misshapenAt found
      obtain ⟨located, inParts⟩ :=
        inMembers (key, value) (Members.mem_of_get?_eq_some here)
      have isThere : (Value.object members).get? key = some value := here
      exact misshapen_of_place located inParts isPlace isThere inValue
  · simp
  · simp

/-- Every report on a schema is true of the place it points to. -/
theorem located_of_wellFormed (wellFormed : value.WellFormed) :
    Located value ∧ PartsLocated value := by
  -- An object looks through its members at what stands inside them, so the parts go along.
  induction value using Value.inductionOnParts with
  | @scalar value noArray noObject =>
      have isOther : value.isObject = false := by
        rw [Bool.eq_false_iff, ne_eq, Value.isObject_iff, not_exists]
        exact noObject
      exact ⟨located_of_not_isObject isOther, fun same => absurd same (noObject _),
        fun same => absurd same (noArray _)⟩
  | array items ih =>
      have itemsWellFormed := Value.wellFormed_array_iff.mp wellFormed
      refine ⟨located_of_not_isObject rfl, nofun, ?_⟩
      intro others same item mem
      obtain rfl := Value.array.inj same
      exact (ih item mem (itemsWellFormed item mem)).1
  | object members ih =>
      obtain ⟨distinct, membersWellFormed⟩ := Value.wellFormed_object_iff.mp wellFormed
      have inMembers (pair) (mem : pair ∈ members) :=
        ih pair mem (membersWellFormed pair mem)
      refine ⟨located_object inMembers, ?_, nofun⟩
      intro others same pair mem
      obtain rfl := Value.object.inj same
      exact ⟨Members.get?_eq_some_of_mem distinct mem, (inMembers pair mem).1⟩

/-- Every report on a document is true of the place it points to. -/
theorem breaks_of_firstViolation (wellFormed : document.WellFormed)
    (found : firstViolation referenceKey document = some violation) :
    ∃ node, Breaks referenceKey document violation.rule violation.pointer node := by
  rw [firstViolation] at found
  split at found
  · split at found
    · rename_i inDocument
      obtain rfl := Option.some.inj found
      obtain ⟨sameRule, members, isThere, isMarker⟩ :=
        exists_marker_of_firstMarker wellFormed inDocument
      rw [sameRule]
      exact ⟨.object members, .noMarker isThere isMarker⟩
    · obtain ⟨node, misshapen⟩ := (located_of_wellFormed wellFormed).1 violation found
      exact ⟨node, .misshapen misshapen⟩
  · rename_i isOther
    obtain rfl := Option.some.inj found
    exact ⟨document, .rootIsObject (Bool.eq_false_iff.mpr isOther)⟩

/-! ## What passes -/

/-- A document has the structure of a finished one. -/
structure WellStructured (referenceKey : String) (document : Value) : Prop where
  isObject : document.isObject = true
  noMarker : document.EveryObject fun members => referenceKey ∉ Members.keys members
  wellShaped : ∀ schema, Reaches document schema → WellShaped schema

/-- A value that a pointer leads to is a part. -/
theorem part_of_follow? (isThere : document.follow? pointer = some node) :
    Value.Part node document := by
  induction pointer generalizing document with
  | nil =>
      obtain rfl := Option.some.inj isThere
      exact .whole
  | cons token rest ih =>
      rw [Value.follow?_cons, Option.bind_eq_some_iff] at isThere
      obtain ⟨inner, isInner, isThere⟩ := isThere
      cases document with
      | object members => exact .member (Members.mem_of_get?_eq_some isInner) (ih isThere)
      | array items =>
          obtain ⟨index, -, isItem⟩ := Option.bind_eq_some_iff.mp isInner
          exact .item (List.mem_of_getElem? isItem) (ih isThere)
      | _ => simp [Value.step?] at isInner

theorem not_wellShaped_of_misshapen (misshapen : Misshapen root rule pointer node) :
    ∃ schema, Reaches root schema ∧ ¬WellShaped schema := by
  cases misshapen with
  | schemaIsObject isSchema isOther =>
      refine ⟨_, isSchema.reaches, fun wellShaped => ?_⟩
      simp [wellShaped.isObject] at isOther
  | typeIsString isSchema found isOther =>
      refine ⟨_, isSchema.reaches, fun wellShaped => ?_⟩
      simp [wellShaped.typeIsString _ found] at isOther
  | propertiesIsObject isSchema found isOther =>
      refine ⟨_, isSchema.reaches, fun wellShaped => ?_⟩
      simp [wellShaped.propertiesIsObject _ found] at isOther
  | variantsIsObjectOrArray isSchema found noObject noArray =>
      refine ⟨_, isSchema.reaches, fun wellShaped => ?_⟩
      rcases wellShaped.variantsIsObjectOrArray _ found with isObject | ⟨items, isArray⟩
      · simp [isObject] at noObject
      · exact noArray items isArray

/-- Where a rule is broken the structure is not that of a finished document. -/
theorem Breaks.not_wellStructured
    (breaks : Breaks referenceKey document rule pointer node) :
    ¬WellStructured referenceKey document := by
  intro wellStructured
  cases breaks with
  | rootIsObject isOther => simp [wellStructured.isObject] at isOther
  | noMarker isThere isMarker =>
      exact wellStructured.noMarker _ (part_of_follow? isThere) isMarker
  | misshapen misshapen =>
      obtain ⟨schema, reaches, badlyShaped⟩ := not_wellShaped_of_misshapen misshapen
      exact badlyShaped (wellStructured.wellShaped schema reaches)

theorem wellStructured_of_accepted
    (accepted : firstViolation referenceKey document = none) :
    WellStructured referenceKey document := by
  obtain ⟨isObject, noMarker, shaped⟩ := firstViolation_eq_none_iff.mp accepted
  refine ⟨isObject, noMarker, ?_⟩
  intro schema reaches
  exact wellShaped_of_accepted (reaches.accepted shaped)

/-- No violation is found exactly in what has the structure of a finished document. -/
theorem firstViolation_eq_none_iff_wellStructured (wellFormed : document.WellFormed) :
    firstViolation referenceKey document = none ↔
      WellStructured referenceKey document := by
  refine ⟨wellStructured_of_accepted, fun wellStructured => ?_⟩
  cases found : firstViolation referenceKey document with
  | none => rfl
  | some violation =>
      obtain ⟨node, breaks⟩ := breaks_of_firstViolation wellFormed found
      exact absurd wellStructured breaks.not_wellStructured

end Schema

namespace Check

open Schema (Breaks WellStructured)

/-- The structural check accepts exactly the documents that have the structure of a
finished one, and returns them unchanged.  A rejection carries the wording of one
rule.  Its pointer is the text of one that leads, followed from the root, to something
in the document that breaks this rule. -/
theorem run_structural_located (referenceKey : String) {document : Value}
    (wellFormed : document.WellFormed) :
    (∀ result, ((structural referenceKey).run document).result = .ok result ↔
        WellStructured referenceKey document ∧ result = document) ∧
      ∀ rejection,
        ((structural referenceKey).run document).result = .error rejection →
          rejection.check = structuralName ∧
            ∃ rule pointer node,
              rejection.message = rule.text ∧
                (∀ other : Schema.Rule, rejection.message = other.text →
                  other = rule) ∧
                Pointer.ofText? rejection.pointer = some pointer ∧
                document.follow? pointer = some node ∧
                Breaks referenceKey document rule pointer node := by
  constructor
  · intro result
    rw [run_structural_eq_ok_iff,
      Schema.firstViolation_eq_none_iff_wellStructured wellFormed, eq_comm]
  · intro rejection rejected
    change runStructural referenceKey document = _ at rejected
    rw [runStructural] at rejected
    split at rejected
    · simp at rejected
    · rename_i violation found
      obtain rfl := Except.error.inj rejected
      obtain ⟨node, breaks⟩ := Schema.breaks_of_firstViolation wellFormed found
      refine ⟨rfl, violation.rule, violation.pointer, node, rfl, ?_, ?_, ?_, breaks⟩
      · intro other same
        exact (Schema.Rule.text_injective same).symm
      · exact Pointer.ofText?_text violation.pointer
      · exact breaks.follow?

/-- A `type` that is no string, in an item below a key with a slash and a tilde. -/
theorem run_structural_located_item :
    let document : Value := .object
      [("properties", .object [("a/b~", .object
        [("items", .array
          [.object [("type", .string "string")],
            .object [("type", .array [.null])]])])])]
    let rejection : Rejection :=
      { check := "structure"
        pointer := "/properties/a~1b~0/items/1/type"
        message := "`type` must be a string" }
    document.WellFormed ∧
      ((structural "$ref").run document).result = .error rejection ∧
      Breaks "$ref" document .typeIsString ["properties", "a/b~", "items", "1", "type"]
        (.array [.null]) ∧
      ¬WellStructured "$ref" document := by
  intro document rejection
  have wellFormed : document.WellFormed := by
    simp [document, Value.WellFormed, Value.WellFormedItems, Value.WellFormedMembers,
      Members.keys]
  have rejected : ((structural "$ref").run document).result = .error rejection := by
    rfl
  obtain ⟨accepts, rejects⟩ := run_structural_located "$ref" wellFormed
  obtain ⟨-, rule, pointer, node, -, named, read, isThere, breaks⟩ :=
    rejects rejection rejected
  have isRule : .typeIsString = rule := named .typeIsString rfl
  have isPointer : pointer = ["properties", "a/b~", "items", "1", "type"] := by
    have spelled := Pointer.ofText?_text ["properties", "a/b~", "items", "1", "type"]
    exact Option.some.inj (read.symm.trans spelled)
  subst isRule isPointer
  have found : document.follow? ["properties", "a/b~", "items", "1", "type"] =
      some (.array [.null]) := by
    rfl
  have isNode : Value.array [.null] = node := Option.some.inj (found.symm.trans isThere)
  subst isNode
  exact ⟨wellFormed, rejected, breaks, breaks.not_wellStructured⟩

end Check

end Longhand
