import Longhand.Context
import Longhand.Proofs.Fragment.Substitution
import Longhand.Proofs.KeyPath.Plain
import Longhand.Proofs.Schema.Structure

/-!
# What a stage leaves as it is

A stage rewrites what is written in short, and nothing else.  Keys that belong to
no namespace keep their names and places, a value without markers resolves to
itself, and a schema that passes the structural check holds no bare type name.
-/

namespace Longhand

open Value (EveryObject)

/-- A key that stands for itself in every stage. -/
structure Context.PlainKey (context : Context) (key : String) : Prop where
  spellsItself : KeyPath.SpellsItself context.settings.pathSeparator key
  noParts : context.namespacing.parts? key = none
  noDefinitions : key ≠ "definitions"

/-! ## Namespaces -/

namespace Namespacing

/-- An object repeats no key, and none of its keys is namespaced. -/
structure PlainKeys (spec : Namespacing) (members : Members Value) : Prop where
  distinct : (Members.keys members).Nodup
  noParts : ∀ key ∈ Members.keys members, spec.parts? key = none

variable {spec : Namespacing}

/-- The value of a plain key is offered at the lowest rank. -/
theorem classify_of_noParts {key : String} (noParts : spec.parts? key = none) :
    spec.classify key = some (key, 0) := by
  rw [classify, noParts]

/-- A value under a new name goes to the end. -/
theorem offer_new {best : Members (Nat × Value)} {name : String}
    (isNew : name ∉ Members.keys best) (rank : Nat) (value : Value) :
    offer best name rank value = best ++ [(name, (rank, value))] := by
  rw [offer, (Members.get?_eq_none_iff best name).mpr isNew]
  exact Members.set_of_not_mem isNew _

/-- Plain members are collected in their order. -/
theorem normalizeMembers_of_plainKeys {best : Members (Nat × Value)}
    {members : Members Value}
    (distinct : (Members.keys best ++ Members.keys members).Nodup)
    (noParts : ∀ key ∈ Members.keys members, spec.parts? key = none)
    (each : ∀ pair ∈ members, spec.normalize pair.2 = pair.2) :
    spec.normalizeMembers best members =
      best ++ Members.mapValues (fun value => (0, value)) members := by
  induction members generalizing best with
  | nil => simp [normalizeMembers, Members.mapValues]
  | cons pair rest ih =>
      obtain ⟨key, value⟩ := pair
      obtain ⟨first, others⟩ := List.forall_mem_cons.mp each
      rw [Members.keys_cons, List.forall_mem_cons] at noParts
      rw [Members.keys_cons, List.append_cons] at distinct
      have isNew : key ∉ Members.keys best := by
        intro mem
        have front := (List.nodup_append.mp distinct).1
        exact (List.nodup_append.mp front).2.2 key mem key List.mem_cons_self rfl
      have collected : Members.keys (best ++ [(key, ((0 : Nat), value))]) =
          Members.keys best ++ [key] := by
        simp [Members.keys]
      simp only [normalizeMembers, classify_of_noParts noParts.1, first,
        offer_new isNew]
      rw [ih (collected ▸ distinct) noParts.2 others, List.append_assoc]
      rfl

/-- Applying namespaces changes nothing where no key is namespaced. -/
theorem normalize_of_plainKeys {value : Value}
    (plain : value.EveryObject spec.PlainKeys) : spec.normalize value = value := by
  induction value using Value.inductionOnParts with
  | scalar noArray noObject =>
      rw [normalize]
      · exact noArray
      · exact noObject
  | array items ih =>
      rw [Value.everyObject_array_iff] at plain
      rw [normalize, normalizeItems_eq_map,
        List.map_congr_left fun item mem => ih item mem (plain item mem),
        List.map_id']
  | object members ih =>
      obtain ⟨here, inside⟩ := Value.everyObject_object_iff.mp plain
      have each := fun pair mem => ih pair mem (inside pair mem)
      have collected := @normalizeMembers_of_plainKeys _ [] _ here.distinct
        here.noParts each
      rw [normalize, collected]
      simp [Members.mapValues, Function.comp_def]

end Namespacing

/-! ## References -/

namespace Fragment

variable {referenceKey : String} {value : Value}

namespace Outlook

variable {refusal? : String → Option Failure}

/-- Members that wait for nothing wait for nothing together. -/
theorem gather_of_settled {outlooks : List Outlook}
    (each : ∀ outlook ∈ outlooks, outlook = settled) :
    gather outlooks = settled := by
  have both : together outlooks = settled ∧ inTurn outlooks = settled := by
    induction outlooks with
    | nil => exact ⟨rfl, rfl⟩
    | cons first rest ih =>
        obtain ⟨rfl, others⟩ := List.forall_mem_cons.mp each
        exact ih others
  rw [gather, both.1, both.2, ite_self]

/-- A value without markers waits for nothing. -/
theorem ofValue_of_noMarker
    (noMarker : value.EveryObject fun members =>
      referenceKey ∉ Members.keys members) :
    ofValue referenceKey refusal? value = settled := by
  induction value using Value.inductionOnParts with
  | scalar noArray noObject =>
      rw [ofValue]
      · exact noArray
      · exact noObject
  | array items ih =>
      rw [Value.everyObject_array_iff] at noMarker
      rw [ofValue, ofItems_eq_map]
      apply gather_of_settled
      rw [List.forall_mem_map]
      exact fun item mem => ih item mem (noMarker item mem)
  | object members ih =>
      obtain ⟨here, inside⟩ := Value.everyObject_object_iff.mp noMarker
      rw [← Members.get?_eq_none_iff, ← target?_eq_none_iff] at here
      simp only [ofValue, here, ofMembers_eq_map]
      apply gather_of_settled
      rw [List.forall_mem_map]
      exact fun pair mem => ih pair mem (inside pair mem)

end Outlook

section Traversal

variable {fragmentOf : String → Except Failure Value}
  {foresee : Value → Except Failure Unit}

theorem resolveItems_of_resolveWith {items : List Value}
    (each : ∀ item ∈ items,
      resolveWith referenceKey fragmentOf foresee item = .ok item) :
    resolveItems referenceKey fragmentOf foresee items = .ok items := by
  induction items with
  | nil => rfl
  | cons item rest ih =>
      obtain ⟨first, others⟩ := List.forall_mem_cons.mp each
      rw [resolveItems, first, ih others]
      rfl

theorem resolveMembers_of_resolveWith {members : Members Value}
    (noReference : referenceKey ∉ Members.keys members)
    (each : ∀ pair ∈ members,
      resolveWith referenceKey fragmentOf foresee pair.2 = .ok pair.2) :
    resolveMembers referenceKey fragmentOf foresee members = .ok members := by
  induction members with
  | nil => rfl
  | cons pair rest ih =>
      obtain ⟨first, others⟩ := List.forall_mem_cons.mp each
      rw [Members.keys_cons, List.mem_cons, not_or] at noReference
      rw [resolveMembers, if_neg (Ne.symm noReference.1), first,
        ih noReference.2 others]
      rfl

/-- A value without markers resolves to itself. -/
theorem resolveWith_of_noMarker
    (noMarker : value.EveryObject fun members =>
      referenceKey ∉ Members.keys members) :
    resolveWith referenceKey fragmentOf foresee value = .ok value := by
  induction value using Value.inductionOnParts with
  | scalar noArray noObject => exact resolveWith_scalar noArray noObject
  | array items ih =>
      rw [Value.everyObject_array_iff] at noMarker
      rw [resolveWith, resolveItems_of_resolveWith fun item mem =>
        ih item mem (noMarker item mem)]
      rfl
  | object members ih =>
      obtain ⟨here, inside⟩ := Value.everyObject_object_iff.mp noMarker
      rw [resolveWith_object ((Members.get?_eq_none_iff _ _).mpr here),
        resolveMembers_of_resolveWith here fun pair mem =>
          ih pair mem (inside pair mem)]
      rfl

end Traversal

/-- A document without markers resolves to itself, whatever the library and
however long it takes to answer. -/
theorem Source.resolve_of_noMarker {source : Source}
    (noMarker : value.EveryObject fun members =>
      source.settings.referenceKey ∉ Members.keys members) :
    source.resolve value = .ok value := by
  have nothingToTell : source.foresee [] 0 value = .ok () := by
    rw [foresee, Outlook.ofValue_of_noMarker noMarker]
    exact ite_self _
  rw [resolve, nothingToTell]
  exact resolveWith_of_noMarker noMarker

end Fragment

/-! ## Bare type names -/

namespace Schema

theorem expandAs_array_of_items {role : Role} {items : List Value}
    (each : ∀ item ∈ items, expandAs role.ofItem item = item) :
    expandAs role (.array items) = .array items := by
  rw [expandAs, expandItems_eq_map, List.map_congr_left each, List.map_id']

theorem expandAs_object_of_members {role : Role} {members : Members Value}
    (each : ∀ pair ∈ members,
      expandAs (role.ofMember pair.1) pair.2 = pair.2) :
    expandAs role (.object members) = .object members := by
  have same : ∀ pair ∈ members,
      (pair.1, expandAs (role.ofMember pair.1) pair.2) = pair :=
    fun pair mem => congrArg (Prod.mk pair.1) (each pair mem)
  rw [expandAs, expandMembers_eq_map, List.map_congr_left same, List.map_id']

/-- Outside schemas nothing is expanded. -/
theorem expandAs_other (value : Value) : expandAs .other value = value := by
  induction value using Value.inductionOnParts with
  | @scalar value noArray noObject =>
      cases value with
      | array items => exact absurd rfl (noArray items)
      | object members => exact absurd rfl (noObject members)
      | _ => rfl
  | array items ih => exact expandAs_array_of_items ih
  | object members ih => exact expandAs_object_of_members ih

/-- The role of what a finished schema holds at a place. -/
def Place.role : Place → Role
  | schema => .schema
  | properties => .namedSchemas
  | items => .schemaOrItems
  | additional => .schema
  | variants => .schemaOrVariants

/-- A key of a schema other than `definitions` leads to a place that is looked at,
or to no schema. -/
theorem keywordRole_eq {key : String} (noDefinitions : key ≠ "definitions") :
    (∃ place, (key, place) ∈ places ∧ keywordRole key = place.role) ∨
      keywordRole key = .other := by
  by_cases isProperties : key = "properties"
  · subst isProperties
    exact .inl ⟨.properties, by simp [places], rfl⟩
  by_cases isItems : key = "items"
  · subst isItems
    exact .inl ⟨.items, by simp [places], rfl⟩
  by_cases isVariants : key = "variants"
  · subst isVariants
    exact .inl ⟨.variants, by simp [places], rfl⟩
  by_cases isAdditional : key = "additionalProperties"
  · subst isAdditional
    exact .inl ⟨.additional, by simp [places], rfl⟩
  · right
    simp [keywordRole, isProperties, noDefinitions, isItems, isVariants,
      isAdditional]

/-- An object repeats no key and has no definitions of its own. -/
structure WithoutDefinitions (members : Members Value) : Prop where
  distinct : (Members.keys members).Nodup
  noDefinitions : "definitions" ∉ Members.keys members

/-- The members of an accepted schema stay when what is accepted at each place
stays. -/
theorem expandAs_member_of_accepted {members : Members Value}
    (accepted : firstMisshapen .schema (.object members) = none)
    (here : WithoutDefinitions members)
    (stays : ∀ pair ∈ members, ∀ place, firstMisshapen place pair.2 = none →
      expandAs place.role pair.2 = pair.2) :
    ∀ pair ∈ members, expandAs (keywordRole pair.1) pair.2 = pair.2 := by
  obtain ⟨-, -, atPlaces⟩ := firstMisshapen_schema_eq_none_iff.mp accepted
  rintro ⟨key, value⟩ mem
  have isOther : key ≠ "definitions" := by
    rintro rfl
    exact here.noDefinitions (List.mem_map_of_mem mem)
  rcases keywordRole_eq isOther with ⟨place, isPlace, sameRole⟩ | noSchema
  · have found := Members.get?_eq_some_of_mem here.distinct mem
    rw [sameRole]
    exact stays _ mem place (atPlaces key place isPlace value found)
  · rw [noSchema]
    exact expandAs_other value

/-- Where every schema has been accepted, no bare type name is left. -/
theorem expandAs_of_accepted {value : Value} {place : Place}
    (accepted : firstMisshapen place value = none)
    (plain : value.EveryObject WithoutDefinitions) :
    expandAs place.role value = value := by
  induction value using Value.inductionOnParts generalizing place with
  | @scalar value noArray noObject =>
      cases value with
      | array items => exact absurd rfl (noArray items)
      | object members => exact absurd rfl (noObject members)
      | string name => cases place <;> simp [firstMisshapen] at accepted
      | _ => rfl
  | array items ih =>
      rw [Value.everyObject_array_iff] at plain
      have stays (each : ∀ item ∈ items, firstMisshapen .schema item = none) :
          ∀ item ∈ items, expandAs Role.schema item = item :=
        fun item mem => ih item mem (each item mem) (plain item mem)
      cases place with
      | items =>
          rw [firstMisshapen_items_array_eq_none_iff] at accepted
          exact expandAs_array_of_items (stays accepted)
      | variants =>
          simp only [firstMisshapen, misshapenItem_eq_none_iff] at accepted
          exact expandAs_array_of_items (stays accepted)
      | _ => simp [firstMisshapen] at accepted
  | object members ih =>
      obtain ⟨here, inside⟩ := Value.everyObject_object_iff.mp plain
      have stays := fun pair mem place accepted =>
        @ih pair mem place accepted (inside pair mem)
      cases place with
      | properties =>
          simp only [firstMisshapen, misshapenMember_eq_none_iff] at accepted
          exact expandAs_object_of_members fun pair mem =>
            stays pair mem .schema (accepted pair mem)
      | variants =>
          simp only [firstMisshapen, misshapenMember_eq_none_iff] at accepted
          exact expandAs_object_of_members fun pair mem =>
            stays pair mem .schema (accepted pair mem)
      | schema =>
          exact expandAs_object_of_members
            (expandAs_member_of_accepted accepted here stays)
      | items =>
          rw [firstMisshapen_items_of_not_array (by simp)] at accepted
          exact expandAs_object_of_members
            (expandAs_member_of_accepted accepted here stays)
      | additional =>
          rw [firstMisshapen_additional_of_not_bool rfl] at accepted
          exact expandAs_object_of_members
            (expandAs_member_of_accepted accepted here stays)

/-- A document that passes the structural check is written out already. -/
theorem expand_of_accepted {referenceKey : String} {document : Value}
    (accepted : firstViolation referenceKey document = none)
    (plain : document.EveryObject WithoutDefinitions) :
    expand document = document := by
  obtain ⟨-, -, wellShaped⟩ := firstViolation_eq_none_iff.mp accepted
  exact expandAs_of_accepted wellShaped plain

end Schema

end Longhand
