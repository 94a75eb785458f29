import Longhand.Proofs.Definition.Substitution
import Longhand.Proofs.Definition.Usage

/-!
# Inlining a second time

No use is left in an inlined document, so inlining it again finds nothing to
replace.  What a second run may still do is to leave out definitions: a document
loses its own before anything is inlined, but one that is itself a use becomes
the body of a definition, and that body may bring definitions of its own.

Main statement: where the known definitions are in long form, a second run leaves
out what was brought along and changes nothing else, and nothing is brought along
unless the document is a use whose name brings it.

A context puts the definitions that it is handed into long form.  Were a bare string
among them, its name would stand for this string, and where the name is used at
`type` the object around it would become a use that only a second run replaces.
-/

namespace Longhand.Definition

open Value (EveryObject)

variable {settings : Settings} {known : Members Value}

/-! ## Nothing to inline -/

section NoUse

variable {bodyOf : String → Except Failure Value}

theorem inlineItems_of_inlineWith {items : List Value}
    (each : ∀ item ∈ items, inlineWith settings bodyOf item = .ok item) :
    inlineItems settings bodyOf items = .ok items := by
  induction items with
  | nil => rfl
  | cons item rest ih =>
      obtain ⟨first, others⟩ := List.forall_mem_cons.mp each
      rw [inlineItems, first, ih others]
      rfl

theorem inlineMembers_of_inlineWith {members : Members Value}
    (each : ∀ pair ∈ members, inlineWith settings bodyOf pair.2 = .ok pair.2) :
    inlineMembers settings bodyOf none members = .ok members := by
  induction members with
  | nil => rfl
  | cons pair rest ih =>
      obtain ⟨first, others⟩ := List.forall_mem_cons.mp each
      rw [inlineMembers, if_neg (by simp), first, ih others]
      rfl

/-- A value without uses is inlined as it is. -/
theorem inlineWith_of_noUse {value : Value}
    (noUse : value.EveryObject fun members => usage? settings members = none) :
    inlineWith settings bodyOf value = .ok value := by
  induction value using Value.inductionOnParts with
  | scalar noArray noObject => exact inlineWith_scalar noArray noObject
  | array items ih =>
      rw [Value.everyObject_array_iff] at noUse
      rw [inlineWith, inlineItems_of_inlineWith fun item mem =>
        ih item mem (noUse item mem)]
      rfl
  | object members ih =>
      obtain ⟨here, inside⟩ := Value.everyObject_object_iff.mp noUse
      rw [inlineWith_object here, inlineMembers_of_inlineWith fun pair mem =>
        ih pair mem (inside pair mem)]
      rfl

end NoUse

/-- Leaving out a document's own definitions makes no use and ends none. -/
theorem usage?_erase_definitions (members : Members Value) :
    usage? settings (Members.erase members definitionsKey) =
      usage? settings members := by
  have other : ¬definitionsKey = typeKey := by decide
  rw [usage?, Members.get?_erase, if_neg other, ← usage?]

theorem everyNoUse_withoutOwn {document : Value}
    (noUse : document.EveryObject fun members =>
      usage? settings members = none) :
    (withoutOwn document).EveryObject fun members =>
      usage? settings members = none := by
  cases document with
  | object members =>
      obtain ⟨here, inside⟩ := Value.everyObject_object_iff.mp noUse
      rw [withoutOwn, Value.everyObject_object_iff, usage?_erase_definitions]
      refine ⟨here, fun pair mem => ?_⟩
      exact inside pair (Members.mem_erase_iff.mp mem).1
  | _ => exact noUse

/-- Of a document without uses only its own definitions are left out. -/
theorem inline_of_noUse {document : Value}
    (noUse : document.EveryObject fun members =>
      usage? settings members = none) :
    inline settings known document = .ok (withoutOwn document) :=
  inlineWith_of_noUse (everyNoUse_withoutOwn noUse)

/-- Leaving out changes nothing exactly where there is nothing to leave out. -/
theorem withoutOwn_eq_self_iff {document : Value} :
    withoutOwn document = document ↔
      document.get? definitionsKey = none := by
  cases document with
  | object members =>
      rw [withoutOwn, Value.object.injEq]
      constructor
      · intro same
        rw [Value.get?, Value.members, ← same, Members.get?_erase, if_pos rfl]
      · exact Members.erase_of_get?_eq_none
  | _ => exact iff_of_true rfl rfl

/-! ## What a use brings along -/

/-- A stored definition brings definitions along: it has some of its own, or is a
use of another that brings some. -/
inductive Brings (settings : Settings) (known : Members Value) : String → Prop
  | own {name : String} {members : Members Value}
      (stored : Members.get? known name = some (.object members))
      (has : definitionsKey ∈ Members.keys members) :
      Brings settings known name
  | ofUse {name next : String} {members : Members Value}
      (stored : Members.get? known name = some (.object members))
      (isUse : usage? settings members = some next)
      (ofNext : Brings settings known next) : Brings settings known name

/-- A value has definitions of its own or is a use that brings some. -/
def Offers (settings : Settings) (known : Members Value) (value : Value) : Prop :=
  definitionsKey ∈ Members.keys value.members ∨
    ∃ name, usage? settings value.members = some name ∧
      Brings settings known name

theorem brings_iff_offers {name : String} {definition : Value}
    (stored : Members.get? known name = some definition) :
    Brings settings known name ↔ Offers settings known definition := by
  constructor
  · intro brings
    cases brings with
    | own stored' has =>
        obtain rfl := Option.some.inj (stored.symm.trans stored')
        exact .inl has
    | ofUse stored' isUse ofNext =>
        obtain rfl := Option.some.inj (stored.symm.trans stored')
        exact .inr ⟨_, isUse, ofNext⟩
  · intro offers
    cases definition with
    | object members =>
        rcases offers with has | ⟨next, isUse, ofNext⟩
        · exact .own stored has
        · exact .ofUse stored isUse ofNext
    | _ => simp [Offers, Value.members, usage?] at offers

theorem definitionsKey_mem_erase_iff {members : Members Value} :
    definitionsKey ∈ Members.keys (Members.erase members typeKey) ↔
      definitionsKey ∈ Members.keys members := by
  have isOther : definitionsKey ≠ typeKey := by decide
  rw [Members.mem_keys_erase_iff, and_iff_left isOther]

/-- A use offers what its overrides have and what its name brings. -/
theorem offers_use_iff {members : Members Value} {name : String}
    (isUse : usage? settings members = some name) :
    Offers settings known (.object members) ↔
      definitionsKey ∈ Members.keys (Members.erase members typeKey) ∨
        Brings settings known name := by
  rw [definitionsKey_mem_erase_iff, Offers, Value.members, isUse]
  simp

mutual
/-- The result of a value has definitions of its own exactly when it is an object
and the value offers some. -/
theorem Inlines.definitionsKey_mem_iff {room : Nat} {value result : Value} :
    Inlines settings known room value result →
      (definitionsKey ∈ Members.keys result.members ↔
        result.isObject = true ∧ Offers settings known value)
  | .scalar noArray noObject => by
      cases value with
      | object members => exact absurd rfl (noObject members)
      | _ => simp [Value.members, Value.isObject]
  | .array _ => by simp [Value.members, Value.isObject]
  | .object noUse each => by
      simp [Value.members, Value.isObject, Offers, noUse, each.keys_eq]
  | .use isUse ofName _ staysAsIs => by
      rw [ofName.definitionsKey_mem_iff, offers_use_iff isUse]
      apply and_congr_right
      intro isObject
      have noOverrides := staysAsIs.resolve_right (by simp [isObject])
      simp [noOverrides]
  | .useWithOverrides isUse ofName ofOverrides _ => by
      have ofBody := ofName.definitionsKey_mem_iff
      rw [offers_use_iff isUse, ← ofOverrides.keys_eq]
      simp only [Value.deepMerge_object, Value.members, Value.isObject,
        true_and, Value.mem_keys_mergeMembers_iff] at ofBody ⊢
      rw [ofBody, or_comm]

/-- The body of a name has definitions of its own exactly when it is an object
and the name brings some. -/
theorem InlinesName.definitionsKey_mem_iff {room : Nat} {name : String}
    {body : Value} :
    InlinesName settings known room name body →
      (definitionsKey ∈ Members.keys body.members ↔
        body.isObject = true ∧ Brings settings known name)
  | .definition stored ofDefinition => by
      rw [ofDefinition.definitionsKey_mem_iff, brings_iff_offers stored]
end

/-! ## The second run -/

/-- What is offered once a document has lost its own definitions. -/
theorem offers_withoutOwn_iff {document : Value} :
    Offers settings known (withoutOwn document) ↔
      ∃ name, usage? settings document.members = some name ∧
        Brings settings known name := by
  cases document with
  | object members =>
      have noOwn : definitionsKey ∉
          Members.keys (Members.erase members definitionsKey) := by
        rw [← Members.get?_eq_none_iff, Members.get?_erase, if_pos rfl]
      rw [Offers, withoutOwn, Value.members, usage?_erase_definitions]
      simp [noOwn, Value.members]
  | _ => simp [Offers, withoutOwn, Value.members]

/-- An inlined document has definitions of its own exactly when it is an object
and the document was a use that brought them. -/
theorem get?_definitions_eq_none_iff {document result : Value}
    (inlined : inline settings known document = .ok result) :
    result.get? definitionsKey = none ↔
      ∀ name, usage? settings document.members = some name →
        Brings settings known name → result.isObject = false := by
  have brought := (inlines_of_inline inlined).definitionsKey_mem_iff
  rw [offers_withoutOwn_iff] at brought
  rw [Value.get?, Members.get?_eq_none_iff, brought]
  constructor
  · intro notBrought name isUse brings
    cases isObject : result.isObject with
    | false => rfl
    | true => exact absurd ⟨isObject, name, isUse, brings⟩ notBrought
  · rintro never ⟨isObject, name, isUse, brings⟩
    simp [never name isUse brings] at isObject

/-- Inlining a second time leaves out the definitions that the first run brought
along, and changes nothing else, as long as every known definition is in long form.
So the first result has no definitions of its own and stays as it is exactly when
nothing was brought: unless the document is an object that a name stands for which
brings definitions. -/
theorem inline_inline (settings : Settings) (known : Members Value)
    (longForm : ∀ pair ∈ known, LongForm pair.2) (document result : Value)
    (wellFormed : document.WellFormed)
    (inlined : inline settings known document = .ok result) :
    inline settings known result = .ok (withoutOwn result) ∧
      (result.get? definitionsKey = none ∧
          inline settings known result = .ok result ↔
        ∀ name, usage? settings document.members = some name →
          Brings settings known name → result.isObject = false) := by
  have everyInlined := (inlines_of_inline inlined).everyInlined longForm
    (wellFormed_withoutOwn wellFormed)
  have again : inline settings known result = .ok (withoutOwn result) :=
    inline_of_noUse fun members part => (everyInlined members part).noUse
  apply And.intro again
  rw [again, Except.ok.injEq, withoutOwn_eq_self_iff, and_self]
  exact get?_definitions_eq_none_iff inlined

/-- A use below the root, with overrides, is replaced once and for all. -/
theorem inline_inline_name :
    let known : Members Value := [("Name", .object [("type", .string "string")])]
    let document : Value := .object
      [("definitions", .object []), ("items", .object
        [("type", .string "Name"), ("title", .string "name")])]
    let result : Value := .object [("items", .object
      [("type", .string "string"), ("title", .string "name")])]
    inline {} known document = .ok result ∧
      result.get? definitionsKey = none ∧ inline {} known result = .ok result := by
  intro known document result
  have longForm : ∀ pair ∈ known, LongForm pair.2 := by
    rw [List.forall_mem_singleton]
    exact ⟨⟨by decide, trivial, trivial⟩, rfl⟩
  have wellFormed : document.WellFormed :=
    ⟨by decide, ⟨by decide, trivial⟩, ⟨by decide, trivial, trivial, trivial⟩,
      trivial⟩
  have inlined : inline {} known document = .ok result := by
    cbv
  have second := (inline_inline {} known longForm document result wellFormed
    inlined).2
  refine ⟨inlined, second.mpr ?_⟩
  intro name isUse
  simp [document, Value.members, usage?, Members.get?, typeKey] at isUse

/-- A document that is a use gets the definitions of the body it becomes. -/
theorem not_forall_get?_definitions_eq_none :
    ¬∀ (settings : Settings) (known : Members Value) (document result : Value),
      (∀ pair ∈ known, LongForm pair.2) → document.WellFormed →
        inline settings known document = .ok result →
          result.get? definitionsKey = none ∧
            inline settings known result = .ok result := by
  intro all
  let shape : Value := .object [("title", .string "shape"),
    ("definitions", .object [("Side", .object [("type", .string "number")])])]
  have longForm : LongForm shape :=
    ⟨⟨by decide, trivial, ⟨by decide, ⟨by decide, trivial, trivial⟩, trivial⟩,
      trivial⟩, rfl⟩
  have inlined : inline {} [("Shape", shape)]
      (.object [("type", .string "Shape")]) = .ok shape := by
    cbv
  have := all {} [("Shape", shape)] (.object [("type", .string "Shape")]) shape
    (List.forall_mem_singleton.mpr longForm) ⟨by decide, trivial, trivial⟩ inlined
  simp [shape, Value.get?, Value.members, Members.get?, definitionsKey] at this

end Longhand.Definition
