import Longhand.Proofs.Definition.Failure
import Longhand.Proofs.Definition.Usage

/-!
# Cycles of definitions

Names refer to one another through the uses in their definitions.  When inlining a
document reports a cycle it has found one: a way that sets out from a use in the
document, follows uses from definition to definition and comes back to a name that
it has passed, and only then.  And a document from which such a way exists is never
inlined, whatever else is reported of it.

Where no object repeats a key, every object of a value that is a use is looked at:
under the `type` of a use stands a string and nothing else.
-/

namespace Longhand.Definition

open Value (Part)

/-- A use of this name stands somewhere in a value. -/
def HasUse (settings : Settings) (name : String) (value : Value) : Prop :=
  ∃ members, Part (.object members) value ∧ usage? settings members = some name

/-- A name refers to those of which its stored definition is or has a use. -/
def Refers (settings : Settings) (known : Members Value)
    (name next : String) : Prop :=
  ∃ definition, Members.get? known name = some definition ∧
    HasUse settings next definition

variable {settings : Settings} {known : Members Value} {name : String}
  {value : Value}

theorem Uses.hasUse (uses : Uses settings name value) :
    HasUse settings name value := by
  induction uses with
  | use isUse => exact ⟨_, .whole, isUse⟩
  | item mem _ ih =>
      obtain ⟨members, part, isUse⟩ := ih
      exact ⟨members, .item mem part, isUse⟩
  | member mem _ _ ih =>
      obtain ⟨members, part, isUse⟩ := ih
      exact ⟨members, .member mem part, isUse⟩

/-- Nothing but a string stands under the `type` of a use. -/
theorem eq_string_of_usage? {members : Members Value} {pair : String × Value}
    (distinct : (Members.keys members).Nodup) (mem : pair ∈ members)
    (isType : pair.1 = typeKey) (isUse : usage? settings members = some name) :
    pair.2 = .string name := by
  obtain ⟨key, value⟩ := pair
  subst isType
  have found := Members.get?_eq_some_of_mem distinct mem
  have isString := (usage?_eq_some_iff.mp isUse).1
  exact Option.some.inj (found.symm.trans isString)

/-- In a value that repeats no key every use is looked at. -/
theorem HasUse.uses (hasUse : HasUse settings name value)
    (wellFormed : value.WellFormed) : Uses settings name value := by
  obtain ⟨members, part, isUse⟩ := hasUse
  induction part with
  | whole => exact .use isUse
  | item mem _ ih =>
      exact .item mem (ih (Value.wellFormed_array_iff.mp wellFormed _ mem))
  | @member outer pair mem inValue ih =>
      obtain ⟨distinct, each⟩ := Value.wellFormed_object_iff.mp wellFormed
      refine .member mem ?_ (ih (each pair mem))
      by_cases isType : pair.1 = typeKey
      · left
        rw [Option.eq_none_iff_forall_ne_some]
        intro other isUse
        -- An object cannot stand inside the string that names the use.
        rw [eq_string_of_usage? distinct mem isType isUse] at inValue
        cases inValue
      · exact .inr isType

/-- Where no definition repeats a key, a name leads to all that it refers to. -/
theorem Refers.leads (inKnown : ∀ pair ∈ known, pair.2.WellFormed)
    {next : String} (refers : Refers settings known name next) :
    Leads settings known name next := by
  obtain ⟨definition, stored, hasUse⟩ := refers
  have wellFormed := inKnown _ (Members.mem_of_get?_eq_some stored)
  exact ⟨definition, stored, hasUse.uses wellFormed⟩

theorem Leads.refers {next : String} (leads : Leads settings known name next) :
    Refers settings known name next := by
  obtain ⟨definition, stored, uses⟩ := leads
  exact ⟨definition, stored, uses.hasUse⟩

/-- A cycle is reported of a document only with the cycle itself: its first name is
used in the document outside its own definitions, each name refers to the next, and
all are distinct until the last comes back to an earlier one.  Conversely, a
document from which a cycle can be reached is never inlined. -/
theorem inline_cycle (settings : Settings) (known : Members Value)
    (inKnown : ∀ pair ∈ known, pair.2.WellFormed) (document : Value)
    (wellFormed : document.WellFormed) :
    let starts := fun name => HasUse settings name (withoutOwn document)
    (∀ chain, inline settings known document = .error (.cyclicDefinition chain) →
        Chain.Cycle starts (Refers settings known) chain ∧
          chain.dropLast.Nodup) ∧
      ((∃ chain, Chain.Cycle starts (Refers settings known) chain) →
        ∀ result, inline settings known document ≠ .ok result) := by
  intro starts
  constructor
  · intro chain failed
    cases reports_of_inline failed with
    | cycle cycle distinct =>
        refine ⟨cycle.mono ?_ ?_, distinct⟩
        · exact fun _ => Uses.hasUse
        · exact fun _ _ => Leads.refers
  · rintro ⟨chain, cycle⟩ result inlined
    have inDocument := wellFormed_withoutOwn wellFormed
    have looked : Chain.Cycle (fun name => Uses settings name (withoutOwn document))
        (Leads settings known) chain := by
      apply cycle.mono
      · exact fun _ hasUse => hasUse.uses inDocument
      · exact fun _ _ => Refers.leads inKnown
    obtain ⟨first, uses, endless⟩ := looked.exists_not_acc
    exact endless ((inlines_of_inline inlined).ends uses)

/-- Two definitions that use each other, one of them through an alias, are reported
from the document on; what the document defines itself is left out. -/
theorem inline_cycle_node :
    let known : Members Value :=
      [("Node", .object [("type", .string "object"), ("properties", .object
        [("next", .object [("type", .string "Link")])])]),
        ("Link", .object [("type", .string "Node")])]
    let document : Value := .object
      [("definitions", .object [("Own", .object [("type", .string "Own")])]),
        ("items", .array [.object [("type", .string "Node")]])]
    inline {} known document =
        .error (.cyclicDefinition ["Node", "Link", "Node"]) ∧
      Chain.Cycle (fun name => HasUse {} name (withoutOwn document))
        (Refers {} known) ["Node", "Link", "Node"] ∧
      ∀ result, inline {} known document ≠ .ok result := by
  intro known document
  have failed : inline {} known document =
      .error (.cyclicDefinition ["Node", "Link", "Node"]) := by
    cbv
  have inObject : (Value.object known).WellFormed := by
    simp [known, Value.WellFormed, Value.WellFormedMembers]
  have inKnown := (Value.wellFormed_object_iff.mp inObject).2
  have wellFormed : document.WellFormed := by
    simp [document, Value.WellFormed, Value.WellFormedItems,
      Value.WellFormedMembers]
  obtain ⟨reported, reachable⟩ := inline_cycle {} known inKnown document wellFormed
  obtain ⟨cycle, -⟩ := reported _ failed
  exact ⟨failed, cycle, reachable ⟨_, cycle⟩⟩

end Longhand.Definition
