import Longhand.Proofs.Additions
import Longhand.Proofs.Compile.Stages

/-!
# Compiling with more fragments and definitions

A compilation that succeeds is the same, its calls and its result, when the library has
more fragments and the context knows more definitions.  The new definitions may not go
by a name under which the document brings its own one, because what the context knows
comes first.
-/

namespace Longhand

/-- Write values one after another. -/
def Members.setAll {α : Type} (members : Members α) (pairs : List (String × α)) :
    Members α :=
  pairs.foldl (fun members pair => set members pair.1 pair.2) members

/-- Values under new keys leave all others as they are. -/
theorem Members.setAll_extends {α : Type} {members : Members α}
    {pairs : List (String × α)}
    (isNew : ∀ key ∈ keys pairs, key ∉ keys members) :
    Members.Extends (setAll members pairs) members := by
  intro key value found
  have isKnown : key ∈ keys members := by
    rw [← get?_isSome_iff, found]
    rfl
  have isOther : key ∉ keys pairs := fun mem => isNew key mem isKnown
  clear isNew isKnown
  induction pairs generalizing members with
  | nil => exact found
  | cons pair rest ih =>
      obtain ⟨other, written⟩ := pair
      rw [keys_cons, List.mem_cons, not_or] at isOther
      refine ih ?_ isOther.2
      rw [get?_set, if_neg (Ne.symm isOther.1)]
      exact found

/-- A library held in memory that was given more fragments, under new references, has
all that it had. -/
theorem Library.ofFragments_extends {fragments extras : Members Value}
    (isNew : ∀ reference ∈ Members.keys extras,
      reference ∉ Members.keys fragments) :
    (ofFragments (fragments.setAll extras)).Extends (ofFragments fragments) where
  identify := rfl
  isPrompt := rfl
  stored reference result found := by
    rw [ofFragments, Members.get?_mapValues] at *
    obtain ⟨fragment, stored, rfl⟩ := Option.map_eq_some_iff.mp found
    rw [Members.setAll_extends isNew reference fragment stored]
    rfl

namespace Context

variable {context : Context}

/-- A context resolves a document to a value, once paths are expanded and namespaces
applied. -/
def ResolvesTo (context : Context) (document resolved : Value) : Prop :=
  ∃ expanded, context.expandPaths document = .ok expanded ∧
    context.resolve (context.applyNamespaces expanded) = .ok resolved

/-- The same context with a larger library and more definitions. -/
def withMore (context : Context) (library : Library) (definitions : Members Value) :
    Context :=
  { context with library }.addDefinitions definitions

/-- A compilation that succeeds asks for nothing that is missing, so it is the same
with a larger library and with definitions under names that the document does not
define. -/
theorem compile_withMore {library : Library} {extras : Members Value}
    {document result : Value} (larger : library.Extends context.library)
    (notOwn : ∀ resolved, context.ResolvesTo document resolved →
      ∀ name ∈ Members.keys extras,
        name ∉ Members.keys (Definition.own resolved))
    (compiled : (context.compile document).result = .ok result) :
    (context.withMore library extras).compile document =
      context.compile document := by
  obtain ⟨expanded, resolved, inlined, checked, paths, references, uses, checks,
    output⟩ := compile_eq_ok_iff.mp compiled
  have isNew : ∀ name ∈ Members.keys extras,
      name ∉ Members.keys (Definition.own (Schema.expand resolved)) := by
    rw [Definition.keys_own_expand]
    exact notOwn resolved ⟨expanded, paths, references⟩
  have references' : (context.withMore library extras).resolve
      ((context.withMore library extras).applyNamespaces expanded) =
        .ok resolved :=
    ((Fragment.Source.goesAlong_withLibrary larger).resolve _).eq_ok references
  have uses' : ((context.withMore library extras).register
      (Schema.expand resolved)).inlineDefinitions (Schema.expand resolved) =
        .ok inlined :=
    ((Definition.goesAlong_of_extends (Definition.register_extends isNew)).inline
      _).eq_ok uses
  rw [compile_eq_of_stages paths references uses checks output]
  exact compile_eq_of_stages paths references' uses' checks output

/-- More fragments and definitions do no harm.  A compilation that succeeds with
fragments held in memory is the same run when the library is given fragments under new
references and the context definitions under names that the resolved document does not
define itself.  A name that the context knows keeps its definition. -/
theorem compile_setAll {fragments extraFragments extraDefinitions : Members Value}
    {document result : Value} (inMemory : context.library = .ofFragments fragments)
    (newReferences : ∀ reference ∈ Members.keys extraFragments,
      reference ∉ Members.keys fragments)
    (notOwn : ∀ resolved, context.ResolvesTo document resolved →
      ∀ name ∈ Members.keys extraDefinitions,
        name ∉ Members.keys (Definition.own resolved))
    (compiled : (context.compile document).result = .ok result) :
    (context.withMore (.ofFragments (fragments.setAll extraFragments))
        extraDefinitions).compile document = context.compile document := by
  have larger := Library.ofFragments_extends newReferences
  rw [← inMemory] at larger
  exact compile_withMore larger notOwn compiled

/-- A fragment that refers to itself and a definition that uses itself, beside those
that a document asks for. -/
theorem compile_setAll_person :
    let fragments : Members Value :=
      [("person", .object [("name", .object [("type", .string "Name")])])]
    let extraFragments : Members Value :=
      [("loop", .object [("$ref", .string "loop")])]
    let extraDefinitions : Members Value :=
      [("Loop", .object [("type", .string "Loop")])]
    let context : Context :=
      { definitions := [("Name", .object [("type", .string "string")])]
        library := .ofFragments fragments
        checks := [.custom "accept" .ok] }
    let document : Value := .object
      [("definitions", .object [("Age", .string "integer")]),
        ("$ref", .string "person"), ("age", .object [("type", .string "Age")])]
    let result : Value := .object
      [("name", .object [("type", .string "string")]),
        ("age", .object [("type", .string "integer")])]
    context.compile document = ⟨[.check "accept"], .ok result⟩ ∧
      (context.withMore (.ofFragments (fragments.setAll extraFragments))
        extraDefinitions).compile document = context.compile document := by
  intro fragments extraFragments extraDefinitions context document result
  have compiled : context.compile document =
      ⟨[.check "accept"], .ok result⟩ := by
    cbv
  have resolves : context.resolve (context.applyNamespaces document) =
      .ok (.object
        [("name", .object [("type", .string "Name")]),
          ("definitions", .object [("Age", .string "integer")]),
          ("age", .object [("type", .string "Age")])]) := by
    cbv
  have noPaths : context.expandPaths document = .ok document := by
    cbv
  refine ⟨compiled, compile_setAll rfl (by decide) ?_ (by rw [compiled])⟩
  rintro resolved ⟨expanded, paths, references⟩
  rw [← Except.ok.inj (noPaths.symm.trans paths)] at references
  rw [← Except.ok.inj (resolves.symm.trans references)]
  decide

end Context

end Longhand
