import Longhand.Proofs.Compile.Stages
import Longhand.Proofs.Definition.Substitution
import Longhand.Proofs.Fragment.Substitution
import Longhand.Proofs.KeyPath.Keys
import Longhand.Proofs.Namespace
import Longhand.Proofs.Unreferenced

/-!
# Keys of other namespaces in a result

Documents and fragments have the active namespaces applied before anything is put
together from them, and a document's own definitions are a part of it.  Definitions
that the context knows are taken as they are.  So a key of a namespace that is not
active is in the result only if such a definition has it.
-/

namespace Longhand.Context

variable {context : Context}

/-- No key of a value is namespaced twice, in any segment of the path that it
spells. -/
def Unstacked (context : Context) (value : Value) : Prop :=
  value.EveryKey fun key =>
    ∀ segment ∈ KeyPath.split context.settings.pathSeparator key,
      ¬context.namespacing.Stacked segment

instance (value : Value) : Decidable (context.Unstacked value) :=
  inferInstanceAs (Decidable (Value.EveryKey _ value))

/-- A key may be in a result: it belongs to no inactive namespace, or it is `type`, which
the long forms of types bring in, or a definition that the context knows has it. -/
def Admits (context : Context) (key : String) : Prop :=
  context.namespacing.Foreign key →
    key = "type" ∨ ∃ pair ∈ context.definitions, ¬pair.2.Lacks key

/-- What has its paths expanded and the namespaces applied has no key of another
namespace. -/
theorem everyKey_admits_normalize {value expanded : Value}
    (paths : KeyPath.expand context.settings.pathSeparator
      context.settings.pathConflicts value = .ok expanded)
    (unstacked : context.Unstacked value) :
    (context.namespacing.normalize expanded).EveryKey context.Admits := by
  have notStacked := KeyPath.everyKey_of_expand paths unstacked
  refine (Namespacing.everyKey_not_foreign notStacked).mono ?_
  exact fun key notForeign foreign => absurd foreign notForeign

/-- So it is with fragments in long form. -/
theorem everyPrepared_admits
    (inFragments : ∀ identity fragment,
      context.library.load identity = .ok fragment → context.Unstacked fragment) :
    context.source.EveryPrepared fun members =>
      ∀ key ∈ Members.keys members, context.Admits key := by
  rintro identity fragment ⟨raw, loaded, prepared⟩
  rw [Fragment.Source.prepare] at prepared
  split at prepared
  · rename_i expanded paths
    obtain rfl := Except.ok.inj prepared
    exact everyKey_admits_normalize paths (inFragments identity raw loaded)
  · cases prepared

/-- What the definitions of a context have is admitted. -/
theorem everyKey_admits_definitions :
    ∀ pair ∈ context.definitions, pair.2.EveryKey context.Admits := by
  intro pair mem members part key inMembers _
  exact .inr ⟨pair, mem, fun lacks => lacks members part inMembers⟩

/-- Namespaces are filtered at every door but one.  When no key of the document and of
the fragments is namespaced twice, a key of a namespace that is not active is in the
result only if it is `type` or a definition that the context knew has it. -/
theorem compile_filtered {document result : Value} (plain : context.Plain)
    (inDocument : context.Unstacked document)
    (inFragments : ∀ identity fragment,
      context.library.load identity = .ok fragment → context.Unstacked fragment)
    (compiled : (context.compile document).result = .ok result) :
    result.EveryKey context.Admits := by
  obtain ⟨expanded, resolved, inlined, checked, paths, references, uses, checks,
    output⟩ := compile_eq_ok_iff.mp compiled
  obtain ⟨-, rfl⟩ := plain.check_eq_ok_iff.mp checks
  obtain rfl := plain.output_eq_ok_iff.mp output
  have kept := Value.keptByKeys_forall context.Admits
  have ofName : ∀ name : Value,
      ∀ key ∈ Members.keys [("type", name)], context.Admits key := by
    simp [Admits]
  have normalized := everyKey_admits_normalize (expandPaths_eq_ok_iff.mp paths)
    inDocument
  have inResolved := (Fragment.Source.resolves_of_resolve references).everyObject
    kept (everyPrepared_admits inFragments) normalized
  have inExpanded := (Schema.everyObject_expand_iff kept ofName).mpr inResolved
  have learned := Definition.everyObject_of_mem_register kept ofName
    everyKey_admits_definitions inExpanded
  exact (Definition.inlines_of_inline uses).everyObject kept learned
    (Definition.everyObject_withoutOwn kept inExpanded)

/-- Keys of two namespaces in a document, its own definitions and a fragment, one of
them behind a path. -/
theorem compile_filtered_account :
    let context : Context :=
      { namespaces := ["admin"]
        library := .ofFragments
          [("audit", .object
            [("@admin:level.@ops:note", .bool true), ("@ops:level", .null)])] }
    let document : Value := .object
      [("definitions", .object
          [("Name", .object
            [("@admin:maxLength", .number (.int 9)), ("@ops:type", .null)])]),
        ("owner", .object [("type", .string "Name"), ("@ops:tag", .null)]),
        ("audit", .object [("$ref", .string "audit")])]
    let result : Value := .object
      [("owner", .object [("maxLength", .number (.int 9))]),
        ("audit", .object [("level", .object [])])]
    (context.compile document).result = .ok result ∧
      result.EveryKey context.Admits := by
  intro context document result
  have compiled : (context.compile document).result = .ok result := by
    cbv
  have inFragments : ∀ identity fragment,
      context.library.load identity = .ok fragment →
        context.Unstacked fragment := by
    intro identity fragment loaded
    have stored := Library.load_ofFragments_eq_ok_iff.mp loaded
    obtain ⟨-, rfl⟩ := Prod.mk.inj
      (List.mem_singleton.mp (Members.mem_of_get?_eq_some stored))
    decide
  exact ⟨compiled, compile_filtered ⟨rfl, rfl⟩ (by decide) inFragments compiled⟩

/-- A known definition brings a key of a namespace that is not active into the result,
though no key anywhere is namespaced twice. -/
theorem not_forall_compile_notForeign :
    ¬∀ (context : Context) (fragments : Members Value) (document result : Value),
      context.Plain → context.library = .ofFragments fragments →
        (∀ pair ∈ fragments, context.Unstacked pair.2) →
        (∀ pair ∈ context.definitions, context.Unstacked pair.2) →
        context.Unstacked document →
        (context.compile document).result = .ok result →
        result.EveryKey fun key => ¬context.namespacing.Foreign key := by
  intro filters
  let exported : Value := .object
    [("type", .string "object"), ("@ts:export", .bool true)]
  let context : Context := Context.withDefinitions {} [("Person", exported)]
  let document : Value := .object [("type", .string "Person")]
  have compiled : (context.compile document).result = .ok exported := by
    cbv
  have filtered := filters context [] document exported ⟨rfl, rfl⟩ rfl (by simp)
    (by decide) (by decide) compiled
  revert filtered
  decide

end Longhand.Context
