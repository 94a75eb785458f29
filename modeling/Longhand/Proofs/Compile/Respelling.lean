import Longhand.Proofs.Compile.Stages
import Longhand.Proofs.Fragment.Alike

/-!
# Writing out a bare type name

A bare type name stays a string through half of the stages and only then becomes
an object.  A document in which it was written out from the start goes the same
way, with one exception: among the siblings of a marker a name replaces what the
fragment says at its place, while a long form is merged with it.
-/

namespace Longhand

open Members (Related)
open Schema (Role atKey named)

/-! ## Namespaces -/

namespace Namespacing

variable {spec : Namespacing} {holds : String → Value → Value → Prop}

/-- The name that a key goes by.  One of an inactive namespace goes by none. -/
def nameOf? (spec : Namespacing) (key : String) : Option String :=
  (spec.classify key).map Prod.fst

/-- Two ranked values have one rank, and the values are related. -/
def Ranked (holds : String → Value → Value → Prop) (name : String)
    (first second : Nat × Value) : Prop :=
  first.1 = second.1 ∧ holds name first.2 second.2

/-- Related values are offered alike: what counts are their ranks. -/
theorem offer_related {best best' : Members (Nat × Value)}
    (related : Related (Ranked holds) best best') {name : String} (rank : Nat)
    {first second : Value} (here : holds name first second) :
    Related (Ranked holds) (offer best name rank first)
      (offer best' name rank second) := by
  have written : Related (Ranked holds) (Members.set best name (rank, first))
      (Members.set best' name (rank, second)) :=
    related.set ⟨rfl, here⟩
  have both := related.get?_rel name
  rw [offer, offer]
  generalize Members.get? best name = old at both ⊢
  generalize Members.get? best' name = old' at both ⊢
  cases both with
  | none => exact written
  | @some old old' same =>
      obtain ⟨oldRank, old⟩ := old
      obtain ⟨oldRank', old'⟩ := old'
      obtain ⟨rfl, -⟩ := same
      dsimp only
      split
      · exact related
      · exact written

theorem normalizeMembers_related {members members' : Members Value}
    (each : Related (fun key first second => ∀ name,
      spec.nameOf? key = some name →
        holds name (spec.normalize first) (spec.normalize second))
      members members')
    {best best' : Members (Nat × Value)}
    (related : Related (Ranked holds) best best') :
    Related (Ranked holds) (spec.normalizeMembers best members)
      (spec.normalizeMembers best' members') := by
  induction each generalizing best best' with
  | nil => exact related
  | @cons key first second _ _ here _ ih =>
      rw [normalizeMembers, normalizeMembers]
      cases goesBy : spec.classify key with
      | none => exact ih related
      | some named =>
          obtain ⟨name, rank⟩ := named
          apply ih
          apply offer_related related rank
          apply here name
          rw [nameOf?, goesBy, Option.map_some]

/-- The members of an object once namespaces have been applied. -/
def renamed (spec : Namespacing) (members : Members Value) : Members Value :=
  Members.mapValues Prod.snd (spec.normalizeMembers [] members)

theorem normalize_object (members : Members Value) :
    spec.normalize (.object members) = .object (spec.renamed members) := by
  rw [normalize, renamed]

theorem nodup_keys_renamed (members : Members Value) :
    (Members.keys (spec.renamed members)).Nodup := by
  have normalized := wellFormed_normalize spec (.object members)
  rw [normalize_object] at normalized
  exact (Value.wellFormed_object_iff.mp normalized).1

/-- What relates values by the names of their keys relates them once namespaces
have been applied. -/
theorem renamed_related {members members' : Members Value}
    (each : Related (fun key first second => ∀ name,
      spec.nameOf? key = some name →
        holds name (spec.normalize first) (spec.normalize second))
      members members') :
    Related holds (spec.renamed members) (spec.renamed members') :=
  (normalizeMembers_related each .nil).mapValues fun _ _ _ ranked => ranked.2

/-- A change at a key of an inactive namespace is gone once namespaces have been
applied. -/
theorem renamed_replace_of_dropped (front : Members Value) {key : String}
    (dropped : spec.nameOf? key = none) (first second : Value)
    (back : Members Value) :
    spec.renamed (front ++ (key, first) :: back) =
      spec.renamed (front ++ (key, second) :: back) := by
  have related : Related (fun _ left right => left = right)
      (spec.renamed (front ++ (key, first) :: back))
      (spec.renamed (front ++ (key, second) :: back)) := by
    apply renamed_related
    apply Related.replace (fun _ _ _ _ => rfl)
    intro name goesBy
    simp [dropped] at goesBy
  exact related.eq

end Namespacing

/-! ## Two spellings of a document -/

namespace Fragment.Source

variable {source : Source} {allows : Value → Prop} {belows : List Value}
  {role : Role} {first second : Value}

/-- One value is another in which a bare type name was written out, at one of the
places where a schema is expected.  The role of a place follows from the names that
keys go by, and what a marker refers to has none.  The list holds what the place
comes to lie over when markers are replaced, the nearest first; all of it has to be
allowed under the name. -/
inductive Respells (source : Source) (allows : Value → Prop) :
    List Value → Role → Value → Value → Prop
  | name {belows : List Value} {role : Role} (name : String)
      (isSchema : role.isSchema = true)
      (allowed : ∀ below ∈ belows, allows below) :
      Respells source allows belows role (.string name) (named name)
  | item {belows : List Value} {role : Role} (front : List Value)
      {first second : Value} (back : List Value)
      (inside : Respells source allows [] role.ofItem first second) :
      Respells source allows belows role (.array (front ++ first :: back))
        (.array (front ++ second :: back))
  | member {belows : List Value} {role : Role} (front : Members Value)
      {key name : String} {first second : Value} (back : Members Value)
      (goesBy : source.namespacing.nameOf? key = some name)
      (noReference : name ≠ source.settings.referenceKey)
      (inside : Respells source allows
        (atKey (source.around belows
          (source.namespacing.renamed (front ++ (key, first) :: back))) name)
        (role.ofMember name) first second) :
      Respells source allows belows role (.object (front ++ (key, first) :: back))
        (.object (front ++ (key, second) :: back))
  | dropped {belows : List Value} {role inner : Role} (front : Members Value)
      {key : String} {first second : Value} (back : Members Value)
      (inactive : source.namespacing.nameOf? key = none)
      (inside : Respells source allows [] inner first second) :
      Respells source allows belows role (.object (front ++ (key, first) :: back))
        (.object (front ++ (key, second) :: back))

/-- A property of objects that only depends on keys survives a change at one
key. -/
theorem everyObject_replace {property : Members Value → Prop}
    (ofKeys : ∀ {members members' : Members Value},
      Members.keys members = Members.keys members' →
        property members → property members')
    (front : Members Value) {key : String} (back : Members Value)
    (inside : first.EveryObject property → second.EveryObject property)
    (every : (Value.object (front ++ (key, first) :: back)).EveryObject
      property) :
    (Value.object (front ++ (key, second) :: back)).EveryObject property := by
  simp only [Value.everyObject_object_iff, List.forall_mem_append,
    List.forall_mem_cons] at every ⊢
  obtain ⟨here, inFront, inFirst, inBack⟩ := every
  have sameKeys : Members.keys (front ++ (key, first) :: back) =
      Members.keys (front ++ (key, second) :: back) := by
    simp [Members.keys]
  exact ⟨ofKeys sameKeys here, inFront, inside inFirst, inBack⟩

/-- Writing out a name leaves all keys as they are, and adds an object whose only
key is its type. -/
theorem Respells.everyObject {property : Members Value → Prop}
    (respells : Respells source allows belows role first second)
    (ofKeys : ∀ {members members' : Members Value},
      Members.keys members = Members.keys members' →
        property members → property members')
    (ofName : ∀ name, property [("type", .string name)])
    (every : first.EveryObject property) : second.EveryObject property := by
  induction respells with
  | name name =>
      rw [named, Value.everyObject_object_iff, List.forall_mem_singleton]
      exact ⟨ofName name, Value.everyObject_string _ _⟩
  | item front back _ ih =>
      simp only [Value.everyObject_array_iff, List.forall_mem_append,
        List.forall_mem_cons] at every ⊢
      exact ⟨every.1, ih every.2.1, every.2.2⟩
  | member front back _ _ _ ih =>
      exact everyObject_replace ofKeys front back ih every
  | dropped front back _ _ ih =>
      exact everyObject_replace ofKeys front back ih every

theorem normalize_named {spec : Namespacing}
    (noParts : spec.parts? "type" = none) (name : String) :
    spec.normalize (named name) = named name := by
  apply Namespacing.normalize_of_plainKeys
  rw [named, Value.everyObject_object_iff, List.forall_mem_singleton]
  constructor
  · exact ⟨by simp, by simpa using noParts⟩
  · exact Value.everyObject_string _ _

theorem forall₂_replace {related : Value → Value → Prop}
    (each : ∀ value, related value value) (front : List Value)
    (here : related first second) (back : List Value) :
    List.Forall₂ related (front ++ first :: back) (front ++ second :: back) := by
  induction front with
  | nil => exact .cons here (List.forall₂_same.mpr fun value _ => each value)
  | cons value rest ih => exact .cons (each value) ih

/-- Once namespaces have been applied, two spellings agree, provided that a name
is never laid over more than a type. -/
theorem Respells.agree
    (respells : Respells source Schema.OnlyType belows role first second)
    (noParts : source.namespacing.parts? "type" = none)
    (noReference : source.settings.referenceKey ≠ "type")
    (wellFormed : ∀ below ∈ belows, below.WellFormed) :
    source.Agree belows role (source.namespacing.normalize first)
      (source.namespacing.normalize second) := by
  induction respells with
  | name name isSchema allowed =>
      rw [normalize_named noParts]
      exact agree_name isSchema noReference wellFormed allowed
  | item front back _ ih =>
      rw [Namespacing.normalize, Namespacing.normalize,
        Namespacing.normalizeItems_eq_map, Namespacing.normalizeItems_eq_map,
        List.map_append, List.map_append, List.map_cons, List.map_cons]
      exact agree_array (forall₂_replace Agree.refl _ (ih (by simp)) _)
  | @member belows role front key name first second back goesBy notReference
      inside ih =>
      have ofParts := ih (Schema.wellFormed_of_mem_atKey
        (wellFormed_of_mem_around wellFormed))
      rw [Namespacing.normalize_object, Namespacing.normalize_object]
      apply agree_object wellFormed (Namespacing.nodup_keys_renamed _)
      apply Namespacing.renamed_related
      apply Related.replace
      · intro key value name _
        split
        · rfl
        · exact .refl _
      · intro other alsoGoesBy
        obtain rfl := Option.some.inj (goesBy.symm.trans alsoGoesBy)
        rw [if_neg notReference]
        exact ofParts
  | dropped front back inactive _ _ =>
      rw [Namespacing.normalize_object, Namespacing.normalize_object,
        Namespacing.renamed_replace_of_dropped front inactive]
      exact .refl _

end Fragment.Source

/-! ## Compiling -/

namespace Context

variable {context : Context} {document respelled : Value}

/-- Two documents that no path stands in the way of compile alike when, once
namespaces have been applied, they resolve alike. -/
theorem compile_eq_of_endAlike
    (paths : context.expandPaths document = .ok document)
    (paths' : context.expandPaths respelled = .ok respelled)
    (alike : EndAlike (Schema.Alike [] .schema)
      (context.resolve (context.applyNamespaces document))
      (context.resolve (context.applyNamespaces respelled))) :
    context.compile respelled = context.compile document := by
  simp only [compile, paths, paths', attempt_bind]
  generalize context.resolve (context.applyNamespaces document) = first at alike ⊢
  generalize context.resolve (context.applyNamespaces respelled) = second
    at alike ⊢
  cases alike with
  | error failure => rfl
  | @ok resolved resolved' same =>
      have expanded : Schema.expand resolved' = Schema.expand resolved := same.symm
      rw [attempt_bind, attempt_bind, expanded]

/-- Writing out a bare type name at any place where a schema is expected leaves
everything that a compilation does as it is, provided that the name is laid over
nothing but a type where it stands among the siblings of a marker.  The key of the
long form has to stand for itself. -/
theorem compile_respelled (context : Context) (typeKey : context.PlainKey "type")
    (noReference : context.settings.referenceKey ≠ "type")
    (document respelled : Value) (wellFormed : document.WellFormed)
    (literal :
      document.EveryObject (KeyPath.LiteralKeys context.settings.pathSeparator))
    (respells :
      context.source.Respells Schema.OnlyType [] .schema document respelled) :
    context.compile respelled = context.compile document := by
  have plainKeys := KeyPath.everyPlainKeys_of_literal wellFormed literal
  have plainKeys' : respelled.EveryObject
      (KeyPath.PlainKeys context.settings.pathSeparator) := by
    apply respells.everyObject _ _ plainKeys
    · intro members members' sameKeys plain
      exact ⟨sameKeys ▸ plain.distinct, sameKeys ▸ plain.spellThemselves⟩
    · intro name
      exact ⟨by simp, by simpa using typeKey.spellsItself⟩
  have agree := respells.agree typeKey.noParts noReference (by simp)
  exact compile_eq_of_endAlike
    (expandPaths_eq_ok_iff.mpr (KeyPath.expand_of_plainKeys plainKeys))
    (expandPaths_eq_ok_iff.mpr (KeyPath.expand_of_plainKeys plainKeys'))
    agree.endAlike_resolve

/-! ## The age of a person -/

/-- A document that refers to a person and says of what type the age is. -/
def ofAge (age : Value) : Value :=
  .object
    [("$ref", .string "person"), ("properties", .object [("age", age)])]

/-- A context whose only fragment tells of a person what is known of the age. -/
def withAge (known : Value) : Context where
  library := .ofFragments
    [("person", .object [("properties", .object [("age", known)])])]

/-- What the age of the document comes to lie over. -/
def belowAge (known age : Value) : List Value :=
  let source := (withAge known).source
  let belowProperties :=
    source.around [] (source.namespacing.renamed (ofAge age).members)
  atKey (source.around (atKey belowProperties "properties")
    (source.namespacing.renamed [("age", age)])) "age"

theorem plainKey_type (known : Value) : (withAge known).PlainKey "type" where
  spellsItself := by cbv
  noParts := by cbv
  noDefinitions := by decide

theorem wellFormed_ofAge (name : String) :
    (ofAge (.string name)).WellFormed :=
  ⟨by simp, trivial, ⟨by simp, trivial, trivial⟩, trivial⟩

theorem literal_ofAge (name : String) :
    (ofAge (.string name)).EveryObject (KeyPath.LiteralKeys '.') := by
  have outer : ∀ key ∈ ["$ref", "properties"],
      '.' ∉ key.toList ∧ '\\' ∉ key.toList := by
    decide
  have inner : ∀ key ∈ ["age"], '.' ∉ key.toList ∧ '\\' ∉ key.toList := by
    decide
  simp only [ofAge, Value.everyObject_object_iff, List.forall_mem_cons]
  exact ⟨outer, Value.everyObject_string _ _,
    ⟨inner, Value.everyObject_string _ _, by simp⟩, by simp⟩

theorem respells_ofAge {allows : Value → Prop} {known : Value} {name : String}
    (allowed : ∀ below ∈ belowAge known (.string name), allows below) :
    (withAge known).source.Respells allows [] .schema (ofAge (.string name))
      (ofAge (named name)) := by
  have goesByProperties :
      (withAge known).source.namespacing.nameOf? "properties" =
        some "properties" := by
    cbv
  have goesByAge :
      (withAge known).source.namespacing.nameOf? "age" = some "age" := by
    cbv
  apply Fragment.Source.Respells.member [("$ref", .string "person")] []
    goesByProperties (by decide : "properties" ≠ "$ref")
  apply Fragment.Source.Respells.member [] [] goesByAge
    (by decide : "age" ≠ "$ref")
  exact Fragment.Source.Respells.name name rfl allowed

/-- A name that replaces the type that a fragment gives. -/
theorem compile_respelled_ofAge :
    (withAge (.string "number")).compile (ofAge (named "integer")) =
      (withAge (.string "number")).compile (ofAge (.string "integer")) := by
  have below : belowAge (.string "number") (.string "integer") =
      [.string "number"] := by
    cbv
  have onlyType : ∀ below ∈ belowAge (.string "number") (.string "integer"),
      Schema.OnlyType below := by
    rw [below, List.forall_mem_singleton]
    simp [Schema.OnlyType, Value.members]
  exact (withAge (.string "number")).compile_respelled (plainKey_type _)
    (by decide) _ _ (wellFormed_ofAge _) (literal_ofAge _)
    (respells_ofAge onlyType)

/-- Among the siblings of a marker a bare type name hides what the fragment says
of a schema, and its long form does not. -/
theorem not_forall_compile_respelled :
    ¬∀ (context : Context) (document respelled : Value), context.Plain →
      context.PlainKey "type" → context.settings.referenceKey ≠ "type" →
      document.WellFormed →
      document.EveryObject
        (KeyPath.LiteralKeys context.settings.pathSeparator) →
      context.source.Respells (fun _ => True) [] .schema document respelled →
        (context.compile respelled).result = (context.compile document).result := by
  intro all
  let known : Value := .object
    [("type", .string "number"), ("minimum", .number (.int 0))]
  have same := all (withAge known) _ _ ⟨rfl, rfl⟩ (plainKey_type known)
    (by decide) (wellFormed_ofAge "integer") (literal_ofAge "integer")
    (respells_ofAge fun _ _ => trivial)
  have short : ((withAge known).compile (ofAge (.string "integer"))).result =
      .ok (.object [("properties", .object
        [("age", .object [("type", .string "integer")])])]) := by
    cbv
  have long : ((withAge known).compile (ofAge (named "integer"))).result =
      .ok (.object [("properties", .object
        [("age", .object
          [("type", .string "integer"), ("minimum", .number (.int 0))])])]) := by
    cbv
  rw [short, long] at same
  simp at same

end Context

end Longhand
