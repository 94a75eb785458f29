import Longhand.CommandLine.Run
import Longhand.Proofs.Additions
import Longhand.Proofs.Files.Library

/-!
# Definitions from several sources

Definitions come from files, from a caller and from the document itself, one source
after another.  The first source that has a name decides what the name stands for, and
names stand in the order in which they first came up.

Adding is one pass over the entries of a source, so several sources in a row are one
source written behind each other, and it does not matter whether they are united first.
-/

namespace Longhand

/-! ## Uniting sources -/

namespace CommandLine

variable {known more : Members Value}

theorem unite_cons (known : Members Value) (name : String) (definition : Value)
    (rest : Members Value) :
    unite known ((name, definition) :: rest) =
      unite (Members.setNew known name definition) rest :=
  rfl

/-- One source behind another one is added behind it. -/
theorem unite_append (known first second : Members Value) :
    unite known (first ++ second) = unite (unite known first) second :=
  List.foldl_append

/-- Adding sources one after another is adding all their entries in a row. -/
theorem foldl_unite (known : Members Value) (sources : List (Members Value)) :
    sources.foldl unite known = unite known sources.flatten :=
  List.foldl_flatten.symm

/-- What is known stays, and the first of the new definitions counts. -/
theorem get?_unite (known more : Members Value) (name : String) :
    Members.get? (unite known more) name =
      (Members.get? known name).or (Members.get? more name) := by
  induction more generalizing known with
  | nil => exact Option.or_none.symm
  | cons pair rest ih =>
      obtain ⟨other, definition⟩ := pair
      rw [unite_cons, ih, Members.get?_setNew, Members.get?_cons, Option.or_assoc]
      split <;> rfl

/-- New names follow those that are known, in the order in which they first come up. -/
theorem keys_unite (known more : Members Value) :
    Members.keys (unite known more) = Members.keys known ++
      ((Members.keys more).filter fun name => name ∉ Members.keys known).eraseDups := by
  induction more generalizing known with
  | nil => simp [unite]
  | cons pair rest ih =>
      obtain ⟨name, definition⟩ := pair
      rw [unite_cons, ih, Members.keys_setNew, Members.keys_cons]
      by_cases isKnown : name ∈ Members.keys known
      · rw [if_pos isKnown, List.filter_cons_of_neg (by simpa using isKnown)]
      · rw [if_neg isKnown, List.filter_cons_of_pos (by simpa using isKnown),
          List.eraseDups_cons, List.append_assoc, List.singleton_append,
          List.filter_filter]
        congr 3
        apply List.filter_congr
        intro other _
        simp [and_comm, not_or, Bool.beq_eq_decide_eq]

/-- A definition that is new to a source is added to what the source is added to. -/
theorem unite_setNew (known more : Members Value) (name : String)
    (definition : Value) :
    unite known (Members.setNew more name definition) =
      Members.setNew (unite known more) name definition := by
  by_cases isNew : Members.contains more name = true
  · have isKnown : Members.contains (unite known more) name = true := by
      rw [Members.contains, get?_unite]
      rw [Members.contains] at isNew
      simp [isNew]
    rw [Members.setNew, if_pos isNew, Members.setNew, if_pos isKnown]
  · rw [Members.setNew, if_neg isNew, unite_append]
    rfl

/-- It does not matter whether two sources are united before they are added. -/
theorem unite_unite (known first second : Members Value) :
    unite known (unite first second) = unite (unite known first) second := by
  induction second generalizing first with
  | nil => rfl
  | cons pair rest ih =>
      obtain ⟨name, definition⟩ := pair
      rw [unite_cons, ih, unite_setNew, unite_cons]

/-- Changing every definition commutes with uniting. -/
theorem mapValues_unite (change : Value → Value) (known more : Members Value) :
    Members.mapValues change (unite known more) =
      unite (Members.mapValues change known) (Members.mapValues change more) := by
  induction more generalizing known with
  | nil => rfl
  | cons pair rest ih =>
      obtain ⟨name, definition⟩ := pair
      have sameNames : Members.contains (Members.mapValues change known) name =
          Members.contains known name := by
        rw [Members.contains, Members.get?_mapValues, Option.isSome_map]
        rfl
      have changed : Members.mapValues change (Members.setNew known name definition) =
          Members.setNew (Members.mapValues change known) name (change definition) := by
        rw [Members.setNew, Members.setNew, sameNames, apply_ite (Members.mapValues change)]
        exact congrArg _ List.map_append
      rw [unite_cons, ih, changed]
      rfl

end CommandLine

namespace Definition

open CommandLine

/-- One source for several: of two definitions under one name the first one counts. -/
def united (sources : List (Members Value)) : Members Value :=
  sources.foldl unite []

/-- Adding a source is uniting with it, its bare type names expanded. -/
theorem add_eq_unite (known delta : Members Value) :
    add known delta = unite known (Members.mapValues Schema.expand delta) := by
  rw [unite, Members.mapValues, List.foldl_map]
  rfl

/-- One source behind another one is added after it. -/
theorem add_append (known first second : Members Value) :
    add known (first ++ second) = add (add known first) second :=
  List.foldl_append

/-- Several sources are added like the source that they unite to. -/
theorem add_united (known : Members Value) (sources : List (Members Value)) :
    add known (united sources) = add known sources.flatten := by
  rw [add_eq_unite, add_eq_unite, united, foldl_unite, mapValues_unite, unite_unite]
  rfl

/-- Names that are known come first, then those of a source as they first come up. -/
theorem keys_add (known delta : Members Value) :
    Members.keys (add known delta) = Members.keys known ++
      ((Members.keys delta).filter fun name => name ∉ Members.keys known).eraseDups := by
  rw [add_eq_unite, keys_unite, Members.keys_mapValues]

/-- What is found in several sources in a row is found in the first one that has it. -/
theorem get?_flatten (sources : List (Members Value)) (name : String) :
    Members.get? sources.flatten name =
      sources.findSome? fun source => Members.get? source name := by
  induction sources with
  | nil => rfl
  | cons source rest ih =>
      rw [List.flatten_cons, Members.get?_append, ih, List.findSome?_cons]
      cases Members.get? source name <;> rfl

theorem keys_flatten (sources : List (Members Value)) :
    Members.keys sources.flatten = sources.flatMap Members.keys := by
  rw [Members.keys, List.map_flatten, List.flatMap_def]
  rfl

/-- What several sources make of the definitions that are known. -/
structure FirstWins (known : Members Value) (sources : List (Members Value))
    (result : Members Value) : Prop where
  /-- A known name keeps its definition. -/
  kept : ∀ name definition, Members.get? known name = some definition →
    Members.get? result name = some definition
  /-- Any other name has the definition of the first source that has one, with its bare
  type names expanded. -/
  first : ∀ name, name ∉ Members.keys known →
    Members.get? result name =
      (sources.findSome? fun source => Members.get? source name).map Schema.expand
  /-- Names stand in the order in which they first came up, known ones first. -/
  inOrder : Members.keys result = Members.keys known ++
    ((sources.flatMap Members.keys).filter fun name =>
      name ∉ Members.keys known).eraseDups

/-- In several sources in a row the first definition of a name wins. -/
theorem firstWins_add (known : Members Value) (sources : List (Members Value)) :
    FirstWins known sources (add known sources.flatten) where
  kept name definition isKnown := by
    rw [get?_add, isKnown, Option.some_or]
  first name isNew := by
    rw [get?_add, (Members.get?_eq_none_iff known name).mpr isNew, Option.none_or,
      get?_flatten]
  inOrder := by
    rw [keys_add, keys_flatten]

end Definition

/-! ## Reading definitions from files -/

namespace CommandLine

open Definition (united)

variable {tree : Files.Tree} {settings : Settings}

/-- Reading files and uniting what they hold as they come is reading all of them and
uniting what they hold. -/
theorem foldlM_readDefinitions (known : Members Value) (paths : List String) :
    paths.foldlM
        (fun known path => do
          let more ← readDefinitions tree settings path
          .ok (unite known more))
        known =
      (do
        let sources ← paths.mapM (readDefinitions tree settings)
        .ok (sources.foldl unite known)) := by
  induction paths generalizing known with
  | nil => rfl
  | cons path rest ih =>
      rw [List.foldlM_cons, List.mapM_cons]
      cases readDefinitions tree settings path with
      | error trouble => rfl
      | ok more =>
          change rest.foldlM _ (unite known more) = _
          rw [ih]
          cases rest.mapM (readDefinitions tree settings) <;> rfl

/-- The files of a command unite to one source. -/
theorem readAllDefinitions_eq (tree : Files.Tree) (settings : Settings)
    (patterns : List String) :
    readAllDefinitions tree settings patterns = (do
      let files ← patterns.mapM (filesOf tree)
      let sources ← files.flatten.mapM (readDefinitions tree settings)
      .ok (united sources)) := by
  rw [readAllDefinitions]
  simp only [foldlM_readDefinitions]
  rfl

/-- The files of a command that hold definitions, as one source. -/
theorem readAllDefinitions_eq_ok {patterns : List String}
    {files : List (List String)} {sources : List (Members Value)}
    (named : patterns.mapM (filesOf tree) = .ok files)
    (read : files.flatten.mapM (readDefinitions tree settings) = .ok sources) :
    readAllDefinitions tree settings patterns = .ok (united sources) := by
  rw [readAllDefinitions_eq, named]
  change (do
    let sources ← files.flatten.mapM (readDefinitions tree settings)
    .ok (united sources)) = _
  rw [read]
  rfl

/-- A file that was written for a document is read as the definitions that the document
spells out. -/
theorem readDefinitions_of_render (isCompact : Bool) {path : String} {document : Value}
    {definitions : Members Value} (wellFormed : document.WellFormed)
    (shallow : document.nesting < 128) (exact : document.EveryNumber Json.ExactNumber)
    (isThere : tree.read path =
      .ok (Json.bytesOf ((Generator.json isCompact).render document)))
    (expanded : KeyPath.expand settings.pathSeparator settings.pathConflicts document =
      .ok (.object definitions)) :
    readDefinitions tree settings path = .ok definitions := by
  have parsed : Json.parse ((Generator.json isCompact).render document) = .ok document :=
    Json.parseBytes_render isCompact wellFormed shallow exact
  rw [readDefinitions, bind_eq_ok_iff]
  refine ⟨_, mapError_eq_ok_iff.mpr (Files.Tree.readText_of_read isThere), ?_⟩
  rw [bind_eq_ok_iff]
  refine ⟨document, mapError_eq_ok_iff.mpr parsed, ?_⟩
  rw [bind_eq_ok_iff]
  exact ⟨_, mapError_eq_ok_iff.mpr expanded, rfl⟩

end CommandLine

/-! ## What a context knows -/

namespace Context

open CommandLine (filesOf readDefinitions readAllDefinitions)
open Definition (FirstWins firstWins_add own united)

variable {context : Context}

/-- Definitions that are added source by source. -/
theorem foldl_addDefinitions (context : Context) (sources : List (Members Value)) :
    sources.foldl addDefinitions context = context.addDefinitions sources.flatten := by
  induction sources generalizing context with
  | nil => rfl
  | cons source rest ih =>
      rw [List.foldl_cons, ih, List.flatten_cons, addDefinitions, addDefinitions,
        addDefinitions, Definition.add_append]

/-- It does not matter whether sources are united before they are added. -/
theorem addDefinitions_united (context : Context) (sources : List (Members Value)) :
    context.addDefinitions (united sources) =
      context.addDefinitions sources.flatten := by
  rw [addDefinitions, addDefinitions, Definition.add_united]

/-- Knowing nothing but the definitions of some sources is adding these where nothing is
known. -/
theorem withDefinitions_united (context : Context) (sources : List (Members Value)) :
    context.withDefinitions (united sources) =
      (context.withDefinitions []).addDefinitions sources.flatten := by
  have same : Members.mapValues Schema.expand (united sources) =
      Definition.add [] sources.flatten := by
    rw [Definition.add_eq_unite, united, CommandLine.foldl_unite,
      CommandLine.mapValues_unite]
    rfl
  rw [withDefinitions, same]
  rfl

/-- A document's own definitions are one more source. -/
theorem register_eq_addDefinitions (context : Context) (document : Value) :
    context.register document = context.addDefinitions (own document) := by
  rw [register, Definition.register_eq_add]
  rfl

/-- The first source that has a name decides what it stands for, whether sources are
added to a context one after another, or files are read into a context that then learns
a document's own definitions. -/
theorem firstSource_wins (context : Context) :
    (∀ deltas : List (Members Value),
      FirstWins context.definitions deltas
          (deltas.foldl addDefinitions context).definitions ∧
        deltas.foldl addDefinitions context =
          context.addDefinitions (united deltas)) ∧
    ∀ (tree : Files.Tree) (settings : Settings) (patterns : List String)
      (files : List (List String)) (held : List (Members Value)) (document : Value),
      patterns.mapM (filesOf tree) = .ok files →
      files.flatten.mapM (readDefinitions tree settings) = .ok held →
      ∃ loaded, readAllDefinitions tree settings patterns = .ok loaded ∧
        let sources := held ++ [own document]
        let fresh := context.withDefinitions []
        let learned := (context.withDefinitions loaded).register document
        FirstWins [] sources learned.definitions ∧
          learned = sources.foldl addDefinitions fresh ∧
          learned = fresh.addDefinitions (united sources) := by
  constructor
  · intro deltas
    rw [foldl_addDefinitions, addDefinitions_united]
    exact ⟨firstWins_add context.definitions deltas, rfl⟩
  · intro tree settings patterns files held document named read
    refine ⟨united held, CommandLine.readAllDefinitions_eq_ok named read, ?_⟩
    intro sources fresh learned
    have inTurn : learned = sources.foldl addDefinitions fresh := by
      rw [List.foldl_append, foldl_addDefinitions fresh held,
        ← withDefinitions_united]
      exact register_eq_addDefinitions _ document
    have atOnce : learned = fresh.addDefinitions sources.flatten := by
      rw [inTurn, foldl_addDefinitions]
    rw [addDefinitions_united]
    refine ⟨?_, inTurn, atOnce⟩
    rw [atOnce]
    exact firstWins_add [] sources

/-- Two files and a document that share names. -/
theorem firstSource_wins_files :
    let tree : Files.Tree :=
      { working := ["work"]
        nodes :=
          [(["a", "work"],
              .file (.ok "\x7b\"Id\":\"string\"\x7d".toByteArray.data.toList)),
            (["b", "work"],
              .file (.ok
                "\x7b\"Id\":\"number\",\"Tag.type\":\"any\"\x7d".toByteArray.data.toList))] }
    let tag : Value := .object [("type", .string "any")]
    let held : List (Members Value) :=
      [[("Id", .string "string")], [("Id", .string "number"), ("Tag", tag)]]
    let document : Value := .object
      [("definitions", .object [("Age", .string "integer"), ("Tag", .string "Id")])]
    ["a", "b"].mapM (filesOf tree) = .ok [["a"], ["b"]] ∧
      ["a", "b"].mapM (readDefinitions tree {}) = .ok held ∧
      ∃ loaded, readAllDefinitions tree {} ["a", "b"] = .ok loaded ∧
        (Context.register (Context.withDefinitions {} loaded) document).definitions =
          [("Id", .object [("type", .string "string")]), ("Tag", tag),
            ("Age", .object [("type", .string "integer")])] := by
  intro tree tag held document
  have named : ["a", "b"].mapM (filesOf tree) = .ok [["a"], ["b"]] := by
    have noWildcard : ∀ name ∈ ["a", "b"], Files.Glob.hasWildcard name = false := by
      decide
    simp [filesOf, noWildcard]
    rfl
  have inFirst : readDefinitions tree {} "a" = .ok [("Id", .string "string")] := by
    have wellFormed : (Value.object [("Id", .string "string")]).WellFormed :=
      ⟨by decide, trivial, trivial⟩
    refine CommandLine.readDefinitions_of_render true wellFormed
      (by decide) ?_ rfl rfl
    simp [Value.everyNumber_object_iff, Value.everyNumber_string]
  have inSecond : readDefinitions tree {} "b" =
      .ok [("Id", .string "number"), ("Tag", tag)] := by
    have wellFormed : (Value.object
        [("Id", .string "number"), ("Tag.type", .string "any")]).WellFormed :=
      ⟨by decide, trivial, trivial, trivial⟩
    refine CommandLine.readDefinitions_of_render true wellFormed
      (by decide) ?_ rfl rfl
    simp [Value.everyNumber_object_iff, Value.everyNumber_string]
  have read : ["a", "b"].mapM (readDefinitions tree {}) = .ok held := by
    rw [List.mapM_cons, inFirst, List.mapM_cons, inSecond]
    rfl
  obtain ⟨loaded, isLoaded, -, -, atOnce⟩ :=
    (firstSource_wins {}).2 tree {} ["a", "b"] [["a"], ["b"]] held document named read
  refine ⟨named, read, loaded, isLoaded, ?_⟩
  rw [atOnce]
  rfl

end Context

end Longhand
