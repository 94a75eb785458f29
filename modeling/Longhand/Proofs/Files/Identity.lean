import Longhand.Proofs.Files.Library
import Longhand.Proofs.Files.Path
import Longhand.Proofs.Fragment.Failure

/-!
# Which files references name

A reference names the file that its path leads to from the base directory, and goes by
the text of the normalized path.  References that go by one text name one file, so a
cycle of references that is reported comes back to a file it has passed.

The converse has one exception.  The root is its own parent, but a normalized path keeps
the steps up that are taken there, so a file goes by as many texts as there are ways to
step up at the root on the way to it.
-/

namespace Longhand.Files

/-- The path that a reference spells under a base directory. -/
def located (base reference : String) : Path :=
  (Path.ofText base).join (Path.ofText reference)

/-- Two references name one file: wherever their paths start, they lead to one place. -/
def NameOneFile (base first second : String) : Prop :=
  ∀ start, (located base first).lead start = (located base second).lead start

variable {base reference first second : String}

theorem spelled_of_mem_located {step : Step}
    (mem : step ∈ (located base reference).steps) : step.Spelled := by
  rw [located, Path.join] at mem
  split at mem
  · exact Path.spelled_of_mem_ofText mem
  · rcases List.mem_append.mp mem with inBase | inReference
    · exact Path.spelled_of_mem_ofText inBase
    · exact Path.spelled_of_mem_ofText inReference

/-- The identity of a reference spells its normalized path. -/
theorem ofText_identify (base reference : String) :
    Path.ofText (identify base reference) = (located base reference).normalize := by
  apply Path.ofText_text
  intro step mem
  exact spelled_of_mem_located (Path.mem_of_mem_normalize mem)

theorem identify_eq_identify_iff_normalize :
    identify base first = identify base second ↔
      (located base first).normalize = (located base second).normalize := by
  constructor
  · intro same
    rw [← ofText_identify, same, ofText_identify]
  · exact congrArg Path.text

/-! ## One file, one identity -/

/-- References have one identity exactly when they lead to one place, and from above the
root equally often if they start there. -/
theorem identify_eq_identify_iff (base first second : String) :
    identify base first = identify base second ↔
      (located base first).destination = (located base second).destination ∧
        ((located base first).absolute = true →
          (located base first).climbs = (located base second).climbs) := by
  rw [identify_eq_identify_iff_normalize]
  exact Path.normalize_eq_normalize_iff_destination

/-- A step up at the root makes another identity of the same place. -/
theorem not_forall_identify_eq_identify :
    ¬∀ base first second : String,
      (located base first).destination = (located base second).destination →
        identify base first = identify base second := by
  intro all
  have same : identify "/" "../x" = identify "/" "x" := all "/" "../x" "x" rfl
  have above : identify "/" "../x" = "/../x" := rfl
  have atRoot : identify "/" "x" = "/x" := rfl
  rw [above, atRoot] at same
  simp at same

/-! ## One identity, one file -/

theorem nameOneFile_of_identify_eq
    (same : identify base first = identify base second) :
    NameOneFile base first second := by
  intro start
  rw [← Path.lead_normalize, identify_eq_identify_iff_normalize.mp same,
    Path.lead_normalize]

open Fragment (Mentions Source)

/-- The fragment that a reference names mentions the next one. -/
def Follows (source : Source) (base reference next : String) : Prop :=
  ∃ fragment, source.Prepared (identify base reference) fragment ∧
    Mentions source.settings.referenceKey next fragment

/-- References that come back to a file they have passed: the document mentions the
first one, each further one follows the one before it, and the last one names the same
file as an earlier one. -/
structure ComeBack (source : Source) (base : String) (document : Value)
    (references : List String) : Prop extends
    Chain.Way (fun first => Mentions source.settings.referenceKey first document)
      (Follows source base) references where
  closes : ∃ last ∈ references.getLast?, ∃ earlier ∈ references.dropLast,
    NameOneFile base earlier last

/-- A cycle that is reported where fragments are files is one of references that come
back to a file. -/
theorem exists_comeBack_of_resolve {source : Source} {document : Value} {chain : Chain}
    (inFiles : source.library.identify = identify base)
    (failed : source.resolve document = .error (.cyclicReference chain)) :
    ∃ references, references.map (identify base) = chain ∧
      ComeBack source base document references := by
  cases Source.reports_of_resolve failed with
  | cycle cycle distinct =>
      have ofStart (name : String) (mentioned : source.Mentioned document name) :
          ∃ first, identify base first = name ∧
            Mentions source.settings.referenceKey first document := by
        obtain ⟨first, mentions, same⟩ := mentioned
        exact ⟨first, inFiles ▸ same, mentions⟩
      have ofLink (first next : String) (leads : source.Leads (identify base first) next) :
          ∃ second, identify base second = next ∧ Follows source base first second := by
        obtain ⟨fragment, second, prepared, mentions, same⟩ := leads
        exact ⟨second, inFiles ▸ same, fragment, prepared, mentions⟩
      obtain ⟨references, rfl, way⟩ := cycle.exists_of_names ofStart ofLink
      refine ⟨references, rfl, way, ?_⟩
      obtain ⟨_, isLast, passed⟩ := cycle.closes
      rw [List.getLast?_map] at isLast
      obtain ⟨last, atEnd, rfl⟩ := Option.map_eq_some_iff.mp isLast
      rw [← List.map_dropLast] at passed
      obtain ⟨earlier, mem, same⟩ := List.mem_map.mp passed
      exact ⟨last, atEnd, earlier, mem, nameOneFile_of_identify_eq same⟩

/-- Normalizing a path never changes where it leads.  So references that go by one
identity name one file, and no cycle of references is reported that does not come back to
a file. -/
theorem normalize_leadsAlike :
    (∀ path : Path,
      (∀ start, path.normalize.lead start = path.lead start) ∧
        path.normalize.IsNormal ∧ path.normalize.normalize = path.normalize) ∧
    (∀ text : String,
      Path.ofText (Path.ofText text).normalize.text = (Path.ofText text).normalize) ∧
    (∀ base first second : String, identify base first = identify base second →
      NameOneFile base first second) ∧
    ∀ (tree : Tree) (base : String) (references : List String) (settings : Settings)
      (namespacing : Namespacing) (document : Value) (chain : Chain),
      let source : Source := ⟨tree.library base references, settings, namespacing⟩
      source.resolve document = .error (.cyclicReference chain) →
        ∃ followed, followed.map (identify base) = chain ∧
          ComeBack source base document followed := by
  refine ⟨?_, ?_, ?_, ?_⟩
  · intro path
    exact ⟨path.lead_normalize, path.isNormal_normalize, path.normalize_normalize⟩
  · intro text
    apply Path.ofText_text
    intro step mem
    exact Path.spelled_of_mem_ofText (Path.mem_of_mem_normalize mem)
  · exact fun base first second => nameOneFile_of_identify_eq
  · intro tree base references settings namespacing document chain source failed
    exact exists_comeBack_of_resolve rfl failed

/-- Two files that refer to each other, each under another spelling than the document
uses. -/
theorem normalize_leadsAlike_two :
    let tree : Tree :=
      { working := ["w"]
        nodes :=
          [(["a", "w"], .file (.ok "\x7b\"$ref\":\"x/../b\"\x7d".toByteArray.data.toList)),
            (["b", "w"], .file (.ok "\x7b\"$ref\":\"./a\"\x7d".toByteArray.data.toList))] }
    let source : Source := ⟨tree.library "." ["a"], {}, ⟨[], '@', ':'⟩⟩
    let document : Value := .object [("$ref", .string "a")]
    source.resolve document = .error (.cyclicReference ["a", "b", "a"]) ∧
      NameOneFile "." "a" "./a" ∧
      ∃ followed, followed.map (identify ".") = ["a", "b", "a"] ∧
        ComeBack source "." document followed := by
  intro tree source document
  let toB : Value := .object [("$ref", .string "x/../b")]
  let toA : Value := .object [("$ref", .string "./a")]
  have isA : identify "." "a" = "a" := rfl
  have isB : identify "." "x/../b" = "b" := rfl
  have isA' : identify "." "./a" = "a" := rfl
  have identifies (reference : String) :
      source.library.identify reference = identify "." reference := rfl
  have wellFormed (reference : String) :
      (Value.object [("$ref", .string reference)]).WellFormed :=
    ⟨by simp [Members.keys], trivial, trivial⟩
  have exact (reference : String) :
      (Value.object [("$ref", .string reference)]).EveryNumber Json.ExactNumber := by
    simp [Value.everyNumber_object_iff, Value.everyNumber_string]
  have spellsB : (Generator.json true).render toB = "\x7b\"$ref\":\"x/../b\"\x7d" := rfl
  have spellsA : (Generator.json true).render toA = "\x7b\"$ref\":\"./a\"\x7d" := rfl
  have heldA : tree.loadFragment "a" = .ok toB := by
    apply Tree.loadFragment_of_render true (wellFormed _) (by decide) (exact _)
    rw [spellsB]
    rfl
  have heldB : tree.loadFragment "b" = .ok toA := by
    apply Tree.loadFragment_of_render true (wellFormed _) (by decide) (exact _)
    rw [spellsA]
    rfl
  have listedB : "x/../b" ∈ tree.strings := by
    have isThere : (["a", "w"], .file (.ok
        (Json.bytesOf ((Generator.json true).render toB)))) ∈ tree.nodes := by
      rw [spellsB]
      exact List.mem_cons_self
    apply Tree.mem_strings_of_render true (wellFormed _) (by decide) (exact _) isThere
    simp [Value.strings, Value.stringsOfMembers]
  have inA : source.library.load "a" = .ok toB := by
    have listed : "a" ∈ ["a"] ++ tree.strings := List.mem_cons_self
    have loaded := Tree.load_library "." listed
    rwa [isA, heldA] at loaded
  have inB : source.library.load "b" = .ok toA := by
    have listed : "x/../b" ∈ ["a"] ++ tree.strings := List.mem_append_right _ listedB
    have loaded := Tree.load_library "." listed
    rwa [isB, heldB] at loaded
  have backAtA : source.follow ["a", "b"] 0 "./a" =
      .error (.cyclicReference ["a", "b", "a"]) := by
    rw [Source.follow_eq, identifies, isA', if_pos (by decide)]
    rfl
  have throughB : source.follow ["a"] 0 "x/../b" =
      .error (.cyclicReference ["a", "b", "a"]) := by
    rw [Source.follow_eq, identifies, isB, if_neg (by decide), inB]
    exact backAtA
  have throughA : source.follow [] 0 "a" =
      .error (.cyclicReference ["a", "b", "a"]) := by
    rw [Source.follow_eq, identifies, isA, if_neg (by decide), inA]
    exact throughB
  have failed : source.resolve document = .error (.cyclicReference ["a", "b", "a"]) := by
    have nothingTold : source.foresee [] 0 document = .ok () := rfl
    have opened : source.fragmentOf [] 0 "a" = source.follow [] 0 "a" := rfl
    rw [Source.resolve, nothingTold]
    change Fragment.resolveWith "$ref" (source.fragmentOf [] 0) _ document = _
    rw [Fragment.resolveWith]
    change (source.fragmentOf [] 0 "a" >>= _) = _
    rw [opened, throughA]
    rfl
  have same : identify "." "a" = identify "." "./a" := rfl
  obtain ⟨-, -, oneFile, comesBack⟩ := normalize_leadsAlike
  exact ⟨failed, oneFile "." "a" "./a" same,
    comesBack tree "." ["a"] {} ⟨[], '@', ':'⟩ document ["a", "b", "a"] failed⟩

end Longhand.Files
