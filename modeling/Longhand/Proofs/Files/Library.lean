import Longhand.Files.Library
import Longhand.Proofs.Json.Writing

/-!
# What a library of files has

A library of files is collected from the references that can come up.  Each of them
stores what its file holds, unless there is no such file or another spelling of the path
has stored it before.  So under the identity of a reference the library has what the file
of that identity holds, or nothing if there is none.

A file that was written for a document holds that document.
-/

namespace Longhand.Files.Tree

variable {tree : Tree} {base reference identity : String} {references : List String}
  {stored : Members (Except LoadFailure Value)}

/-! ## Collecting fragments -/

/-- Store what the file of a reference holds, if there is one and nothing is stored under
its identity. -/
def keep (tree : Tree) (base : String) (stored : Members (Except LoadFailure Value))
    (reference : String) : Members (Except LoadFailure Value) :=
  if Members.contains stored (identify base reference) then stored
  else
    match tree.loadFragment (identify base reference) with
    | .error (.notFound _) => stored
    | result => stored ++ [(identify base reference, result)]

/-- What is stored is what the files hold. -/
def OnlyHeld (tree : Tree) (stored : Members (Except LoadFailure Value)) : Prop :=
  ∀ identity result, Members.get? stored identity = some result →
    tree.loadFragment identity = result

/-- Where nothing is stored under an identity there is no such file. -/
def Settled (tree : Tree) (stored : Members (Except LoadFailure Value))
    (identity : String) : Prop :=
  Members.get? stored identity = none →
    tree.loadFragment identity = .error (.notFound identity)

/-- A file that is not there is named by its identity. -/
theorem eq_of_loadFragment_eq_notFound {name : String}
    (missing : tree.loadFragment identity = .error (.notFound name)) :
    name = identity := by
  unfold loadFragment at missing
  split at missing
  · obtain ⟨fault, -, isNotFound⟩ := mapError_eq_error_iff.mp missing
    cases isNotFound
  · cases missing
    rfl
  · cases missing

/-- One reference more is settled, what was stored before stays, and what is stored for
the reference is what its file holds. -/
theorem keep_cases (tree : Tree) (base : String)
    (stored : Members (Except LoadFailure Value)) (reference : String) :
    keep tree base stored reference = stored ∧
        Settled tree stored (identify base reference) ∨
      keep tree base stored reference =
        stored ++ [(identify base reference,
          tree.loadFragment (identify base reference))] := by
  unfold keep
  split
  · rename_i isStored
    left
    refine ⟨rfl, fun missing => ?_⟩
    simp [Members.contains, missing] at isStored
  · split
    · rename_i missing
      left
      refine ⟨rfl, fun _ => ?_⟩
      rw [missing, eq_of_loadFragment_eq_notFound missing]
    · exact .inr rfl

theorem OnlyHeld.keep (onlyHeld : OnlyHeld tree stored) (base reference : String) :
    OnlyHeld tree (keep tree base stored reference) := by
  rcases keep_cases tree base stored reference with ⟨same, -⟩ | same
  · rwa [same]
  · intro identity result found
    rw [same, Members.get?_append, Option.or_eq_some_iff] at found
    rcases found with found | ⟨-, found⟩
    · exact onlyHeld identity result found
    · rw [Members.get?_cons] at found
      split at found
      · rename_i isThis
        rw [← isThis]
        exact Option.some.inj found
      · cases found

theorem Settled.keep (settled : Settled tree stored identity) (base reference : String) :
    Settled tree (keep tree base stored reference) identity := by
  intro missing
  apply settled
  rcases keep_cases tree base stored reference with ⟨same, -⟩ | same
  · rwa [same] at missing
  · rw [same, Members.get?_append, Option.or_eq_none_iff] at missing
    exact missing.1

/-- Keeping a reference settles its identity. -/
theorem settled_keep (tree : Tree) (base : String)
    (stored : Members (Except LoadFailure Value)) (reference : String) :
    Settled tree (keep tree base stored reference) (identify base reference) := by
  rcases keep_cases tree base stored reference with ⟨same, settled⟩ | same
  · rwa [same]
  · intro missing
    rw [same, Members.get?_append, Members.get?_cons, if_pos rfl] at missing
    simp at missing

theorem OnlyHeld.foldl_keep (onlyHeld : OnlyHeld tree stored) (base : String)
    (references : List String) :
    OnlyHeld tree (references.foldl (Tree.keep tree base) stored) := by
  induction references generalizing stored with
  | nil => exact onlyHeld
  | cons reference rest ih => exact ih (onlyHeld.keep base reference)

theorem Settled.foldl_keep (settled : Settled tree stored identity) (base : String)
    (references : List String) :
    Settled tree (references.foldl (Tree.keep tree base) stored) identity := by
  induction references generalizing stored with
  | nil => exact settled
  | cons reference rest ih => exact ih (settled.keep base reference)

theorem settled_foldl_keep (stored : Members (Except LoadFailure Value))
    (listed : reference ∈ references) :
    Settled tree (references.foldl (keep tree base) stored)
      (identify base reference) := by
  induction references generalizing stored with
  | nil => cases listed
  | cons other rest ih =>
      rcases List.mem_cons.mp listed with rfl | further
      · exact (settled_keep tree base stored reference).foldl_keep base rest
      · exact ih (keep tree base stored other) further

/-- Under the identity of a reference that can come up a library of files has what the
file of that identity holds. -/
theorem load_library (base : String) (listed : reference ∈ references ++ tree.strings) :
    (tree.library base references).load (identify base reference) =
      tree.loadFragment (identify base reference) := by
  have onlyHeld : OnlyHeld tree (tree.library base references).stored :=
    OnlyHeld.foldl_keep (fun _ _ found => by cases found) base _
  have settled : Settled tree (tree.library base references).stored
      (identify base reference) := settled_foldl_keep [] listed
  rw [Library.load]
  split
  · rename_i result found
    exact (onlyHeld _ result found).symm
  · rename_i missing
    exact (settled missing).symm

/-! ## Files that were written for a document -/

variable {document : Value}

/-- A file that was written for a document holds that document. -/
theorem loadFragment_of_render (isCompact : Bool) (wellFormed : document.WellFormed)
    (shallow : document.nesting < 128) (exact : document.EveryNumber Json.ExactNumber)
    (isThere : tree.read identity =
      .ok (Json.bytesOf ((Generator.json isCompact).render document))) :
    tree.loadFragment identity = .ok document := by
  unfold loadFragment
  rw [isThere]
  change (Json.parseBytes _).mapError _ = _
  rw [Json.parseBytes_render isCompact wellFormed shallow exact]
  rfl

/-- A file that holds the bytes of a text is read as this text. -/
theorem readText_of_read {path text : String}
    (isThere : tree.read path = .ok (Json.bytesOf text)) :
    tree.readText path = .ok text := by
  have decoded : String.fromUTF8? ⟨(Json.bytesOf text).toArray⟩ = some text :=
    Json.decodeText?_eq_some_iff.mpr rfl
  rw [readText, bind_eq_ok_iff]
  exact ⟨_, isThere, by rw [decoded]⟩

/-- The strings of a document that a file was written for can come up as references. -/
theorem mem_strings_of_render (isCompact : Bool) {place : Path.Place}
    (wellFormed : document.WellFormed) (shallow : document.nesting < 128)
    (exact : document.EveryNumber Json.ExactNumber)
    (isThere : (place, .file (.ok
      (Json.bytesOf ((Generator.json isCompact).render document)))) ∈ tree.nodes)
    (mem : reference ∈ document.strings) : reference ∈ tree.strings := by
  rw [strings, List.mem_flatMap]
  refine ⟨_, isThere, ?_⟩
  simpa [Json.parseBytes_render isCompact wellFormed shallow exact] using mem

end Longhand.Files.Tree
