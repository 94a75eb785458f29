import Longhand.Files.Path
import Mathlib.Data.List.Basic

/-!
# Where paths lead

The steps of a path tell where it leads before anything is known of the directory that
it starts from: up so many times, and then along names.  From a directory this is a
place.  Normalizing a path writes it down as steps again, so a normalized path leads to
the same place and stays as it is when it is normalized once more.

The text of a path spells it as long as each of its steps is spelled by a part of its
own, which is so for every path that was read from a text.
-/

namespace Longhand.Files

namespace Path

/-! ## Destinations -/

/-- Where a path leads, as far as its steps tell: from the root or from some directory,
up so many times, then along names, the last one first. -/
@[ext]
structure Destination where
  absolute : Bool
  climbs : Nat := 0
  names : List String := []
  deriving DecidableEq, Repr

namespace Destination

/-- Take one step further.  A step up drops the last name.  Where there is none it is
counted, except at the root, which is its own parent. -/
def move (destination : Destination) : Step → Destination
  | .here => destination
  | .name n => { destination with names := n :: destination.names }
  | .up =>
      match destination.names with
      | _ :: rest => { destination with names := rest }
      | [] =>
          if destination.absolute then destination
          else { destination with climbs := destination.climbs + 1 }

/-- The place that is reached from a directory. -/
def place (destination : Destination) (start : Place) : Place :=
  destination.names ++
    (if destination.absolute then [] else start).drop destination.climbs

/-- The steps that lead there without a detour. -/
def steps (destination : Destination) : List Step :=
  List.replicate destination.climbs .up ++ destination.names.reverse.map .name

/-- The same steps, taken from the root or not: steps up at the root count for
nothing. -/
def startingAt (absolute : Bool) (destination : Destination) : Destination where
  absolute := absolute
  climbs := if absolute then 0 else destination.climbs
  names := destination.names

variable {destination : Destination}

/-- Taking a step commutes with looking at the place. -/
theorem place_move (destination : Destination) (step : Step) (start : Place) :
    (destination.move step).place start = (destination.place start).move step := by
  obtain ⟨absolute, climbs, names⟩ := destination
  cases step with
  | here => rfl
  | name n => rfl
  | up =>
      cases names with
      | cons name rest => rfl
      | nil => cases absolute <;> simp [move, place, Place.move]

theorem place_foldl_move (destination : Destination) (steps : List Step)
    (start : Place) :
    (steps.foldl move destination).place start =
      steps.foldl Place.move (destination.place start) :=
  (List.foldl_hom (fun destination : Destination => destination.place start)
    fun destination step => (place_move destination step start).symm).symm

theorem absolute_move (destination : Destination) (step : Step) :
    (destination.move step).absolute = destination.absolute := by
  unfold move
  split
  · rfl
  · rfl
  · split
    · rfl
    · split <;> rfl

theorem absolute_foldl_move (steps : List Step) (destination : Destination) :
    (steps.foldl move destination).absolute = destination.absolute := by
  induction steps generalizing destination with
  | nil => rfl
  | cons step rest ih => rw [List.foldl_cons, ih, absolute_move]

/-- Away from the root, adding a step to steps without a detour leaves no detour. -/
theorem push_steps (relative : destination.absolute = false) (step : Step) :
    push destination.steps.reverse step = (destination.move step).steps.reverse := by
  obtain ⟨absolute, climbs, names⟩ := destination
  obtain rfl : absolute = false := relative
  cases step with
  | here => rfl
  | name n => simp [push, move, steps]
  | up =>
      cases names with
      | cons name rest => simp [push, move, steps]
      | nil =>
          have further : push (List.replicate climbs .up) .up =
              List.replicate (climbs + 1) .up := by
            cases climbs <;> rfl
          simpa [move, steps] using further

theorem foldl_push_steps (destination : Destination)
    (relative : destination.absolute = false) (taken : List Step) :
    taken.foldl push destination.steps.reverse =
      (taken.foldl move destination).steps.reverse := by
  induction taken generalizing destination with
  | nil => rfl
  | cons step rest ih =>
      have stillRelative := (absolute_move destination step).trans relative
      rw [List.foldl_cons, push_steps relative, ih _ stillRelative, List.foldl_cons]

/-- Taking the steps up, from anywhere but the root, only counts them. -/
theorem foldl_move_replicate (climbs count : Nat) :
    (List.replicate count Step.up).foldl move ⟨false, climbs, []⟩ =
      ⟨false, climbs + count, []⟩ := by
  induction count generalizing climbs with
  | zero => rfl
  | succ count ih =>
      rw [List.replicate_succ, List.foldl_cons]
      change (List.replicate count Step.up).foldl move ⟨false, climbs + 1, []⟩ = _
      rw [ih, Nat.add_right_comm, Nat.add_assoc]

theorem foldl_move_names (destination : Destination) (names : List String) :
    (names.map Step.name).foldl move destination =
      { destination with names := names.reverse ++ destination.names } := by
  induction names generalizing destination with
  | nil => rfl
  | cons name rest ih =>
      rw [List.map_cons, List.foldl_cons, ih, List.reverse_cons, List.append_assoc]
      rfl

/-- The steps without a detour lead where they were taken from. -/
theorem foldl_move_steps (relative : destination.absolute = false) :
    destination.steps.foldl move { absolute := false } = destination := by
  obtain ⟨absolute, climbs, names⟩ := destination
  obtain rfl : absolute = false := relative
  rw [steps, List.foldl_append, foldl_move_replicate, foldl_move_names]
  simp

/-- It makes no difference whether the start is forgotten before or after a step. -/
theorem startingAt_move (relative : destination.absolute = false) (absolute : Bool)
    (step : Step) :
    (destination.move step).startingAt absolute =
      (destination.startingAt absolute).move step := by
  obtain ⟨isAbsolute, climbs, names⟩ := destination
  obtain rfl : isAbsolute = false := relative
  cases step with
  | here => rfl
  | name n => rfl
  | up =>
      cases names with
      | cons name rest => rfl
      | nil => cases absolute <;> rfl

theorem startingAt_foldl_move (relative : destination.absolute = false)
    (absolute : Bool) (steps : List Step) :
    (steps.foldl move destination).startingAt absolute =
      steps.foldl move (destination.startingAt absolute) := by
  induction steps generalizing destination with
  | nil => rfl
  | cons step rest ih =>
      have stillRelative := (absolute_move destination step).trans relative
      rw [List.foldl_cons, ih stillRelative, startingAt_move relative, List.foldl_cons]

end Destination

/-- Where a path leads, read step by step. -/
def destination (path : Path) : Destination :=
  path.steps.foldl Destination.move { absolute := path.absolute }

/-- The same steps, from some directory. -/
def unrooted (path : Path) : Path :=
  { path with absolute := false }

/-- How often the steps of a path go up where no name is left to drop. -/
def climbs (path : Path) : Nat :=
  path.unrooted.destination.climbs

variable {path other : Path}

/-- The place where a path leads is the place of its destination. -/
theorem lead_eq_place (path : Path) (start : Place) :
    path.lead start = path.destination.place start := by
  rw [destination, Destination.place_foldl_move, lead]
  rfl

theorem absolute_destination (path : Path) :
    path.destination.absolute = path.absolute :=
  Destination.absolute_foldl_move path.steps _

/-- Where a path leads follows from where its steps lead and whether they start at the
root. -/
theorem destination_eq (path : Path) :
    path.destination = path.unrooted.destination.startingAt path.absolute := by
  rw [destination, destination, Destination.startingAt_foldl_move rfl]
  cases path.absolute <;> rfl

/-! ## Normalized paths -/

/-- A normalized path has the steps that lead where all its steps do. -/
theorem normalize_eq (path : Path) :
    path.normalize = { path with steps := path.unrooted.destination.steps } := by
  have pushed : path.steps.foldl push [] = path.unrooted.destination.steps.reverse :=
    Destination.foldl_push_steps { absolute := false } rfl path.steps
  rw [normalize, pushed, List.reverse_reverse]

theorem destination_unrooted_normalize (path : Path) :
    path.normalize.unrooted.destination = path.unrooted.destination := by
  rw [normalize_eq]
  exact Destination.foldl_move_steps (absolute_destination path.unrooted)

/-- Normalizing leaves it at where a path leads. -/
theorem destination_normalize (path : Path) :
    path.normalize.destination = path.destination := by
  rw [destination_eq, destination_unrooted_normalize, destination_eq path]
  rfl

/-- From every directory a normalized path leads to the same place. -/
theorem lead_normalize (path : Path) (start : Place) :
    path.normalize.lead start = path.lead start := by
  rw [lead_eq_place, lead_eq_place, destination_normalize]

theorem normalize_normalize (path : Path) : path.normalize.normalize = path.normalize := by
  rw [normalize_eq path.normalize, destination_unrooted_normalize, normalize_eq path]

/-- A run of steps up, then names alone. -/
def IsNormal (path : Path) : Prop :=
  ∃ (climbs : Nat) (names : List String),
    path.steps = List.replicate climbs .up ++ names.map .name

theorem isNormal_normalize (path : Path) : path.normalize.IsNormal := by
  rw [normalize_eq]
  exact ⟨_, _, rfl⟩

/-- Paths are normalized alike exactly when they start alike and their steps lead to one
place from every directory. -/
theorem normalize_eq_normalize_iff :
    path.normalize = other.normalize ↔
      path.absolute = other.absolute ∧
        path.unrooted.destination = other.unrooted.destination := by
  constructor
  · intro same
    have sameStart := congrArg Path.absolute same
    have sameEnd := congrArg (fun path : Path => path.unrooted.destination) same
    simp only [destination_unrooted_normalize] at sameEnd
    exact ⟨sameStart, sameEnd⟩
  · rintro ⟨sameStart, sameEnd⟩
    rw [normalize_eq, normalize_eq, sameEnd, sameStart]

/-- Paths that lead to one place are normalized alike unless they are absolute and do not
go above the root equally often. -/
theorem normalize_eq_normalize_iff_destination :
    path.normalize = other.normalize ↔
      path.destination = other.destination ∧
        (path.absolute = true → path.climbs = other.climbs) := by
  rw [normalize_eq_normalize_iff]
  constructor
  · rintro ⟨sameStart, sameEnd⟩
    refine ⟨?_, fun _ => congrArg Destination.climbs sameEnd⟩
    rw [destination_eq, sameStart, sameEnd, ← destination_eq]
  · rintro ⟨same, above⟩
    have sameStart : path.absolute = other.absolute := by
      rw [← absolute_destination, same, absolute_destination]
    rw [destination_eq, destination_eq other, ← sameStart] at same
    obtain ⟨-, sameClimbs, sameNames⟩ := Destination.mk.inj same
    refine ⟨sameStart, Destination.ext ?_ ?_ sameNames⟩
    · rw [absolute_destination, absolute_destination]
      rfl
    · cases isAbsolute : path.absolute with
      | true => exact above isAbsolute
      | false => simpa [isAbsolute] using sameClimbs

theorem mem_of_mem_push {pushed : List Step} {next step : Step}
    (mem : step ∈ push pushed next) : step ∈ pushed ∨ step = next := by
  unfold push at mem
  split at mem
  · exact .inl mem
  · exact (List.mem_cons.mp mem).symm
  · split at mem
    · exact .inl (List.mem_cons_of_mem _ mem)
    · exact (List.mem_cons.mp mem).symm

theorem mem_of_mem_foldl_push {pushed taken : List Step} {step : Step}
    (mem : step ∈ taken.foldl push pushed) : step ∈ pushed ∨ step ∈ taken := by
  induction taken generalizing pushed with
  | nil => exact .inl mem
  | cons next rest ih =>
      rcases ih mem with before | behind
      · rcases mem_of_mem_push before with before | rfl
        · exact .inl before
        · exact .inr List.mem_cons_self
      · exact .inr (List.mem_cons_of_mem next behind)

/-- Normalizing makes no step that was not there. -/
theorem mem_of_mem_normalize {step : Step} (mem : step ∈ path.normalize.steps) :
    step ∈ path.steps := by
  rw [normalize, List.mem_reverse] at mem
  exact (mem_of_mem_foldl_push mem).resolve_left List.not_mem_nil

end Path

/-! ## Spelled paths -/

/-- A step has a part of a path text for itself, which spells it. -/
structure Step.Spelled (step : Step) : Prop where
  noSlash : '/' ∉ step.text.toList
  spells : Step.ofText? step.text = some step

/-- A part spells a step by the text of the step. -/
theorem Step.text_of_ofText? {part : String} {step : Step}
    (spells : Step.ofText? part = some step) : step.text = part := by
  unfold ofText? at spells
  split at spells
  · cases spells
  · split at spells
    · rename_i isHere
      obtain rfl := Option.some.inj spells
      exact isHere.symm
    · split at spells
      · rename_i isUp
        obtain rfl := Option.some.inj spells
        exact isUp.symm
      · obtain rfl := Option.some.inj spells
        rfl

/-- A spelled step leaves some text. -/
theorem Step.Spelled.toList_ne_nil {step : Step} (spelled : step.Spelled) :
    step.text.toList ≠ [] := by
  intro isEmpty
  have spells := spelled.spells
  rw [String.toList_eq_nil_iff.mp isEmpty] at spells
  simp [Step.ofText?] at spells

namespace Path

variable {path : Path}

/-- Each step that a text spells is spelled. -/
theorem spelled_of_mem_ofText {text : String} {step : Step}
    (mem : step ∈ (ofText text).steps) : step.Spelled := by
  obtain ⟨part, isPart, spells⟩ := List.mem_filterMap.mp mem
  obtain ⟨chars, isCut, rfl⟩ := List.mem_map.mp isPart
  have sameText := Step.text_of_ofText? spells
  constructor
  · rw [sameText, String.toList_ofList]
    exact Text.notMem_of_mem_splitAt '/' text.toList chars isCut
  · rw [sameText, spells]

theorem toList_text (path : Path) :
    path.text.toList = (if path.absolute then ['/'] else []) ++
      ['/'].intercalate (path.steps.map fun step => step.text.toList) := by
  rw [text, String.toList_append, String.toList_intercalate, List.map_map]
  cases path.absolute <;> rfl

/-- The steps of joined parts are those that the parts spell. -/
theorem filterMap_splitAt_intercalate {steps : List Step}
    (spelled : ∀ step ∈ steps, step.Spelled) :
    (Text.splitAt '/' (['/'].intercalate
        (steps.map fun step => step.text.toList))).filterMap
      (fun part => Step.ofText? (String.ofList part)) = steps := by
  cases steps with
  | nil => rfl
  | cons step rest =>
      rw [Text.splitAt_intercalate, List.filterMap_map]
      · have spells (other : Step) (mem : other ∈ step :: rest) :
            Step.ofText? (String.ofList other.text.toList) = some other := by
          rw [String.ofList_toList]
          exact (spelled other mem).spells
        exact (List.filterMap_congr spells).trans List.filterMap_some
      · exact List.forall_mem_map.mpr fun step mem => (spelled step mem).noSlash
      · exact List.cons_ne_nil _ _

/-- The text of spelled steps does not start with a slash. -/
theorem head?_intercalate_ne {steps : List Step}
    (spelled : ∀ step ∈ steps, step.Spelled) :
    (['/'].intercalate (steps.map fun step => step.text.toList)).head? ≠ some '/' := by
  cases steps with
  | nil => simp
  | cons step rest =>
      have isSpelled := spelled step List.mem_cons_self
      obtain ⟨first, others, characters⟩ :=
        List.exists_cons_of_ne_nil isSpelled.toList_ne_nil
      have noSlash := isSpelled.noSlash
      rw [characters, List.mem_cons, not_or] at noSlash
      rw [List.map_cons, characters]
      cases rest <;> simp [List.intercalate_cons_cons, Ne.symm noSlash.1]

/-- The text of a path spells it. -/
theorem ofText_text (spelled : ∀ step ∈ path.steps, step.Spelled) :
    ofText path.text = path := by
  obtain ⟨absolute, steps⟩ := path
  have readSteps := filterMap_splitAt_intercalate spelled
  rw [ofText, Text.splitOn, List.filterMap_map, toList_text]
  cases absolute with
  | false =>
      simp only [Bool.false_eq_true, if_false, List.nil_append, Path.mk.injEq]
      exact ⟨decide_eq_false (head?_intercalate_ne spelled), readSteps⟩
  | true =>
      -- The slash in front leaves an empty part, which spells nothing.
      simp only [if_true, List.singleton_append, Path.mk.injEq]
      refine ⟨decide_eq_true rfl, ?_⟩
      rw [Text.splitAt, if_pos rfl, List.filterMap_cons]
      exact readSteps

end Path

end Longhand.Files
