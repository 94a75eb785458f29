import Longhand.Proofs.Chain
import Longhand.Value

/-!
# Branches of an expansion

Fragments and definitions are expanded inside one another.  A branch of such an
expansion is told by the names that it has entered, by how deep it counts itself, and
by what it is about to do: to go through a value, or to enter a name.

A branch enters stored names only, and none of them twice.  So no branch enters more
names than are stored, and every branch comes to an end, whatever limit is set on its
depth: entering a name leaves fewer names, and going through a value leaves a smaller
one.
-/

namespace Longhand

open Relation

/-- What is done next on a branch. -/
inductive Task where
  /-- Go through a value. -/
  | traverse (value : Value)
  /-- Look up a name. -/
  | enter (name : String)

namespace Task

/-- How much there is to go through before a name is looked up. -/
noncomputable def size : Task → Nat
  | traverse value => sizeOf value + 1
  | enter _ => 0

end Task

/-- Where a branch stands: the names that it has entered, the depth that it counts, and
what it does next. -/
structure Branch where
  chain : Chain
  depth : Nat
  task : Task

namespace Branch

variable {α β : Type} {stored : Members α} {step : Branch → Branch → Prop}
  {branch start : Branch} {name : String}

/-- Every branch of a document starts outside all names. -/
def root (document : Value) : Branch where
  chain := []
  depth := 0
  task := .traverse document

/-! ## What every branch keeps to -/

/-- A branch has entered stored names only and none of them twice, and it counts no
more levels than names. -/
structure Within (stored : Members α) (branch : Branch) : Prop where
  distinct : branch.chain.Nodup
  isStored : ∀ name ∈ branch.chain, name ∈ Members.keys stored
  depth_le : branch.depth ≤ branch.chain.length

theorem within_root (document : Value) : Within stored (root document) where
  distinct := .nil
  isStored := by simp [root]
  depth_le := Nat.zero_le 0

/-- A branch has entered no more names than are stored. -/
theorem Within.length_le (within : Within stored branch) :
    branch.chain.length ≤ stored.length := by
  calc
    branch.chain.length ≤ (Members.keys stored).length :=
      within.distinct.length_le_of_subset within.isStored
    _ = stored.length := List.length_map ..

/-- What a branch does next is no matter. -/
theorem Within.next {chain : Chain} {depth : Nat} {task : Task}
    (within : Within stored ⟨chain, depth, task⟩) (other : Task) :
    Within stored ⟨chain, depth, other⟩ where
  distinct := within.distinct
  isStored := within.isStored
  depth_le := within.depth_le

/-- A branch may enter a stored name that it has not entered, and count one level
more. -/
theorem Within.enter (within : Within stored branch) (isNew : name ∉ branch.chain)
    (isStored : (Members.get? stored name).isSome = true) {depth : Nat}
    (deeper : depth ≤ branch.depth + 1) (task : Task) :
    Within stored ⟨branch.chain ++ [name], depth, task⟩ where
  distinct := Chain.nodup_append within.distinct isNew
  isStored := by
    intro entered mem
    rcases List.mem_append.mp mem with before | last
    · exact within.isStored entered before
    · rw [List.mem_singleton.mp last, ← Members.get?_isSome_iff]
      exact isStored
  depth_le := by
    have notMore := within.depth_le
    change depth ≤ (branch.chain ++ [name]).length
    rw [List.length_append, List.length_singleton]
    omega

/-- Only the stored names count. -/
theorem Within.of_keys_eq {others : Members β} (within : Within stored branch)
    (sameKeys : Members.keys stored = Members.keys others) : Within others branch where
  distinct := within.distinct
  isStored := sameKeys ▸ within.isStored
  depth_le := within.depth_le

/-! ## Every branch ends -/

/-- What is left on a branch: the stored names that it has not entered, and how much
there is to go through before the next one. -/
noncomputable def rank (stored : Members α) (branch : Branch) : Nat × Nat :=
  (Chain.unvisited stored branch.chain, branch.task.size)

/-- Steps that leave less and less come to an end. -/
theorem wellFounded_of_rank (stored : Members α)
    (less : ∀ branch next, step branch next →
      Prod.Lex (· < ·) (· < ·) (rank stored next) (rank stored branch)) :
    WellFounded (Function.swap step) :=
  Subrelation.wf (fun {_ _} stepped => less _ _ stepped)
    (InvImage.wf (rank stored)
      (WellFounded.prod_lex Nat.lt_wfRel.wf Nat.lt_wfRel.wf))

/-- Going through a part of a value leaves less. -/
theorem rank_lt_of_size {chain : Chain} {depth : Nat} {task part : Task}
    (smaller : part.size < task.size) :
    Prod.Lex (· < ·) (· < ·) (rank stored ⟨chain, depth, part⟩)
      (rank stored ⟨chain, depth, task⟩) :=
  .right _ smaller

/-- Entering a stored name that is not on the chain leaves less. -/
theorem rank_lt_of_enter {chain : Chain} {depth deeper : Nat} {task inner : Task}
    (isNew : name ∉ chain) (isStored : (Members.get? stored name).isSome = true) :
    Prod.Lex (· < ·) (· < ·) (rank stored ⟨chain ++ [name], deeper, inner⟩)
      (rank stored ⟨chain, depth, task⟩) :=
  .left _ _ (Chain.unvisited_append_lt isStored isNew)

theorem size_item_lt {items : List Value} {item : Value} (mem : item ∈ items) :
    (Task.traverse item).size < (Task.traverse (.array items)).size := by
  have smaller := List.sizeOf_lt_of_mem mem
  simp only [Task.size, Value.array.sizeOf_spec]
  omega

theorem size_member_lt {members : Members Value} {pair : String × Value}
    (mem : pair ∈ members) :
    (Task.traverse pair.2).size < (Task.traverse (.object members)).size := by
  rcases pair with ⟨key, value⟩
  have smaller := List.sizeOf_lt_of_mem mem
  simp only [Task.size, Value.object.sizeOf_spec, Prod.mk.sizeOf_spec] at smaller ⊢
  omega

/-! ## What the branches determine -/

/-- What names come to where they are entered. -/
abbrev Answers (β : Type) := Chain → Nat → String → β

/-- Rules by which the answer to a name follows from the answers further on its branches
leave no choice: answers that keep to them on the branches from a start agree there.
The induction is on what is left of a branch. -/
theorem answers_unique {once : Answers β → Answers β} {first second : Answers β}
    (ends : WellFounded (Function.swap step))
    (depends : ∀ {first second : Answers β} {chain depth name},
      (∀ chain' depth' name',
        TransGen step ⟨chain, depth, .enter name⟩ ⟨chain', depth', .enter name'⟩ →
          first chain' depth' name' = second chain' depth' name') →
      once first chain depth name = once second chain depth name)
    (ofFirst : ∀ chain depth name,
      ReflTransGen step start ⟨chain, depth, .enter name⟩ →
        first chain depth name = once first chain depth name)
    (ofSecond : ∀ chain depth name,
      ReflTransGen step start ⟨chain, depth, .enter name⟩ →
        second chain depth name = once second chain depth name)
    {chain : Chain} {depth : Nat} {name : String}
    (reached : ReflTransGen step start ⟨chain, depth, .enter name⟩) :
    first chain depth name = second chain depth name := by
  have furtherEnds := ends.transGen
  induction branch : Branch.mk chain depth (.enter name) using furtherEnds.induction
      generalizing chain depth name with
  | _ branch ih =>
      subst branch
      rw [ofFirst _ _ _ reached, ofSecond _ _ _ reached]
      apply depends
      intro chain' depth' name' further
      exact ih _ (transGen_swap.mpr further)
        (reached.trans further.to_reflTransGen) rfl

end Branch

end Longhand
