import Longhand.Chain
import Mathlib.Data.List.Chain
import Mathlib.Data.List.Permutation
import Mathlib.Logic.Relation

/-!
# Chains along a relation

The names on a chain lead to one another and at last to the name that is
expanded next.  If that name is on the chain already it leads back to itself,
which is impossible where every way that starts at the name comes to an end.

A chain of names each of which leads to the next is a way.  One that comes back
to a name it has passed is a cycle, and where it starts not every way ends.
-/

-- `Mathlib.Data.List.Permutation` has the equations by which `cbv` takes pairs apart where
-- a run along a chain is evaluated.
namespace Longhand.Chain

open Relation

variable {leads : String → String → Prop} {chain : Chain} {name next : String}

/-- Every name on the chain leads to `name` in one or more steps. -/
def LeadsTo (leads : String → String → Prop) (chain : Chain)
    (name : String) : Prop :=
  ∀ earlier ∈ chain, TransGen leads earlier name

theorem leadsTo_nil : LeadsTo leads [] name := by
  simp [LeadsTo]

/-- A chain follows one step further. -/
theorem LeadsTo.step (upTo : LeadsTo leads chain name) (first : leads name next) :
    LeadsTo leads (chain ++ [name]) next := by
  intro earlier mem
  rcases List.mem_append.mp mem with mem | mem
  · exact (upTo earlier mem).tail first
  · rw [List.mem_singleton.mp mem]
    exact .single first

/-- A name that leads back to itself starts a way without an end. -/
theorem not_transGen_self (ends : Acc (Function.swap leads) name) :
    ¬TransGen leads name name := by
  induction ends with
  | intro name _ ih =>
      intro cycle
      obtain ⟨next, first, rest⟩ := TransGen.head'_iff.mp cycle
      exact ih next first (.tail' rest first)

/-- A name from which every way ends is not on a chain that leads to it. -/
theorem LeadsTo.not_mem (upTo : LeadsTo leads chain name)
    (ends : Acc (Function.swap leads) name) : name ∉ chain :=
  fun mem => not_transGen_self ends (upTo name mem)

/-- A chain stays without repetitions when a name is entered that is not on it. -/
theorem nodup_append (distinct : chain.Nodup) (isNew : name ∉ chain) :
    (chain ++ [name]).Nodup := by
  rw [List.nodup_append]
  refine ⟨distinct, by simp, ?_⟩
  intro earlier mem last isLast same
  rw [List.mem_singleton] at isLast
  exact isNew (isLast ▸ same ▸ mem)

/-! ## Ways and cycles -/

/-- A way through the names: it sets out from a starting name, and each name on
it leads to the next. -/
structure Way (starts : String → Prop) (leads : String → String → Prop)
    (chain : Chain) : Prop where
  start : ∀ first ∈ chain.head?, starts first
  linked : chain.IsChain leads

/-- A way that ends at a name it has passed before. -/
structure Cycle (starts : String → Prop) (leads : String → String → Prop)
    (chain : Chain) : Prop extends Way starts leads chain where
  closes : ∃ last ∈ chain.getLast?, last ∈ chain.dropLast

variable {starts : String → Prop}

theorem Way.singleton (isStart : starts name) : Way starts leads [name] where
  start := by simpa using isStart
  linked := .singleton name

/-- A way goes on to any name that its last one leads to. -/
theorem Way.step (way : Way starts leads (chain ++ [name]))
    (further : leads name next) :
    Way starts leads (chain ++ [name] ++ [next]) where
  start := by
    intro first isFirst
    apply way.start first
    rwa [List.head?_append_of_ne_nil _ (by simp)] at isFirst
  linked := by
    apply List.IsChain.append way.linked (.singleton next)
    intro last isLast other isOther
    rw [List.getLast?_concat, Option.mem_some_iff] at isLast
    rw [List.head?_cons, Option.mem_some_iff] at isOther
    exact isLast ▸ isOther ▸ further

/-- A way to a name that it has passed is a cycle. -/
theorem Way.cycle (way : Way starts leads (chain ++ [name]))
    (passed : name ∈ chain) : Cycle starts leads (chain ++ [name]) where
  toWay := way
  closes := ⟨name, by simp, by simpa using passed⟩

/-- A cycle is one under all relations that hold more often. -/
theorem Cycle.mono {starts' : String → Prop} {leads' : String → String → Prop}
    (cycle : Cycle starts leads chain)
    (ofStart : ∀ name, starts name → starts' name)
    (ofLink : ∀ name next, leads name next → leads' name next) :
    Cycle starts' leads' chain where
  start first isFirst := ofStart first (cycle.start first isFirst)
  linked := cycle.linked.imp ofLink
  closes := cycle.closes

/-- Where every name that another one leads to stands for something, links between names
are links between what they stand for. -/
theorem exists_of_isChain {stands : String → String} {leads' : String → String → Prop}
    (ofLink : ∀ first next, leads (stands first) next →
      ∃ second, stands second = next ∧ leads' first second)
    {first : String} (linked : (stands first :: chain).IsChain leads) :
    ∃ rest, rest.map stands = chain ∧ (first :: rest).IsChain leads' := by
  induction chain generalizing first with
  | nil => exact ⟨[], rfl, .singleton first⟩
  | cons next others ih =>
      rw [List.isChain_cons_cons] at linked
      obtain ⟨second, rfl, further⟩ := ofLink first next linked.1
      obtain ⟨rest, same, linked'⟩ := ih linked.2
      exact ⟨second :: rest, by rw [List.map_cons, same],
        List.isChain_cons_cons.mpr ⟨further, linked'⟩⟩

/-- A way through names is a way through what the names stand for. -/
theorem Way.exists_of_names {stands : String → String} {starts' : String → Prop}
    {leads' : String → String → Prop} (way : Way starts leads chain)
    (ofStart : ∀ name, starts name → ∃ first, stands first = name ∧ starts' first)
    (ofLink : ∀ first next, leads (stands first) next →
      ∃ second, stands second = next ∧ leads' first second) :
    ∃ passed, passed.map stands = chain ∧ Way starts' leads' passed := by
  cases chain with
  | nil => exact ⟨[], rfl, by simp, .nil⟩
  | cons name others =>
      obtain ⟨first, rfl, isStart⟩ := ofStart name (way.start name rfl)
      obtain ⟨rest, same, linked⟩ := exists_of_isChain ofLink way.linked
      refine ⟨first :: rest, by rw [List.map_cons, same], ?_, linked⟩
      simpa using isStart

/-- The names on a way lead to the one it ends at. -/
theorem leadsTo_of_isChain (linked : (chain ++ [name]).IsChain leads) :
    LeadsTo leads chain name := by
  induction chain using List.reverseRecOn generalizing name with
  | nil => exact leadsTo_nil
  | append_singleton front middle ih =>
      obtain ⟨upToMiddle, -, atMiddle⟩ := List.isChain_append.mp linked
      have further : leads middle name :=
        atMiddle middle (by simp) name (by simp)
      exact (ih upToMiddle).step further

/-- Every way from `name` ends, and so does every way from where it leads. -/
theorem acc_of_transGen (ends : Acc (Function.swap leads) name)
    (further : TransGen leads name next) : Acc (Function.swap leads) next := by
  induction further with
  | single first => exact ends.inv first
  | tail _ last ih => exact ih.inv last

/-- Where a cycle starts, not every way ends. -/
theorem Cycle.exists_not_acc (cycle : Cycle starts leads chain) :
    ∃ first, starts first ∧ ¬Acc (Function.swap leads) first := by
  obtain ⟨last, isLast, passed⟩ := cycle.closes
  obtain ⟨front, rfl⟩ : ∃ front, chain = front ++ [last] :=
    ⟨_, (List.dropLast_append_getLast? last isLast).symm⟩
  rw [List.dropLast_concat] at passed
  have upToLast : LeadsTo leads front last := leadsTo_of_isChain cycle.linked
  cases front with
  | nil => simp at passed
  | cons first rest =>
      refine ⟨first, cycle.start first (by simp), ?_⟩
      intro ends
      have endsAtLast := acc_of_transGen ends (upToLast first List.mem_cons_self)
      exact upToLast.not_mem endsAtLast passed

end Longhand.Chain
