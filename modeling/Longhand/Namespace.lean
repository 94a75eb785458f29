import Longhand.Text.Split
import Longhand.Value

/-!
# Keys that belong to a namespace

A key such as `@admin:field` means `field`, but only while the namespace `admin`
is active.  Active keys are renamed, keys of other namespaces are dropped and
plain keys stay.  Where several keys end up with one name, an active namespace
beats the plain key and a namespace listed later beats one listed earlier; the
survivor stands where the name first appeared.
-/

namespace Longhand

/-- The active namespaces and the two marks that make a key namespaced. -/
structure Namespacing where
  /-- Active namespaces, later ones stronger. -/
  active : List String
  /-- The character in front of a namespaced key. -/
  mark : Char := '@'
  /-- The character between the namespace and the property. -/
  separator : Char := ':'
  deriving DecidableEq, Repr

namespace Namespacing

/-- The namespace and the property of a namespaced key; a plain key has none.
The namespace is not empty. -/
def parts? (spec : Namespacing) (key : String) : Option (String × String) :=
  match key.toList with
  | [] => none
  | c :: rest =>
      if c = spec.mark then
        match Text.splitAtFirst spec.separator rest with
        | some ([], _) => none
        | some (name, property) =>
            some (String.ofList name, String.ofList property)
        | none => none
      else none

/-- What becomes of a key: the name it goes by and its rank among the keys of
that name, or nothing. -/
def classify (spec : Namespacing) (key : String) : Option (String × Nat) :=
  match spec.parts? key with
  | none => some (key, 0)
  | some (name, property) =>
      (spec.active.idxOf? name).map fun index => (property, index + 1)

/-- Write a value under its name unless one of the same or a higher rank is
there. -/
def offer (members : Members (Nat × Value)) (name : String) (rank : Nat)
    (value : Value) : Members (Nat × Value) :=
  match Members.get? members name with
  | some (best, _) =>
      if rank ≤ best then members else Members.set members name (rank, value)
  | none => Members.set members name (rank, value)

mutual
/-- Apply the active namespaces at every depth. -/
def normalize (spec : Namespacing) : Value → Value
  | .array items => .array (normalizeItems spec items)
  | .object members =>
      .object (Members.mapValues Prod.snd (normalizeMembers spec [] members))
  | value => value

/-- Apply the active namespaces to every item. -/
def normalizeItems (spec : Namespacing) : List Value → List Value
  | [] => []
  | item :: rest => normalize spec item :: normalizeItems spec rest

/-- Offer members one after another to those collected so far. -/
def normalizeMembers (spec : Namespacing) (best : Members (Nat × Value)) :
    List (String × Value) → Members (Nat × Value)
  | [] => best
  | (key, value) :: rest =>
      match spec.classify key with
      | some (name, rank) =>
          normalizeMembers spec (offer best name rank (normalize spec value)) rest
      | none => normalizeMembers spec best rest
end

theorem normalizeItems_eq_map (spec : Namespacing) (items : List Value) :
    normalizeItems spec items = items.map (normalize spec) := by
  induction items with
  | nil => rfl
  | cons item rest ih => rw [normalizeItems, ih, List.map_cons]

/-! ## Names -/

/-- Letters of the Latin alphabet and the underscore. -/
def startsName (c : Char) : Bool :=
  ('A' ≤ c && c ≤ 'Z') || ('a' ≤ c && c ≤ 'z') || c = '_'

/-- What may stand behind the first character of a name. -/
def continuesName (c : Char) : Bool :=
  startsName c || ('0' ≤ c && c ≤ '9') || c = '-'

/-- Whether a text can name a namespace: a letter or underscore, then letters,
digits, underscores and hyphens. -/
def isValidName (name : String) : Bool :=
  match name.toList with
  | [] => false
  | c :: rest => startsName c && rest.all continuesName

end Namespacing

end Longhand
