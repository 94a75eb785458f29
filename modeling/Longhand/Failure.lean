import Longhand.Files.Fault
import Longhand.Json.Fault
import Longhand.KeyPath.Write
import Longhand.Pointer

/-!
# Why a document is not compiled

Each way in which a stage can fail, with the name or path at fault.  The wording
is derived from the cause and decides nothing.
-/

namespace Longhand

/-- Why a fragment cannot be had. -/
inductive LoadFailure where
  | notFound (name : String)
  | unreadable (path : String) (fault : Files.Fault)
  | malformed (path : String) (fault : Json.Fault)
  deriving DecidableEq, Repr

/-- The wording of a failed load. -/
def LoadFailure.text : LoadFailure → String
  | notFound name => "fragment `" ++ name ++ "` not found"
  | unreadable path fault => "failed to read " ++ path ++ ": " ++ fault.text
  | malformed path fault => "failed to parse " ++ path ++ ": " ++ fault.text

/-- What is wrong with a reference marker. -/
inductive ReferenceFault where
  | targetNotString (referenceKey : String)
  | unloadable (failure : LoadFailure)
  | siblingsWithoutObject
  deriving DecidableEq, Repr

/-- The wording of a faulty reference. -/
def ReferenceFault.text : ReferenceFault → String
  | targetNotString referenceKey => "`" ++ referenceKey ++ "` must be a string"
  | unloadable failure => failure.text
  | siblingsWithoutObject =>
      "fragment is not an object, so sibling keys cannot be merged into it"

/-- A check's refusal of a document. -/
structure Rejection where
  /-- The name of the check. -/
  check : String
  /-- The text of a pointer to the place at fault; empty for the root. -/
  pointer : String := ""
  message : String
  deriving DecidableEq, Repr

/-- The wording of a rejection. -/
def Rejection.text (rejection : Rejection) : String :=
  "check `" ++ rejection.check ++ "` failed at " ++
    Pointer.display rejection.pointer ++ ": " ++ rejection.message

/-- What a stage reports when it fails. -/
inductive Failure where
  | invalidReference (target : String) (fault : ReferenceFault)
  | cyclicReference (chain : List String)
  | undefinedType (name : String)
  | cyclicDefinition (chain : List String)
  | rejected (rejection : Rejection)
  | malformedKey (key : String) (reason : KeyPath.ClashReason)
  | pluginFailed (plugin : String) (message : String)
  | tooDeep (name : String) (limit : Nat)
  deriving DecidableEq, Repr

namespace Failure

/-- Names with arrows between them. -/
def chainText (chain : List String) : String :=
  String.intercalate " -> " chain

/-- The kind of a failure, without what it is about. -/
def tag : Failure → String
  | invalidReference .. => "InvalidRef"
  | cyclicReference .. => "CyclicRef"
  | undefinedType .. => "UnresolvedDefinition"
  | cyclicDefinition .. => "CyclicDefinition"
  | rejected .. => "ValidationFailed"
  | malformedKey .. => "MalformedShorthand"
  | pluginFailed .. => "Plugin"
  | tooDeep .. => "TooDeep"

/-- The wording of a failure. -/
def text : Failure → String
  | invalidReference target fault =>
      "invalid reference `" ++ target ++ "`: " ++ fault.text
  | cyclicReference chain => "cyclic reference: " ++ chainText chain
  | undefinedType name => "unresolved definition `" ++ name ++ "`"
  | cyclicDefinition chain => "cyclic definition: " ++ chainText chain
  | rejected rejection => rejection.text
  | malformedKey key reason =>
      "malformed shorthand at `" ++ key ++ "`: " ++ reason.text
  | pluginFailed plugin message =>
      "plugin `" ++ plugin ++ "` failed: " ++ message
  | tooDeep name limit =>
      "`" ++ name ++ "` nests more than " ++ toString limit ++ " levels deep"

end Failure

/-- A clash of keys as a failure: the path is shown as the key that spells it
with nothing escaped. -/
def KeyPath.Clash.toFailure (separator : Char) (clash : KeyPath.Clash) :
    Failure :=
  .malformedKey (KeyPath.plainText separator clash.path) clash.reason

end Longhand
