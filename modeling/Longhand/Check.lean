import Longhand.Failure
import Longhand.Json.Printer
import Longhand.Query
import Longhand.Recorded
import Longhand.Schema.Structure

/-!
# Checks of a finished document

A check accepts a document, possibly annotated, or rejects it.  Checks run in
order, each on what its predecessor returned, and the first rejection ends the
run.
-/

namespace Longhand

/-- A check that a finished document has to pass. -/
inductive Check where
  /-- The structure of a document under a reference key. -/
  | structural (referenceKey : String)
  /-- A query that has to yield `true` and nothing else. -/
  | query (expression : String)
  /-- A check of the caller's own. -/
  | custom (name : String) (run : Value → Except Rejection Value)

namespace Check

/-- The name that a structural check goes by. -/
def structuralName : String := "structure"

/-- The name of a check; a query is named by its expression. -/
def name : Check → String
  | structural _ => structuralName
  | query expression => expression
  | custom name _ => name

/-- Run the structural check. -/
def runStructural (referenceKey : String) (document : Value) :
    Except Rejection Value :=
  match Schema.firstViolation referenceKey document with
  | none => .ok document
  | some violation =>
      .error
        { check := structuralName
          pointer := Pointer.text violation.pointer
          message := violation.rule.text }

/-- Run a query and accept the document if all outputs are `true`. -/
def runQuery (expression : String) (document : Value) :
    Except Rejection Value :=
  let reject (message : String) : Except Rejection Value :=
    .error { check := expression, message }
  match Query.outputs expression document with
  | .error failure => reject failure.text
  | .ok [] => reject "expression produced no output"
  | .ok outputs =>
      match outputs.find? fun output => !isTrue output with
      | some output =>
          reject ("expression produced " ++ Json.compact output ++
            ", expected true")
      | none => .ok document
where
  /-- Whether an output is the value `true`. -/
  isTrue : Value → Bool
    | .bool value => value
    | _ => false

/-- Run a check. -/
def run : Check → Value → Recorded Rejection Value
  | structural referenceKey, document =>
      .ofExcept (runStructural referenceKey document)
  | query expression, document => .ofExcept (runQuery expression document)
  | custom name run, document => .call (.check name) (run document)

/-- Run checks in order. -/
def runAll (checks : List Check) (document : Value) :
    Recorded Rejection Value :=
  checks.foldlM (fun document check => check.run document) document

end Check

end Longhand
