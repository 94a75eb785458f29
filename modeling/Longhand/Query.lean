import Longhand.Json.Reader
import Longhand.Query.Evaluate

/-!
# Queries

A query is a program in a small language of expressions.  It reads a document
and yields documents: each output is written as text and read back, so an output
that has no text as a document is a failure of the query.
-/

namespace Longhand.Query

/-- Why a query has no outputs to show. -/
inductive Failure where
  /-- The text is no expression. -/
  | notAnExpression
  /-- The expression uses names that nothing binds. -/
  | unbound (names : List Unbound)
  /-- The expression fails on the document. -/
  | raised (fault : Fault)
  /-- An output is no document. -/
  | notADocument (fault : Json.Fault)

/-- The wording of a failure. -/
def Failure.text : Failure → String
  | notAnExpression => "parse error: the text is no expression"
  | unbound names => String.intercalate "; " (names.map Unbound.text)
  | raised fault => "runtime error: " ++ fault.text
  | notADocument fault => "output is not JSON: " ++ fault.reason

/-- The documents that outputs stand for, up to the first failure. -/
def documents : Step Datum → Except Failure (List Value)
  | .done _ => .ok []
  | .fail fault _ => .error (.raised fault)
  | .last datum _ => return [← readBack datum]
  | .more datum rest next => do
      let value ← readBack datum
      let others ← documents (rest next)
      return value :: others
where
  /-- The document that the text of an output stands for. -/
  readBack (datum : Datum) : Except Failure Value :=
    (Json.parse datum.text).mapError .notADocument

/-- The run of an expression on a document, with marks from the first number
on. -/
def run (term : Term) (document : Value) : Step Datum :=
  let (input, next) := (Datum.ofValue document).marked 0
  evaluate depthLimit term Environment.prelude input next

/-- Every output of a program on a document. -/
def outputs (program : String) (document : Value) :
    Except Failure (List Value) :=
  match Grammar.ofText? program with
  | none => .error .notAnExpression
  | some term =>
      match Scope.unbound (.builtIn Environment.prelude.defined) term with
      | [] => documents (run term document)
      | names => .error (.unbound names)

end Longhand.Query
