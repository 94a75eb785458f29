import Longhand.Query.Grammar
import Longhand.Query.Scope

/-!
# What names stand for

An environment lists bindings from the innermost outwards.  A definition keeps
the environment around it, to which it belongs itself, and an argument the one
of its call.
-/

namespace Longhand.Query

/-- The bindings around an expression. -/
inductive Environment where
  | empty
  | variable (name : String) (value : Datum) (outer : Environment)
  | label (name : String) (mark : Nat) (outer : Environment)
  | definition (name : String) (parameters : List Parameter) (body : Term)
      (outer : Environment)
  | argument (name : String) (body : Term) (around outer : Environment)
  deriving Inhabited

namespace Environment

/-- The value of a variable. -/
def value? : Environment → String → Option Datum
  | empty, _ => none
  | .variable name value outer, wanted =>
      if name = wanted then some value else outer.value? wanted
  | label _ _ outer, wanted | definition _ _ _ outer, wanted
  | argument _ _ _ outer, wanted => outer.value? wanted

/-- The mark of a label. -/
def mark? : Environment → String → Option Nat
  | empty, _ => none
  | label name mark outer, wanted =>
      if name = wanted then some mark else outer.mark? wanted
  | .variable _ _ outer, wanted | definition _ _ _ outer, wanted
  | argument _ _ _ outer, wanted => outer.mark? wanted

/-- A definition: its parameters, its body and the environment of the body. -/
structure Definition where
  parameters : List Parameter
  body : Term
  around : Environment

/-- The definition of a name with a number of arguments. -/
def definition? (environment : Environment) (wanted : String) (arity : Nat) :
    Option Definition :=
  match environment with
  | empty => none
  | definition name parameters body outer =>
      if name = wanted ∧ parameters.length = arity then
        some ⟨parameters, body, environment⟩
      else outer.definition? wanted arity
  | argument name body around outer =>
      if name = wanted ∧ arity = 0 then some ⟨[], body, around⟩
      else outer.definition? wanted arity
  | .variable _ _ outer | label _ _ outer => outer.definition? wanted arity

/-- Put the definitions in front of an expression into an environment. -/
def withDefinitions (environment : Environment) : Term → Environment
  | .define name parameters body rest =>
      (definition name parameters body environment).withDefinitions rest
  | _ => environment

/-- The names and arities of definitions. -/
def defined : Environment → List (String × Nat)
  | empty => []
  | definition name parameters _ outer =>
      (name, parameters.length) :: outer.defined
  | .variable _ _ outer | label _ _ outer | argument _ _ _ outer =>
      outer.defined

/-! ## Definitions in the query language -/

/-- The definitions that every program can use. -/
def preludeText : String := String.join
  [ "def empty: \x7b\x7d[] as $x | .;",
    "def error(f): reduce f as $message (.; $message | error);",
    "def not: if . then false else true end;",
    "def select(f): if f then . else empty end;",
    "def map(f): [.[] | f];",
    "def map_values(f): .[] |= f;",
    "def values: select(. != null);",
    "def nulls: select(. == null);",
    "def booleans: select(type == \"boolean\");",
    "def numbers: select(type == \"number\");",
    "def strings: select(type == \"string\");",
    "def arrays: select(type == \"array\");",
    "def objects: select(type == \"object\");",
    "def iterables: select(type == \"array\" or type == \"object\");",
    "def scalars: select(type != \"array\" and type != \"object\");",
    "def isboolean: type == \"boolean\";",
    "def isnumber: type == \"number\";",
    "def isstring: type == \"string\";",
    "def isarray: type == \"array\";",
    "def isobject: type == \"object\";",
    "def nan: 0 / 0;",
    "def infinite: 1 / 0;",
    "def isnan: . < nan and nan < .;",
    "def isinfinite: . == infinite or . == -infinite;",
    "def isfinite: isnumber and (isinfinite | not);",
    "def isnormal: isnumber and (. == 0 or isnan or isinfinite | not);",
    "def abs: if . < 0 then -. else . end;",
    "def first: .[0];",
    "def last: .[-1];",
    "def nth($n): .[$n];",
    "def nth($n; f): first(skip($n; f));",
    "def isempty(f): first((f | false), true);",
    "def add(f): reduce f as $x (null; . + $x);",
    "def add: add(.[]);",
    "def any(f; test): isempty(first(f | test or empty)) | not;",
    "def any(test): any(.[]; test);",
    "def any: any(.);",
    "def all(f; test): isempty(first(f | test and empty));",
    "def all(test): all(.[]; test);",
    "def all: all(.);",
    "def range($from; $to): range($from; $to; 1);",
    "def range($to): range(0; $to);",
    "def recurse(f): def rec: ., (f | rec); rec;",
    "def recurse(f; test): recurse(f | select(test));",
    "def recurse: ..;",
    "def repeat(f): def rec: ., (f | rec); rec;",
    "def until(test; f): def rec: if test then . else f | rec end; rec;",
    "def while(test; f): def rec: if test then ., (f | rec) else empty end; rec;",
    "def walk(f): .. |= f;",
    "def keys: keys_unsorted | sort;",
    "def min: min_by(.);",
    "def max: max_by(.);",
    "def unique_by(f): [group_by(f)[] | .[0]];",
    "def unique: unique_by(.);",
    "def in($xs): . as $x | $xs | has($x);",
    "def inside($xs): . as $x | $xs | contains($x);",
    "def index($part): indices($part) | .[0];",
    "def rindex($part): indices($part) | .[-1];",
    "def join($by): if . == [] then \"\" else",
    "  reduce .[1:][] as $x (.[0] | tostring; . + $by + ($x | tostring)) end;",
    "def flatten: [recurse(arrays[]) | select(isarray | not)];",
    "def flatten($depth): [.[] | if isarray and $depth > 0",
    "  then flatten($depth - 1)[] else . end];",
    "def transpose: [range([.[] | length] | max) as $i | [.[][$i]]];",
    "def to_entries: [keys_unsorted[] as $k | \x7bkey: $k, value: .[$k]\x7d];",
    "def from_entries: map(\x7b(.key): .value\x7d) | add + \x7b\x7d;",
    "def with_entries(f): to_entries | map(f) | from_entries;",
    "def del(f): f |= empty;",
    "def getpath($path): reduce $path[] as $key (.; .[$key]);",
    "def paths: keys_unsorted?[] as $key | [$key], [$key] + (.[$key] | paths);",
    "def paths(f): paths as $p | select(getpath($p) | f) | $p;",
    "def @text: tostring;",
    "def @json: tojson;",
    "." ]

/-- The environment of every program. -/
def prelude : Environment :=
  match Grammar.ofText? preludeText with
  | some term => empty.withDefinitions term
  | none => empty

end Environment

end Longhand.Query
