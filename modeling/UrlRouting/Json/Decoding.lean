import UrlRouting.Http.Method
import UrlRouting.Json.Reader
import UrlRouting.RouteTable.Options

/-
  Options and methods from JSON.
  Options are an object whose known fields are each given at most once, or an array of the fields
  in their order; a field that is not given has its default. A method is its name, or an object
  whose only field is that name with null.
-/

namespace UrlRouting

namespace Json

def bool? : Json → Option Bool
  | bool b => some b
  | _ => none

/-- A natural number of at most 64 bits. -/
def count? : Json → Option Nat
  | natural n => if n < 0x10000000000000000 then some n else none
  | _ => none

def str? : Json → Option String
  | string text => text
  | _ => none

end Json

namespace TableOptions

/-- The fields of the options, in their order. -/
inductive Field where
  | strictSlashes | automaticHead | maxRules | defaultScheme
  deriving DecidableEq, Repr

def Field.all : List Field := [strictSlashes, automaticHead, maxRules, defaultScheme]

def Field.name : Field → String
  | strictSlashes => "strict_slashes"
  | automaticHead => "automatic_head"
  | maxRules => "max_rules"
  | defaultScheme => "default_scheme"

/-- Sets a field to a value of its type. -/
def set? (o : TableOptions) (v : Json) : Field → Option TableOptions
  | .strictSlashes => v.bool?.map fun b => { o with strictSlashes := b }
  | .automaticHead => v.bool?.map fun b => { o with automaticHead := b }
  | .maxRules => v.count?.map fun n => { o with maxRules := n }
  | .defaultScheme => v.str?.map fun s => { o with defaultScheme := s }

/-- Sets fields by name; `seen` are those already set, other names are passed over. -/
def setFields? : List (Option String × Json) → (seen : List Field) → TableOptions →
    Option TableOptions
  | [], _, o => some o
  | (none, _) :: _, _, _ => none
  | (some name, v) :: rest, seen, o =>
    match Field.all.find? fun f => f.name = name with
    | none => setFields? rest seen o
    | some f => if f ∈ seen then none else (o.set? v f).bind (setFields? rest (f :: seen))

/-- Sets the fields in their order; there must not be more items than fields. -/
def setItems? : List Field → List Json → TableOptions → Option TableOptions
  | _, [], o => some o
  | [], _ :: _, _ => none
  | f :: fields, v :: items, o => (o.set? v f).bind (setItems? fields items)

def ofJson? : Json → Option TableOptions
  | .object fields => setFields? fields [] {}
  | .array items => setItems? Field.all items {}
  | _ => none

/-- Reads options; they are not validated. -/
def parse? (text : String) : Option TableOptions := (Json.parse? text).bind ofJson?

end TableOptions

namespace Method

def ofJson? : Json → Option Method
  | .string (some name) => ofName? name
  | .object [(some name, .null)] => ofName? name
  | _ => none

/-- Reads a method from JSON; its name must be in upper case. -/
def parseJson? (text : String) : Option Method := (Json.parse? text).bind ofJson?

end Method

end UrlRouting
