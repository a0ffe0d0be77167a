/-
  Request methods: the nine of them, their names, and reading a name back in any letter case.
-/

namespace UrlRouting

/-- A request method. -/
inductive Method where
  | get | post | put | delete | patch | head | options | trace | connect
  deriving DecidableEq, Repr

/-- A text that names no method. -/
structure UnknownMethod where
  input : String
  deriving DecidableEq, Repr

def UnknownMethod.message (e : UnknownMethod) : String :=
  "unknown HTTP method '" ++ e.input ++ "'"

namespace Method

/-- Every method, in the order in which a set of methods is listed. -/
def all : List Method := [get, post, put, delete, patch, head, options, trace, connect]

/-- The position of a method in `all`. -/
def number : Method → Nat
  | get => 0
  | post => 1
  | put => 2
  | delete => 3
  | patch => 4
  | head => 5
  | options => 6
  | trace => 7
  | connect => 8

def name : Method → String
  | get => "GET"
  | post => "POST"
  | put => "PUT"
  | delete => "DELETE"
  | patch => "PATCH"
  | head => "HEAD"
  | options => "OPTIONS"
  | trace => "TRACE"
  | connect => "CONNECT"

/-- The method with exactly this name. -/
def ofName? (text : String) : Option Method :=
  all.find? fun m => m.name = text

/-- Reads a method name; the case of ASCII letters does not matter. -/
def parse (text : String) : Except UnknownMethod Method :=
  match all.find? fun m => m.name.toList = text.toList.map Char.toUpper with
  | some m => .ok m
  | none => .error ⟨text⟩

theorem mem_all (m : Method) : m ∈ all := by
  cases m <;> simp [all]

theorem number_lt (m : Method) : m.number < 9 := by
  cases m <;> decide

theorem number_inj {m n : Method} : m.number = n.number ↔ m = n := by
  cases m <;> cases n <;> simp [number]

end Method

end UrlRouting
