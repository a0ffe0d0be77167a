import UrlRouting.Arguments.Basic
import UrlRouting.Decimal.Float
import UrlRouting.Text.Alphanumeric
import UrlRouting.Text.Blank
import UrlRouting.Text.Quote

/-
  Reading an argument clause such as `2, max=10, 'a,b'`.
  Items are parted by commas outside quotations, blanks around them are dropped and empty items
  skipped. An item `name=value` is a keyword argument when its name is made of letters, digits
  and underscores; any other item is a value. Every text is a clause: what has no other reading
  is a string.
-/

namespace UrlRouting.Arguments

open Text Decimal

/-- The text between a quote and the same quote at the end; one letter of `u`, `r`, `U`, `R` may
stand before the first quote. -/
def quoted? (text : List Char) : Option (List Char) :=
  let body :=
    match text with
    | mark :: quote :: rest =>
      if mark ∈ ['u', 'r', 'U', 'R'] && isQuote quote then quote :: rest else text
    | _ => text
  match body with
  | quote :: rest =>
    if isQuote quote && rest.getLast? = some quote then some rest.dropLast else none
  | [] => none

def unsignedPart (text : List Char) : List Char :=
  match text with
  | '-' :: rest => rest
  | _ => text

def hasIntegerShape (text : List Char) : Bool := isDigits (unsignedPart text)

/-- Digits, a point, and perhaps more digits. -/
def hasFloatShape (text : List Char) : Bool :=
  let body := unsignedPart text
  match body.dropWhile (· ≠ '.') with
  | _ :: part => isDigits (body.takeWhile (· ≠ '.')) && part.all Char.isDigit
  | [] => false

/-- The integer that a text of decimal shape stands for, when it fits in 64 bits. -/
def integer? (text : List Char) : Option Int64 :=
  if hasIntegerShape text then int64? text else none

def decimal? (text : List Char) : Option Float :=
  if hasFloatShape text then float? text else none

/-- A value by the first reading that fits: truth value, quotation, integer, float, bare text. -/
def literal (text : List Char) : Argument :=
  if text = "True".toList then .bool true
  else if text = "False".toList then .bool false
  else
    match quoted? text with
    | some inner => .str (String.ofList inner)
    | none =>
      match integer? text with
      | some n => .int n
      | none =>
        match decimal? text with
        | some x => .float x
        | none => .str (String.ofList text)

/-- The name and value of a keyword item. -/
def keyword? (item : List Char) : Option (List Char × List Char) :=
  match item.dropWhile (· ≠ '=') with
  | [] => none
  | _ :: value =>
    let name := trimEnd (item.takeWhile (· ≠ '='))
    if !name.isEmpty && name.all isWord then some (name, trimStart value) else none

/-- Adds an item, trimmed and not empty, behind the arguments so far. -/
def addItem (args : Arguments) (item : List Char) : Arguments :=
  match keyword? item with
  | some (name, value) =>
    { args with keyword := args.keyword ++ [(String.ofList name, literal value)] }
  | none => { args with positional := args.positional ++ [literal item] }

/-- The items of a clause, without the empty ones. -/
def items (clause : List Char) : List (List Char) :=
  ((splitOutside ',' none clause).map trim).filter (!·.isEmpty)

def ofClause (clause : List Char) : Arguments :=
  (items clause).foldl addItem {}

/-- Reads an argument clause. -/
def parse (clause : String) : Arguments := ofClause clause.toList

end UrlRouting.Arguments
