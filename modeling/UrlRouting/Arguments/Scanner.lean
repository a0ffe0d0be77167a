import UrlRouting.Arguments.Clause
import UrlRouting.Text.Slice

/-
  Reading an argument clause by places.
  The clause is gone through with the place of every character at hand, and the items, names and
  values are cut out between places. `scan?` fails if it cuts at a bad place.
-/

namespace UrlRouting.Arguments

open Text

/-- The items of a clause. The part that is still to be read begins at `place`, and the item that it
goes on with at `start`. -/
def cutItems? (clause : List Char) (quote : Option Char) (start place : Nat) :
    List Char → Option (List (List Char))
  | [] => (sliceFrom? clause start).map ([·])
  | c :: rest =>
    let next := place + c.utf8Size
    match quote with
    | some q => cutItems? clause (if c = q then none else some q) start next rest
    | none =>
      if isQuote c then cutItems? clause (some c) start next rest
      else if c = ',' then
        (slice? clause start place).bind fun item =>
          (cutItems? clause none (place + 1) next rest).map (item :: ·)
      else cutItems? clause none start next rest

/-- The name and value of a keyword item, if it is one. -/
def cutKeyword? (item : List Char) : Option (Option (List Char × List Char)) :=
  match placeOf? '=' item with
  | none => some none
  | some place =>
    (slice? item 0 place).bind fun front =>
      let name := trimEnd front
      if name.isEmpty || !name.all isWord then some none
      else (sliceFrom? item (place + 1)).map fun value => some (name, trimStart value)

/-- Adds an item, trimmed and not empty, behind the arguments so far. -/
def scanItem? (args : Arguments) (item : List Char) : Option Arguments :=
  (cutKeyword? item).map fun
    | some (name, value) =>
      { args with keyword := args.keyword ++ [(String.ofList name, literal value)] }
    | none => { args with positional := args.positional ++ [literal item] }

/-- Reads an argument clause. -/
def scan? (clause : List Char) : Option Arguments :=
  (cutItems? clause none 0 0 clause).bind fun items =>
    ((items.map trim).filter (!·.isEmpty)).foldlM scanItem? {}

end UrlRouting.Arguments
