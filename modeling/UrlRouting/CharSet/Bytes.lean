import UrlRouting.CharSet.Basic

/-
  The bytes of the characters of a set in UTF-8.
  A set becomes paths in the order of its characters: a path is a list of ranges of bytes, and
  what it stands for are all lists with a byte of each of its ranges. Paths share what they begin
  with (`countStarts`) or what they go on with (`countSteps`).
-/

namespace UrlRouting.CharSet

/-- Ranges for a first byte, a second and so on. -/
abbrev BytePath := List (Nat × Nat)

/-- The paths of the numbers from `low` to `high`, in base 64 with `more` digits behind the first
one. The first byte is its digit and `mark`, the others have the mark 0x80. -/
def digitPaths : (more mark low high : Nat) → List BytePath
  | 0, mark, low, high => [[(mark + low, mark + high)]]
  | more + 1, mark, low, high =>
    let unit := 1 <<< (6 * (more + 1))
    let below (digit low high : Nat) : List BytePath :=
      (digitPaths more 0x80 low high).map ((mark + digit, mark + digit) :: ·)
    let first := low / unit
    let last := high / unit
    if first = last then below first (low % unit) (high % unit)
    else
      let isFirstWhole := low % unit = 0
      let isLastWhole := high % unit = unit - 1
      let start := if isFirstWhole then first else first + 1
      let stop := if isLastWhole then last + 1 else last
      (if isFirstWhole then [] else below first (low % unit) (unit - 1))
        ++ (if start < stop then
              [(mark + start, mark + stop - 1) :: List.replicate (more + 1) (0x80, 0xBF)]
            else [])
        ++ (if isLastWhole then [] else below last 0 (high % unit))

/-- The code points by the number of bytes behind the first and its mark; surrogates are none. -/
def byteForms : List (Nat × Nat × Nat × Nat) :=
  [(0, 0x7F, 0, 0), (0x80, 0x7FF, 1, 0xC0), (0x800, 0xD7FF, 2, 0xE0), (0xE000, 0xFFFF, 2, 0xE0),
   (0x10000, lastCode, 3, 0xF0)]

/-- The paths of the characters of a set. -/
def bytePaths (s : CharSet) : List BytePath :=
  s.ranges.flatMap fun (low, high) =>
    byteForms.flatMap fun (first, last, more, mark) =>
      if max low first ≤ min high last then digitPaths more mark (max low first) (min high last)
      else []

/-- How much two paths have in common from their start on. -/
def commonStart : BytePath → BytePath → Nat
  | r :: p, s :: q => if r = s then commonStart p q + 1 else 0
  | _, _ => 0

/-- The number of starts of paths, each counted once; `before` is the path before these. -/
def countStarts : (before : BytePath) → List BytePath → Nat
  | _, [] => 0
  | before, p :: ps => (p.length - commonStart before p) + countStarts p ps

/-- The rests of paths that begin with one range, for every such range. -/
def restsByFirst (paths : List BytePath) : List (List BytePath) :=
  (paths.splitBy fun p q => p.head? == q.head?).map fun group => group.map List.tail

/-- The ways on from the start of the paths and from every place that some of their starts lead
to; places with the same ways on are one. A place where a path has ended is left out. -/
def places : (depth : Nat) → List (List BytePath) → List (List BytePath)
  | 0, _ => []
  | depth + 1, level =>
    let level := (level.filter fun rests => rests ≠ [[]]).eraseDups
    level ++ places depth (level.flatMap restsByFirst)

/-- The number of places and, over all of them, the number of ranges that lead on. -/
def countSteps (paths : List BytePath) : Nat × Nat :=
  let all := (places 4 [paths]).eraseDups
  (all.length, (all.flatMap restsByFirst).length)

end UrlRouting.CharSet
