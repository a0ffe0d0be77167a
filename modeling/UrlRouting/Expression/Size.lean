import UrlRouting.CharSet.Bytes
import UrlRouting.Expression.Basic
import UrlRouting.Text.Offset

/-
  The size of the automata of an expression.
  Two automata read the bytes of a text, one forward and one backward, and only the forward one
  notes where groups begin and end. Their sizes are counted in bytes of memory, state by state;
  a repetition by number takes a copy of its body for each time, and alternatives that are all
  texts share the bytes that they begin with. An expression is usable when both stay within
  `sizeLimit`.
  The engine that searches for expressions has the last word on this, and the count is an account of
  what it does. Results about rules are about bound ones, or leave it open whether a rule can be
  bound, unless its literal text alone is too long.
-/

namespace UrlRouting.Expression

/-- The way in which an automaton reads. -/
inductive Direction where
  | forward | backward
  deriving DecidableEq, Repr

def stateSize : Nat := 32

/-- The size of a range of bytes that leads from a state with several of them. -/
def stepSize : Nat := 8

/-- The size of a way out of a state that reads nothing. -/
def branchSize : Nat := 4

/-- The greatest size of an automaton: 10 MiB. -/
def sizeLimit : Nat := 10 * 1024 * 1024

/-- The size of what reads one character of a set. Backward, bytes with the same way to the end
share their states; forward, those with the same ways on. -/
def setSize (d : Direction) (s : CharSet) : Nat :=
  if s.isAscii then 2 * stateSize + stepSize * s.ranges.length
  else
    let paths := s.bytePaths
    match d with
    | .backward =>
      stateSize * (CharSet.countStarts [] paths + 2) + branchSize * paths.length
    | .forward =>
      let (places, steps) := CharSet.countSteps paths
      stateSize * (places + 1) + stepSize * steps

/-- The size of a repetition of a body of size `n`. -/
def timesSize (min : Nat) (max : Option Nat) (mayBeEmpty : Bool) (n : Nat) : Nat :=
  let loop := stateSize + 2 * branchSize
  match min, max with
  | 0, none => if mayBeEmpty then n + 2 * loop + stateSize else n + loop
  | min, none => min * n + loop
  | min, some max =>
    if min = max then if max = 0 then stateSize else max * n
    else if max = 1 then n + loop + stateSize
    else (if min = 0 then stateSize else min * n) + stateSize + (max - min) * (n + loop)

/-! ## Trees of bytes -/

/-- Parts texts at those of them that are empty. -/
def splitAtEnds : List (List UInt8) → List (List (List UInt8))
  | [] => [[]]
  | [] :: texts => [] :: splitAtEnds texts
  | text :: texts => (splitAtEnds texts).modifyHead (text :: ·)

/-- The rests of texts that begin with one byte, for every such byte. -/
def restsByByte (texts : List (List UInt8)) : List (List (List UInt8)) :=
  (texts.filterMap List.head?).eraseDups.map fun byte =>
    texts.filterMap fun text => if text.head? = some byte then some text.tail else none

/-- The size of a place in a tree where texts go on with these rests. A text that ends here comes
after those before it and before the others, which have ways on of their own. -/
def placeSize (rests : List (List UInt8)) : Nat :=
  let parts := splitAtEnds rests
  let steps := (parts.map fun part => (restsByByte part).length).filter (0 < ·)
  let fork := stateSize + branchSize * (steps.length + (parts.length - 1))
  steps.foldl (fun size n => size + stateSize + if n = 1 then 0 else stepSize * n) fork

/-- Adds the sizes of the places of a tree from one level on, down to `depth` levels. A place where
all texts have ended is the end of the tree. -/
def addPlaces : (depth : Nat) → (level : List (List (List UInt8))) → (size : Nat) → Nat
  | 0, _, size => size
  | depth + 1, level, size =>
    let level := level.filter fun rests => rests.any fun rest => !rest.isEmpty
    addPlaces depth (level.flatMap fun rests => (splitAtEnds rests).flatMap restsByByte)
      (level.foldl (fun size rests => size + placeSize rests) size)

/-- The size of the tree of the bytes of some texts. -/
def treeSize (d : Direction) (texts : List (List Char)) : Nat :=
  let bytes := texts.map fun text =>
    let inOrder := text.flatMap String.utf8EncodeChar
    match d with
    | .forward => inOrder
    | .backward => inOrder.reverse
  addPlaces (bytes.foldl (fun depth text => max depth text.length) 0) [bytes] stateSize

/-! ## Expressions -/

/-- What is counted of alternatives: their number, their sizes together, and their texts if none of
them is anything else. -/
structure Choice where
  count : Nat
  size : Nat
  texts : Option (List (List Char))

namespace Choice

def single (size : Nat) : Choice := ⟨1, size, none⟩

def or (a b : Choice) : Choice :=
  ⟨a.count + b.count, a.size + b.size, a.texts.bind fun texts => b.texts.map (texts ++ ·)⟩

/-- The size of what reads one of the alternatives. Single characters are a set. -/
def total (d : Direction) (c : Choice) : Nat :=
  if c.count = 1 then c.size
  else
    match c.texts with
    | some texts =>
      if texts.all fun text => text.length = 1 then
        setSize d (.ofRanges (texts.flatten.map fun c => (c.toNat, c.toNat)))
      else treeSize d texts
    | none => 2 * stateSize + branchSize * c.count + c.size

theorem total_single (d : Direction) (n : Nat) : (single n).total d = n := rfl

end Choice

/-- The alternatives that an expression consists of. A body without width is repeated at most
once. -/
def choice (d : Direction) : Expression → Choice
  | .literal text =>
    if text.isEmpty then .single stateSize
    else ⟨1, stateSize * Text.byteLength text, some [text]⟩
  | .set s => .single (setSize d s)
  | .look _ => .single stateSize
  | .seq a b => .single ((a.choice d).total d + (b.choice d).total d)
  | .alt a b => (a.choice d).or (b.choice d)
  | .times min max _ a =>
    let n := (a.choice d).total d
    .single <|
      if a.isWidthless then timesSize (Nat.min min 1) (some (Nat.min (max.getD 1) 1)) true n
      else timesSize min max a.mayBeEmpty n
  | .group _ a =>
    let n := (a.choice d).total d
    .single <|
      match d with
      | .forward => n + 2 * stateSize
      | .backward => n

/-- The size of the part of an automaton that an expression becomes. -/
def size (d : Direction) (e : Expression) : Nat := (e.choice d).total d

theorem size_seq (d : Direction) (a b : Expression) : (seq a b).size d = a.size d + b.size d :=
  Choice.total_single d _

theorem size_literal (d : Direction) {text : List Char} (h : text ≠ []) :
    (literal text).size d = stateSize * Text.byteLength text := by
  unfold size choice
  rw [if_neg (by simpa using h)]
  rfl

theorem size_group_forward (label : Option (List Char)) (a : Expression) :
    (group label a).size .forward = a.size .forward + 2 * stateSize :=
  Choice.total_single _ _

/-- The size of a whole automaton, with its start and end; forward, the text that is found is a
group too. -/
def totalSize (d : Direction) (e : Expression) : Nat := (Expression.group none e).size d + 2 * stateSize

/-- Whether both automata stay within the limit. -/
def isWithinLimit (e : Expression) : Bool :=
  e.totalSize .forward ≤ sizeLimit && e.totalSize .backward ≤ sizeLimit

end UrlRouting.Expression
