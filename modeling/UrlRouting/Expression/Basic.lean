import UrlRouting.CharSet.Named

/-
  Regular expressions as trees.
  Alternatives are in order of preference, and so are the numbers of times in a repetition: the
  most first when it is greedy, else the fewest. A labelled group tells which part of a text it
  stood for.
-/

namespace UrlRouting

/-- Which edge of a word is looked for. -/
inductive WordEdge where
  | either | neither | start | finish | startHalf | finishHalf
  deriving DecidableEq, Repr

/-- Whether there is such an edge between two characters that are or are not part of a word. -/
def WordEdge.isBetween (edge : WordEdge) (before after : Bool) : Bool :=
  match edge with
  | either => before != after
  | neither => before == after
  | start => !before && after
  | finish => before && !after
  | startHalf => !before
  | finishHalf => !after

/-- A condition on a place in a text. A line ends in a line feed, or, when `returns` holds, also in
a carriage return or in both. -/
inductive Look where
  | textStart
  | textEnd
  | lineStart (returns : Bool)
  | lineEnd (returns : Bool)
  | edge (edge : WordEdge) (ascii : Bool)
  deriving DecidableEq, Repr

namespace Look

def isWordChar (ascii : Bool) (c : Char) : Bool :=
  if ascii then CharSet.asciiWord.contains c else CharSet.word.contains c

/-- Whether a place between two characters meets the condition; there is none before the start
and none behind the end. -/
def holds (look : Look) (before after : Option Char) : Bool :=
  match look with
  | textStart => before.isNone
  | textEnd => after.isNone
  | lineStart false => before.isNone || before = some '\n'
  | lineEnd false => after.isNone || after = some '\n'
  | lineStart true =>
    before.isNone || before = some '\n' || (before = some '\r' && after != some '\n')
  | lineEnd true =>
    after.isNone || after = some '\r' || (after = some '\n' && before != some '\r')
  | edge e ascii => e.isBetween (before.any (isWordChar ascii)) (after.any (isWordChar ascii))

end Look

inductive Expression where
  /-- Exactly this text. -/
  | literal (text : List Char)
  /-- One character of the set. -/
  | set (s : CharSet)
  | look (l : Look)
  | seq (first second : Expression)
  | alt (first second : Expression)
  /-- At least `min` times, and at most `max` times if that is given. -/
  | times (min : Nat) (max : Option Nat) (greedy : Bool) (body : Expression)
  | group (label : Option (List Char)) (body : Expression)
  deriving DecidableEq, Repr

namespace Expression

/-- One character of the set, as text if there is just one. -/
def ofSet (s : CharSet) : Expression :=
  match s.only? with
  | some c => .literal [c]
  | none => .set s

/-- An expression followed by another; texts that touch become one. -/
def append (first second : Expression) : Expression :=
  match first, second with
  | .literal [], e => e
  | e, .literal [] => e
  | .literal cs, .literal ds => .literal (cs ++ ds)
  | .literal cs, .seq (.literal ds) rest => .seq (.literal (cs ++ ds)) rest
  | e, rest => .seq e rest

/-- Some expressions, one after another. -/
def concat (es : List Expression) : Expression := es.foldr append (.literal [])

/-- The labels of the groups, from left to right. -/
def labels : Expression → List (List Char)
  | .seq a b | .alt a b => a.labels ++ b.labels
  | .times _ _ _ a => a.labels
  | .group label a => label.toList ++ a.labels
  | _ => []

/-- Whether every text that it stands for is empty. -/
def isWidthless : Expression → Bool
  | .literal cs => cs.isEmpty
  | .set _ => false
  | .look _ => true
  | .seq a b | .alt a b => a.isWidthless && b.isWidthless
  | .times _ max _ a => max = some 0 || a.isWidthless
  | .group _ a => a.isWidthless

/-- Whether it may stand for the empty text. -/
def mayBeEmpty : Expression → Bool
  | .literal cs => cs.isEmpty
  | .set _ => false
  | .look _ => true
  | .seq a b => a.mayBeEmpty && b.mayBeEmpty
  | .alt a b => a.mayBeEmpty || b.mayBeEmpty
  | .times min _ _ a => min = 0 || a.mayBeEmpty
  | .group _ a => a.mayBeEmpty

end Expression

end UrlRouting
