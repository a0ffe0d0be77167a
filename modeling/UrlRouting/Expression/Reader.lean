import UrlRouting.CharSet.CaseFold
import UrlRouting.Expression.Basic
import UrlRouting.Text.Blank
import UrlRouting.Text.Hexadecimal

/-
  Reading regular expressions.
  Besides plain characters there are `.`, `^` and `$`, groups with or without label, alternatives,
  repetitions, sets in brackets, escapes, and flags that hold up to the end of their group. There
  is no looking around, no reference back to a group and no set by Unicode property.
  The functions that call each other have fuel; every call uses one unit, and a text never takes
  more than a few units a character.
-/

namespace UrlRouting.Expression

open Text

/-! ## Flags -/

structure Flags where
  ignoreCase : Bool := false
  /-- `^` and `$` stand for the start and end of a line. -/
  lines : Bool := false
  /-- The point stands for line feeds too. -/
  dotAll : Bool := false
  /-- Repetitions are greedy only with a question mark. -/
  lazy : Bool := false
  /-- Lines may end in carriage returns. -/
  returns : Bool := false
  /-- Blanks and comments are passed over. -/
  verbose : Bool := false
  /-- Sets are not restricted to ASCII. -/
  unicode : Bool := true
  deriving DecidableEq, Repr

namespace Flags

def set? (flags : Flags) (letter : Char) (on : Bool) : Option Flags :=
  match letter with
  | 'i' => some { flags with ignoreCase := on }
  | 'm' => some { flags with lines := on }
  | 's' => some { flags with dotAll := on }
  | 'U' => some { flags with lazy := on }
  | 'R' => some { flags with returns := on }
  | 'x' => some { flags with verbose := on }
  | 'u' => some { flags with unicode := on }
  | _ => none

/-- Reads letters up to `:` or `)`, those behind a minus sign being taken away. No letter stands
twice, and there must be one behind the sign. -/
def read? (flags : Flags) (seen : List Char) : List Char → Option (Flags × Char × List Char)
  | [] => none
  | c :: rest =>
    if c = ':' ∨ c = ')' then
      if seen.head? = some '-' then none
      else if c = ')' ∧ seen.isEmpty then none
      else some (flags, c, rest)
    else if c ∈ seen then none
    else if c = '-' then read? flags ('-' :: seen) rest
    else (flags.set? c ('-' ∉ seen)).bind fun flags => read? flags (c :: seen) rest

end Flags

/-- Passes over blanks and over comments, which begin with `#` and end with the line. -/
def skipComments (inComment : Bool) : List Char → List Char
  | [] => []
  | c :: rest =>
    if inComment then skipComments (c ≠ '\n') rest
    else if isBlank c then skipComments false rest
    else if c = '#' then skipComments true rest
    else c :: rest

/-- Passes over what the flags say is not looked at. -/
def skip (flags : Flags) (text : List Char) : List Char :=
  if flags.verbose then skipComments false text else text

/-! ## Escapes -/

/-- What an escape stands for. -/
inductive Atom where
  | char (c : Char)
  | set (s : CharSet)
  | look (l : Look)
  deriving DecidableEq, Repr

/-- Whether a backslash before the character makes it stand for itself: that goes for all of ASCII
but letters, digits and angle brackets. -/
def isEscapable (c : Char) : Bool :=
  c.toNat < 128 && !c.isAlphanum && c ∉ ['<', '>']

/-- A character of this code; without Unicode the two-digit codes must be ASCII. -/
def ofCode? (flags : Flags) (isByte : Bool) (code : Nat) : Option Char :=
  if !flags.unicode && isByte && 0x80 ≤ code && code ≤ 0xFF then none
  else if h : code.isValidChar then some (Char.ofNatAux code h)
  else none

/-- Reads a fixed number of hexadecimal digits. -/
def hexDigits? (flags : Flags) : (count value : Nat) → List Char → Option (Nat × List Char)
  | 0, value, text => some (value, text)
  | count + 1, value, text =>
    match skip flags text with
    | [] => none
    | c :: rest => (hexValue? c).bind fun d => hexDigits? flags count (value * 16 + d) rest

/-- Reads hexadecimal digits up to a closing brace. -/
def hexBraces? (flags : Flags) : (fuel : Nat) → (digits : List (Fin 16)) → List Char →
    Option (Nat × List Char)
  | 0, _, _ => none
  | fuel + 1, digits, text =>
    match skip flags text with
    | [] => none
    | '\x7d' :: rest =>
      if digits.isEmpty then none else some (digits.foldr (fun d n => n * 16 + d.val) 0, rest)
    | c :: rest => (hexValue? c).bind fun d => hexBraces? flags fuel (d :: digits) rest

/-- Reads a code, of `count` digits or in braces. -/
def hexCode? (flags : Flags) (count : Nat) (text : List Char) : Option (Atom × List Char) := do
  let (code, rest) ←
    match skip flags text with
    | '\x7b' :: rest => hexBraces? flags (rest.length + 1) [] rest
    | text => hexDigits? flags count 0 text
  let c ← ofCode? flags (count = 2) code
  some (.char c, skip flags rest)

/-- A named set or what it leaves out; without Unicode only ASCII must be left. -/
def namedSet? (flags : Flags) (named ascii : CharSet) (negated : Bool) : Option CharSet :=
  if flags.unicode then some (if negated then .complement CharSet.lastCode named else named)
  else if negated then none
  else some ascii

def edge (flags : Flags) (e : WordEdge) : Atom := .look (.edge e !flags.unicode)

/-- The name of an edge in braces, up to the closing one; with any other text the braces are a
repetition. -/
def namedEdge? (flags : Flags) (text : List Char) : Option (Option WordEdge × List Char) :=
  match text with
  | '\x7b' :: inner =>
    let isNameChar (c : Char) : Bool := c.isAlpha || c = '-'
    match skip flags inner with
    | [] => none
    | c :: rest =>
      if isNameChar c then
        let spaced := c :: rest
        let name := spaced.takeWhile fun c => isNameChar c || (flags.verbose && isBlank c)
        match spaced.dropWhile fun c => isNameChar c || (flags.verbose && isBlank c) with
        | '\x7d' :: rest =>
          match String.ofList (name.filter isNameChar) with
          | "start" => some (some .start, rest)
          | "end" => some (some .finish, rest)
          | "start-half" => some (some .startHalf, rest)
          | "end-half" => some (some .finishHalf, rest)
          | _ => none
        | _ => none
      else some (none, text)
  | _ => some (none, text)

/-- Reads what follows a backslash. -/
def escape? (flags : Flags) : List Char → Option (Atom × List Char)
  | [] => none
  | c :: rest =>
    let named (set ascii : CharSet) (negated : Bool) : Option (Atom × List Char) :=
      (namedSet? flags set ascii negated).map fun s => (.set s, rest)
    match c with
    | 'x' => hexCode? flags 2 rest
    | 'u' => hexCode? flags 4 rest
    | 'U' => hexCode? flags 8 rest
    | 'd' => named .digit .asciiDigit false
    | 'D' => named .digit .asciiDigit true
    | 's' => named .blank .asciiBlank false
    | 'S' => named .blank .asciiBlank true
    | 'w' => named .word .asciiWord false
    | 'W' => named .word .asciiWord true
    | 'a' => some (.char '\x07', rest)
    | 'f' => some (.char '\x0c', rest)
    | 't' => some (.char '\t', rest)
    | 'n' => some (.char '\n', rest)
    | 'r' => some (.char '\r', rest)
    | 'v' => some (.char '\x0b', rest)
    | 'A' => some (.look .textStart, rest)
    | 'z' => some (.look .textEnd, rest)
    | 'B' => some (edge flags .neither, rest)
    | '<' => some (edge flags .start, rest)
    | '>' => some (edge flags .finish, rest)
    | 'b' => (namedEdge? flags rest).map fun (e, rest) => (edge flags (e.getD .either), rest)
    | c => if isEscapable c then some (.char c, rest) else none

/-! ## Sets in brackets -/

/-- How two sets are brought together. -/
inductive SetOp where
  | inter | diff | symmDiff
  deriving DecidableEq, Repr

def SetOp.apply : SetOp → CharSet → CharSet → CharSet
  | inter => CharSet.inter
  | diff => CharSet.diff
  | symmDiff => CharSet.symmDiff

/-- The codes that sets are made of. -/
def topCode (flags : Flags) : Nat := if flags.unicode then CharSet.lastCode else 0xFF

/-- Adds what differs in case only, when case is ignored. -/
def folded (flags : Flags) (s : CharSet) : CharSet :=
  if flags.ignoreCase then s.foldCase (if flags.unicode then CharSet.lastCode + 1 else 128) else s

/-- The set that brackets stand for; without Unicode only ASCII must be in it. -/
def bracketed? (flags : Flags) (negated : Bool) (s : CharSet) : Option CharSet :=
  let s := folded flags s
  let s := if negated then s.complement (topCode flags) else s
  if flags.unicode || s.isAscii then some s else none

/-- Puts a set behind the operation that waits for it. -/
def finishOp (flags : Flags) (waiting : Option (CharSet × SetOp)) (s : CharSet) : CharSet :=
  match waiting with
  | none => s
  | some (left, op) => op.apply (folded flags left) (folded flags s)

/-- Reads the name of an ASCII class behind a bracket, as in `[:alpha:]`. -/
def classByName? (flags : Flags) (text : List Char) : Option (CharSet × List Char) :=
  match text with
  | ':' :: inner =>
    let (negated, named) :=
      match inner with
      | '^' :: rest => (true, rest)
      | _ => (false, inner)
    match named.dropWhile (· ≠ ':') with
    | ':' :: ']' :: rest =>
      (CharSet.asciiClass? (named.takeWhile (· ≠ ':'))).bind fun s =>
        (bracketed? flags negated s).map fun s => (s, rest)
    | _ => none
  | _ => none

/-- Reads one member of a set. -/
def member? (flags : Flags) (text : List Char) : Option (Atom × List Char) :=
  match text with
  | [] => none
  | '\\' :: rest => escape? flags rest
  | c :: rest => some (.char c, rest)

/-- The set of a single member. -/
def memberSet? (flags : Flags) : Atom → Option CharSet
  | .char c => if flags.unicode || c.toNat < 128 then some (.singleton c) else none
  | .set s => some s
  | .look _ => none

/-- Reads a member or a range of them. -/
def range? (flags : Flags) (text : List Char) : Option (CharSet × List Char) := do
  let (first, rest) ← member? flags text
  let rest := skip flags rest
  match rest with
  | [] => none
  | '-' :: behind =>
    let behind := skip flags behind
    match behind with
    | [] => none
    | c :: _ =>
      if c = ']' ∨ c = '-' then (memberSet? flags first).map (·, rest)
      else do
        let (last, rest) ← member? flags behind
        match first, last with
        | .char a, .char b =>
          if a ≤ b ∧ (flags.unicode ∨ b.toNat < 128) then some (⟨[(a.toNat, b.toNat)]⟩, rest)
          else none
        | _, _ => none
  | _ => (memberSet? flags first).map (·, rest)

mutual

/-- Reads a set whose opening bracket has been read. A closing bracket in the first place stands
for itself, and so do the minus signs there. -/
def brackets? (flags : Flags) : (fuel : Nat) → List Char → Option (CharSet × List Char)
  | 0, _ => none
  | fuel + 1, text => do
    let (negated, text) :=
      match skip flags text with
      | '^' :: rest => (true, skip flags rest)
      | text => (false, text)
    let (s, rest) ←
      match text with
      | ']' :: rest => members? flags fuel false none (.singleton ']') rest
      | _ => members? flags fuel true none .empty text
    let s ← bracketed? flags negated s
    some (s, rest)

/-- Reads the members of a set up to its end; `leading` holds where a minus sign stands for
itself. -/
def members? (flags : Flags) : (fuel : Nat) → (leading : Bool) →
    (waiting : Option (CharSet × SetOp)) → (s : CharSet) → List Char →
    Option (CharSet × List Char)
  | 0, _, _, _, _ => none
  | fuel + 1, leading, waiting, s, text =>
    let operate (op : SetOp) (rest : List Char) : Option (CharSet × List Char) :=
      members? flags fuel false (some (finishOp flags waiting s, op)) .empty rest
    match skip flags text with
    | [] => none
    | ']' :: rest => some (finishOp flags waiting s, rest)
    | '[' :: rest =>
      match classByName? flags rest with
      | some (t, rest) => members? flags fuel false waiting (s.union t) rest
      | none => do
        let (t, rest) ← brackets? flags fuel rest
        members? flags fuel false waiting (s.union t) rest
    | '&' :: '&' :: rest => operate .inter rest
    | '~' :: '~' :: rest => operate .symmDiff rest
    | '-' :: rest =>
      if leading then members? flags fuel true waiting (s.union (.singleton '-')) rest
      else
        match rest with
        | '-' :: rest => operate .diff rest
        | _ => do
          let (t, rest) ← range? flags ('-' :: rest)
          members? flags fuel false waiting (s.union t) rest
    | text => do
      let (t, rest) ← range? flags text
      members? flags fuel false waiting (s.union t) rest

end

/-! ## Repetitions -/

/-- Reads digits. -/
def digits (flags : Flags) : (fuel : Nat) → List Char → List Char × List Char
  | 0, text => ([], text)
  | _, [] => ([], [])
  | fuel + 1, c :: rest =>
    if c.isDigit then
      let (ds, rest) := digits flags fuel (skip flags rest)
      (c :: ds, rest)
    else ([], c :: rest)

/-- Reads a number of 32 bits with blanks around it; there may be none. -/
def count? (flags : Flags) (text : List Char) : Option (Option Nat × List Char) :=
  let text := trimStart text
  let (ds, rest) := digits flags text.length text
  let rest := skip flags (trimStart rest)
  let n := Nat.ofDigitChars 10 ds 0
  if ds.isEmpty then some (none, rest)
  else if n < 0x100000000 then some (some n, rest)
  else none

/-- Reads how often, behind an opening brace. -/
def bounds? (flags : Flags) (text : List Char) : Option ((Nat × Option Nat) × List Char) := do
  let (min, rest) ← count? flags (skip flags text)
  match rest with
  | '\x7d' :: rest => do
    let n ← min
    some ((n, some n), rest)
  | ',' :: rest =>
    match skip flags rest with
    | '\x7d' :: rest => do
      let n ← min
      some ((n, none), rest)
    | rest => do
      let n ← min
      let (max, rest) ← count? flags rest
      let m ← max
      match rest with
      | '\x7d' :: rest => if n ≤ m then some ((n, some m), rest) else none
      | _ => none
  | _ => none

/-- Repeats the item before, which flags are not. -/
def repeatLast? (flags : Flags) (min : Nat) (max : Option Nat) (before : List (Option Expression))
    (text : List Char) : Option (List (Option Expression) × List Char) :=
  let (lazy, rest) :=
    match text with
    | '?' :: rest => (true, rest)
    | _ => (false, text)
  match before with
  | some e :: before => some (some (.times min max (lazy == flags.lazy) e) :: before, rest)
  | _ => none

/-! ## Groups and alternatives -/

/-- One character, or all that differ from it in case only. -/
def ofChar (flags : Flags) (c : Char) : Expression :=
  if flags.ignoreCase && (flags.unicode || c.toNat < 128) then
    ofSet (folded flags (.singleton c))
  else .literal [c]

/-- Any character but the ends of lines; without Unicode there is no such set. -/
def dot? (flags : Flags) : Option Expression :=
  if !flags.unicode then none
  else if flags.dotAll then some (.set .any)
  else if flags.returns then some (.set (.complement CharSet.lastCode ⟨[(10, 10), (13, 13)]⟩))
  else some (.set .line)

def ofAtom (flags : Flags) : Atom → Expression
  | .char c => ofChar flags c
  | .set s => ofSet s
  | .look l => .look l

def lineStart (flags : Flags) : Look :=
  if flags.lines then .lineStart flags.returns else .textStart

def lineEnd (flags : Flags) : Look :=
  if flags.lines then .lineEnd flags.returns else .textEnd

/-- The items in their order, the last of which comes first. -/
def ofItems (before : List (Option Expression)) : Expression :=
  concat (before.reverse.filterMap id)

/-- Whether a text is a label: it begins with a letter or underscore and goes on with letters,
digits and `_.[]`. -/
def isLabel (text : List Char) : Bool :=
  match text with
  | [] => false
  | c :: rest =>
    (c = '_' || isAlphabetic c)
      && rest.all fun c => isAlphanumeric c || c ∈ ['_', '.', '[', ']']

/-- Reads a label up to the closing angle bracket. -/
def label? (text : List Char) : Option (List Char × List Char) :=
  match text.dropWhile (· ≠ '>') with
  | [] => none
  | _ :: rest =>
    let name := text.takeWhile (· ≠ '>')
    if isLabel name then some (name, rest) else none

/-- Reads what a group opens with: its label if it has one and the flags inside of it. A group
without a body only sets flags. -/
inductive Opening where
  | labelled (label : Option (List Char))
  | plain (flags : Flags)
  | setting (flags : Flags)
  deriving DecidableEq, Repr

def opening? (flags : Flags) (text : List Char) : Option (Opening × List Char) :=
  match skip flags text with
  | '?' :: 'P' :: '<' :: rest => (label? rest).map fun (l, rest) => (.labelled (some l), rest)
  | '?' :: '<' :: rest => (label? rest).map fun (l, rest) => (.labelled (some l), rest)
  | '?' :: rest =>
    (flags.read? [] rest).map fun (inner, mark, rest) =>
      (if mark = ')' then .setting inner else .plain inner, rest)
  | rest => some (.labelled none, rest)

/-- The flags inside a group. -/
def Opening.inner (flags : Flags) : Opening → Flags
  | labelled _ => flags
  | plain inner | setting inner => inner

/-- The item that a group with this body is. -/
def Opening.item (body : Expression) : Opening → Expression
  | labelled label => .group label body
  | _ => body

mutual

/-- Reads alternatives up to the end of the text or a closing parenthesis. -/
def alternatives? : (fuel : Nat) → Flags → List Char → Option (Expression × List Char)
  | 0, _, _ => none
  | fuel + 1, flags, text => do
    let (first, flags, rest) ← items? fuel flags [] text
    match rest with
    | '|' :: rest => do
      let (others, rest) ← alternatives? fuel flags rest
      some (.alt first others, rest)
    | _ => some (first, rest)

/-- Reads one alternative; the items `before` have been read, the last of them first. -/
def items? : (fuel : Nat) → Flags → (before : List (Option Expression)) → List Char →
    Option (Expression × Flags × List Char)
  | 0, _, _, _ => none
  | fuel + 1, flags, before, text =>
    match skip flags text with
    | [] => some (ofItems before, flags, [])
    | c :: rest =>
      match c with
      | '|' | ')' => some (ofItems before, flags, c :: rest)
      | '(' => do
        let (opening, rest) ← opening? flags rest
        match opening with
        | .setting inner => items? fuel inner (none :: before) rest
        | _ => do
          let (body, rest) ← alternatives? fuel (opening.inner flags) rest
          match rest with
          | ')' :: rest => items? fuel flags (some (opening.item body) :: before) rest
          | _ => none
      | '[' => do
        let (s, rest) ← brackets? flags fuel rest
        items? fuel flags (some (ofSet s) :: before) rest
      | '?' => do
        let (before, rest) ← repeatLast? flags 0 (some 1) before rest
        items? fuel flags before rest
      | '*' => do
        let (before, rest) ← repeatLast? flags 0 none before rest
        items? fuel flags before rest
      | '+' => do
        let (before, rest) ← repeatLast? flags 1 none before rest
        items? fuel flags before rest
      | '\x7b' => do
        let ((min, max), rest) ← bounds? flags rest
        let (before, rest) ← repeatLast? flags min max before (skip flags rest)
        items? fuel flags before rest
      | '\\' => do
        let (atom, rest) ← escape? flags rest
        items? fuel flags (some (ofAtom flags atom) :: before) rest
      | '.' => do
        let e ← dot? flags
        items? fuel flags (some e :: before) rest
      | '^' => items? fuel flags (some (.look (lineStart flags)) :: before) rest
      | '$' => items? fuel flags (some (.look (lineEnd flags)) :: before) rest
      | c => items? fuel flags (some (ofChar flags c) :: before) rest

end

/-- Reads an expression. No two groups have the same label. -/
def read? (text : List Char) : Option Expression := do
  let (e, rest) ← alternatives? (4 * text.length + 8) {} text
  if rest.isEmpty && decide e.labels.Nodup then some e else none

end UrlRouting.Expression
