import UrlRouting.Expression.Reader
import UrlRouting.Expression.Size
import UrlRouting.Pattern.Basic

/-
  The regular expression of a pattern, as text and as a tree.
  Literal text is escaped, a variable is a group labelled with its name, the optional slash a
  group of its own, and the whole is anchored at both ends. While no name holds a `>`, the tree is
  known from the parts, and is what the text reads as (`tree?_eq_read?`); a name that does closes
  its own label, and what stands behind is read as a part of the expression.
-/

namespace UrlRouting

/-! ## Text -/

namespace Expression

/-- The characters that are written behind a backslash. -/
def specials : List Char := "\\.+*?()|[]\x7b\x7d^$#&-~".toList

def escape (text : List Char) : List Char :=
  text.flatMap fun c => if c ∈ specials then ['\\', c] else [c]

/-- Writes a group with a label. -/
def labelled (label body : List Char) : List Char :=
  "(?P<".toList ++ label ++ '>' :: body ++ [')']

end Expression

/-- A number of characters that are no slash. -/
def LengthBounds.countedText (count : List Char) : List Char :=
  "[^/]".toList ++ '{' :: count ++ ['}']

def LengthBounds.expressionText (b : LengthBounds) : List Char :=
  match b.exact, b.max with
  | some exact, _ => countedText (Decimal.digits exact)
  | none, some max => countedText (Decimal.digits b.min ++ ',' :: Decimal.digits max)
  | none, none => countedText (Decimal.digits b.min ++ [','])

namespace Converter

/-- A hexadecimal digit a number of times. -/
def hexadecimalText (count : Nat) : List Char :=
  "[A-Fa-f0-9]".toList ++ '{' :: Decimal.digits count ++ ['}']

/-- The expression of what a converter accepts, as text. -/
def expressionText : Converter → List Char
  | .string b => b.expressionText
  | .any items =>
    "(?:".toList ++ ['|'].intercalate (items.map fun item => Expression.escape item.toList)
      ++ [')']
  | .path => "[^/].*?".toList
  | .int _ => "[0-9]+".toList
  | .float _ => "[0-9]+\\.[0-9]+".toList
  | .uuid => ['-'].intercalate ([8, 4, 4, 4, 12].map hexadecimalText)

def expression (c : Converter) : String := String.ofList c.expressionText

end Converter

def Part.expressionText : Part → List Char
  | .literal text => Expression.escape text.toList
  | .capture name c => Expression.labelled name.toList c.expressionText

/-- The label of the optional slash. -/
def Pattern.slashLabel : List Char := "__slash__".toList

/-- The expression that the paths of a pattern match, as text. -/
def Pattern.expressionText (p : Pattern) : List Char :=
  let body := p.body.flatMap Part.expressionText
  match p.slashes with
  | .exact => '^' :: body ++ ['$']
  | .optional => '^' :: body ++ Expression.labelled slashLabel "/?".toList ++ ['$']

def Pattern.expression (p : Pattern) : String := String.ofList p.expressionText

/-! ## Trees -/

namespace Expression

def notSlash : Expression := .set (.complement CharSet.lastCode (.singleton '/'))

def number : Expression := .times 1 none true (.set .asciiDigit)

def hexadecimals (count : Nat) : Expression :=
  .times count (some count) true (.set ⟨[(0x30, 0x39), (0x41, 0x46), (0x61, 0x66)]⟩)

/-- Any one of some texts, the first ones being preferred. -/
def anyOf : List (List Char) → Expression
  | [] => .literal []
  | [text] => .literal text
  | text :: texts => .alt (.literal text) (anyOf texts)

end Expression

open Expression in
/-- The expression of what a converter accepts. -/
def Converter.tree : Converter → Expression
  | .string b =>
    match b.exact with
    | some exact => .times exact (some exact) true notSlash
    | none => .times b.min b.max true notSlash
  | .any items => anyOf (items.map String.toList)
  | .path => concat [notSlash, .times 0 none false (.set .line)]
  | .int _ => number
  | .float _ => concat [number, .literal ['.'], number]
  | .uuid => concat ([.literal ['-']].intercalate ([8, 4, 4, 4, 12].map fun n => [hexadecimals n]))

def Part.tree : Part → Expression
  | .literal text => .literal text.toList
  | .capture name c => .group (some name.toList) c.tree

namespace Pattern

/-- The expression of a pattern whose names are labels. -/
def tree (p : Pattern) : Expression :=
  let slash : Expression :=
    .group (some slashLabel) (.times 0 (some 1) true (.literal ['/']))
  let body := p.body.map Part.tree
  match p.slashes with
  | .exact => .concat (.look .textStart :: body ++ [.look .textEnd])
  | .optional => .concat (.look .textStart :: body ++ [slash, .look .textEnd])

/-- The labels of a pattern whose names are labels. -/
def labels (p : Pattern) : List (List Char) :=
  let own := p.variables.map String.toList
  match p.slashes with
  | .exact => own
  | .optional => own ++ [slashLabel]

/-- Whether every name is closed by the expression and not by itself. -/
def hasPlainNames (p : Pattern) : Bool := p.variables.all fun name => '>' ∉ name.toList

/-- The tree of the pattern's expression, if it is one. -/
def tree? (p : Pattern) : Option Expression :=
  if p.hasPlainNames then
    if p.labels.all Expression.isLabel && decide p.labels.Nodup then some p.tree else none
  else Expression.read? p.expressionText

end Pattern

end UrlRouting
