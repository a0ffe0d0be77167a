/-
  Quotes while a text is scanned from left to right: `'` and `"` each open a quotation that ends
  at the next same character, and nothing inside it counts.
-/

namespace UrlRouting.Text

def isQuote (c : Char) : Bool := c = '"' || c = '\''

/-- The quotation that is open after `c`, when `quote` was open before it. -/
def quoteAfter (quote : Option Char) (c : Char) : Option Char :=
  match quote with
  | some q => if c = q then none else some q
  | none => if isQuote c then some c else none

/-- Whether every quotation of the text is closed, `quote` being open before it. -/
def quoteBalanced (quote : Option Char) (text : List Char) : Bool :=
  text.foldl quoteAfter quote = none

/-- The parts between the separators that stand outside quotations; always at least one. -/
def splitOutside (separator : Char) : Option Char → List Char → List (List Char)
  | _, [] => [[]]
  | quote, c :: rest =>
    if quote = none ∧ c = separator then [] :: splitOutside separator none rest
    else
      match splitOutside separator (quoteAfter quote c) rest with
      | [] => [[c]]
      | part :: parts => (c :: part) :: parts

/-- The text before the first `stop` outside quotations, and the text after it. -/
def breakOutside? (stop : Char) : Option Char → List Char → Option (List Char × List Char)
  | _, [] => none
  | quote, c :: rest =>
    if quote = none ∧ c = stop then some ([], rest)
    else (breakOutside? stop (quoteAfter quote c) rest).map fun p => (c :: p.1, p.2)

theorem splitOutside_ne_nil (separator : Char) (quote : Option Char) (text : List Char) :
    splitOutside separator quote text ≠ [] := by
  cases text with
  | nil => simp [splitOutside]
  | cons c rest =>
    unfold splitOutside
    split
    · simp
    · split <;> simp

theorem eq_append_of_breakOutside? {stop : Char} {quote : Option Char}
    {text before after : List Char} (h : breakOutside? stop quote text = some (before, after)) :
    text = before ++ stop :: after := by
  induction text generalizing quote before after with
  | nil => simp [breakOutside?] at h
  | cons c rest ih =>
    unfold breakOutside? at h
    split at h
    next hc =>
      obtain ⟨rfl, rfl⟩ : [] = before ∧ rest = after := by simpa using h
      simp [hc.2]
    · obtain ⟨p, hp, he⟩ := Option.map_eq_some_iff.1 h
      obtain ⟨rfl, rfl⟩ : c :: p.1 = before ∧ p.2 = after := by simpa using he
      simp [ih hp]

end UrlRouting.Text
