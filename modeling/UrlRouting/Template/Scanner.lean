import UrlRouting.Arguments.Scanner
import UrlRouting.Template.Parser

/-
  Reading a template byte by byte.
  The scanner stands at a place in the bytes of the template and looks at one byte at a time. All
  that it tells apart is ASCII, so it need not know where characters begin; names, clauses and
  literal text are cut out of the template between places that it has stood at. A cut at a place
  inside a character, or at one that is out of range, stops it (`Stop.badSlice`).
-/

namespace UrlRouting.Template.Scanner

open Text

/-- Why the scanner stops before the end of a template. -/
inductive Stop where
  | rejected (error : TemplateError)
  | badSlice
  deriving DecidableEq

/-- What is cut out, or the end of everything. -/
def cut {α : Type} : Option α → Except Stop α
  | some part => .ok part
  | none => .error .badSlice

def isNameStartByte (b : UInt8) : Bool := isNameStart (Char.ofUInt8 b)

def isNameByte (b : UInt8) : Bool := isNameChar (Char.ofUInt8 b)

def isLetterByte (b : UInt8) : Bool := (Char.ofUInt8 b).isAlpha

def isQuoteByte (b : UInt8) : Bool := b = '"'.toUInt8 || b = '\''.toUInt8

/-- The place behind a name that begins at `start`, `place` being the one of the bytes that are
left. It is `start` where there is no name. -/
def nameEnd (start place : Nat) : List UInt8 → Nat
  | [] => place
  | b :: rest =>
    if place = start then if isNameStartByte b then nameEnd start (place + 1) rest else place
    else if isNameByte b then nameEnd start (place + 1) rest
    else place

/-- The place behind the first `)` outside quotations. -/
def clauseEnd? (quote : Option UInt8) (place : Nat) : List UInt8 → Option Nat
  | [] => none
  | b :: rest =>
    match quote with
    | some q => clauseEnd? (if b = q then none else some q) (place + 1) rest
    | none =>
      if isQuoteByte b then clauseEnd? (some b) (place + 1) rest
      else if b = ')'.toUInt8 then some (place + 1)
      else clauseEnd? none (place + 1) rest

section

variable (template : List Char)

/-- The bytes from a place on. -/
def bytesFrom (place : Nat) : List UInt8 := (bytes template).drop place

def peek (place : Nat) : Option UInt8 := (bytes template)[place]?

/-- The next place, but at the end there is none. -/
def next (place : Nat) : Nat := if (peek template place).isSome then place + 1 else place

/-- The error of a placeholder that opens at `opened` and does not go on at this place. -/
def unexpected (opened place : Nat) : Stop :=
  match sliceFrom? template place with
  | none => .badSlice
  | some [] => .rejected (.unterminatedPlaceholder opened)
  | some (found :: _) => .rejected (.unexpected place found)

/-- Reads one given byte. -/
def consume (expected : UInt8) (opened place : Nat) : Except Stop Nat :=
  if peek template place = some expected then .ok (next template place)
  else .error (unexpected template opened place)

/-- Reads a name as far as it goes. -/
def identifier (opened start : Nat) : Except Stop (List Char × Nat) :=
  let stop := nameEnd start start (bytesFrom template start)
  if stop = start then .error (unexpected template opened start)
  else (cut (slice? template start stop)).map fun text => (text, stop)

/-- Reads the arguments whose `(` is at `opened`. -/
def arguments (opened : Nat) : Except Stop (Arguments × Nat) :=
  let start := next template opened
  match clauseEnd? none start (bytesFrom template start) with
  | none => .error (.rejected (.unterminatedArguments opened))
  | some stop => do
    let raw ← cut (slice? template start (stop - 1))
    let args ← cut (Arguments.scan? raw)
    .ok (args, stop)

/-- What follows the first name of a placeholder, up to the closing `>`. -/
def declaration (opened : Nat) (first : List Char) (place : Nat) :
    Except Stop (Placeholder × Nat) :=
  if peek template place = some '('.toUInt8 then do
    let (args, place) ← arguments template place
    let place ← consume template ':'.toUInt8 opened place
    let (name, place) ← identifier template opened place
    .ok (⟨String.ofList first, args, String.ofList name⟩, place)
  else if peek template place = some ':'.toUInt8 then do
    let (name, place) ← identifier template opened (next template place)
    .ok (⟨String.ofList first, {}, String.ofList name⟩, place)
  else .ok (⟨Catalogue.defaultName, {}, String.ofList first⟩, place)

/-- Reads a placeholder whose `<` is at `opened`. -/
def placeholder (opened : Nat) : Except Stop (Placeholder × Nat) := do
  let (first, place) ← identifier template opened (next template opened)
  let (p, place) ← declaration template opened first place
  let place ← consume template '>'.toUInt8 opened place
  let initial ← cut (bytes p.name.toList)[0]?
  if isLetterByte initial then .ok (p, place)
  else .error (.rejected (.badVariableName p.name))

/-! ## Progress

  The scanner never goes back, and `placeholder` goes on. -/

variable {template}

theorem le_nameEnd (start place : Nat) (rest : List UInt8) : place ≤ nameEnd start place rest := by
  induction rest generalizing place with
  | nil => exact Nat.le_refl _
  | cons b rest ih =>
    have hnext := ih (place + 1)
    unfold nameEnd
    split <;> split <;> omega

theorem lt_of_clauseEnd? {quote : Option UInt8} {place stop : Nat} {rest : List UInt8}
    (h : clauseEnd? quote place rest = some stop) : place < stop := by
  induction rest generalizing quote place with
  | nil => cases h
  | cons b rest ih =>
    unfold clauseEnd? at h
    split at h
    · have hnext := ih h
      omega
    · split at h
      · have hnext := ih h
        omega
      · split at h
        · obtain rfl := Option.some.inj h
          exact Nat.lt_succ_self place
        · have hnext := ih h
          omega

theorem le_next (place : Nat) : place ≤ next template place := by
  unfold next
  split <;> omega

theorem lt_of_consume {expected : UInt8} {opened place stop : Nat}
    (h : consume template expected opened place = .ok stop) : place < stop := by
  unfold consume at h
  split at h
  next hpeek =>
    obtain rfl := Except.ok.inj h
    unfold next
    rw [hpeek]
    exact Nat.lt_succ_self place
  · cases h

theorem le_of_identifier {opened start stop : Nat} {name : List Char}
    (h : identifier template opened start = .ok (name, stop)) : start ≤ stop := by
  have hle := le_nameEnd start start (bytesFrom template start)
  unfold identifier at h
  dsimp only at h
  split at h
  · cases h
  · cases hcut : cut (slice? template start (nameEnd start start (bytesFrom template start))) with
    | error stop => rw [hcut] at h; cases h
    | ok text =>
      rw [hcut] at h
      obtain ⟨-, rfl⟩ := Prod.mk.inj (Except.ok.inj h)
      exact hle

theorem le_of_arguments {opened stop : Nat} {args : Arguments}
    (h : arguments template opened = .ok (args, stop)) : opened ≤ stop := by
  have hle : opened ≤ next template opened := le_next opened
  unfold arguments at h
  dsimp only at h
  split at h
  · cases h
  next hend =>
    have hlt := lt_of_clauseEnd? hend
    obtain ⟨_, -, h⟩ := exists_of_bind_eq_ok h
    obtain ⟨_, -, h⟩ := exists_of_bind_eq_ok h
    obtain ⟨-, rfl⟩ := Prod.mk.inj (Except.ok.inj h)
    omega

theorem le_of_declaration {opened place stop : Nat} {first : List Char} {p : Placeholder}
    (h : declaration template opened first place = .ok (p, stop)) : place ≤ stop := by
  unfold declaration at h
  split at h
  · obtain ⟨⟨_, behind⟩, harguments, h⟩ := exists_of_bind_eq_ok h
    obtain ⟨named, hconsume, h⟩ := exists_of_bind_eq_ok h
    obtain ⟨⟨_, left⟩, hname, h⟩ := exists_of_bind_eq_ok h
    obtain ⟨-, rfl⟩ := Prod.mk.inj (Except.ok.inj h)
    have h1 := le_of_arguments harguments
    have h2 := lt_of_consume hconsume
    have h3 := le_of_identifier hname
    omega
  · split at h
    · obtain ⟨⟨_, left⟩, hname, h⟩ := exists_of_bind_eq_ok h
      obtain ⟨-, rfl⟩ := Prod.mk.inj (Except.ok.inj h)
      exact Nat.le_trans (le_next place) (le_of_identifier hname)
    · obtain ⟨-, rfl⟩ := Prod.mk.inj (Except.ok.inj h)
      exact Nat.le_refl place

theorem lt_of_placeholder {opened stop : Nat} {p : Placeholder}
    (h : placeholder template opened = .ok (p, stop)) : opened < stop := by
  obtain ⟨⟨first, place⟩, hname, h⟩ := exists_of_bind_eq_ok h
  obtain ⟨⟨q, closing⟩, hdeclaration, h⟩ := exists_of_bind_eq_ok h
  obtain ⟨left, hconsume, h⟩ := exists_of_bind_eq_ok h
  obtain ⟨initial, -, h⟩ := exists_of_bind_eq_ok h
  have h1 : opened ≤ next template opened := le_next opened
  have h2 := le_of_identifier hname
  have h3 := le_of_declaration hdeclaration
  have h4 := lt_of_consume hconsume
  split at h
  · obtain ⟨-, rfl⟩ := Prod.mk.inj (Except.ok.inj h)
    omega
  · cases h

end

/-! ## Templates -/

/-- The bytes from a place on, where there is such a place. -/
def bytesFrom? (template : List Char) (place : Nat) : Option (List UInt8) :=
  if place ≤ (bytes template).length then some (bytesFrom template place) else none

/-- Where a byte is found, the template goes on. -/
theorem lt_length_of_idxOf? {template : List Char} {place count : Nat} {rest : List UInt8}
    {b : UInt8} (hrest : bytesFrom? template place = some rest)
    (hcount : rest.idxOf? b = some count) : place < (bytes template).length := by
  unfold bytesFrom? at hrest
  split at hrest
  next hle =>
    obtain rfl := Option.some.inj hrest
    refine Nat.lt_of_le_of_ne hle ?_
    rintro rfl
    rw [bytesFrom, List.drop_length] at hcount
    cases hcount
  · cases hrest

/-- Reads the segments from a place on; `seen` are the names before it. -/
def segments (template : List Char) (seen : List String) (place : Nat) :
    Except Stop (List Segment) :=
  match _hrest : bytesFrom? template place with
  | none => .error .badSlice
  | some rest =>
    match _hopened : rest.idxOf? '<'.toUInt8 with
    | none =>
      (cut (sliceFrom? template place)).map fun text => [.literal (String.ofList text)]
    | some count =>
      match cut (slice? template place (place + count)) with
      | .error stop => .error stop
      | .ok text =>
        match _hp : placeholder template (place + count) with
        | .error stop => .error stop
        | .ok (p, left) =>
          if p.name ∈ seen then .error (.rejected (.duplicateVariable p.name))
          else
            (segments template (p.name :: seen) left).map fun more =>
              .literal (String.ofList text) :: .placeholder p :: more
termination_by (bytes template).length - place
decreasing_by
  have hlt := lt_of_placeholder _hp
  have hmore := lt_length_of_idxOf? _hrest _hopened
  omega

/-- Reads a template. -/
def parse (template : List Char) : Except Stop (List Segment) :=
  if (bytes template).head? = some '/'.toUInt8 then segments template [] 0
  else .error (.rejected .missingLeadingSlash)

end UrlRouting.Template.Scanner
