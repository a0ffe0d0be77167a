/-
  An index of rules in non-decreasing order of rank, kept by insertion.
  A new entry goes behind every entry whose rank is not greater, so entries of equal rank stay in
  the order in which they came. Its place is found by bisection, which needs the entries before it
  to be in order.
-/

namespace UrlRouting

/-- The place of a rule in its table, counted from zero in the order of adding. -/
structure RuleNumber where
  index : Nat
  deriving DecidableEq, Repr

/-- Rules by rank. -/
structure StableIndex (κ : Type) where
  entries : List (κ × RuleNumber) := []
  deriving DecidableEq

namespace StableIndex

variable {κ : Type}

def empty : StableIndex κ := {}

/-- Whether an entry stays before a new one of this rank. -/
def precedes [Ord κ] (rank : κ) (entry : κ × RuleNumber) : Bool := (compare entry.1 rank).isLE

/-- The place from which on a test holds no more, among `size` places from `base` on. The test is
taken to hold before some place and nowhere from it on. -/
def bisect (holds : Nat → Bool) (base size : Nat) : Nat :=
  if size ≤ 1 then if size = 1 ∧ holds base then base + 1 else base
  else
    let half := size / 2
    -- where the test holds in the middle, the middle stays among the places that are left
    if holds (base + half) then bisect holds (base + half) (size - half)
    else bisect holds base (size - half)
termination_by size

/-- The place of a new entry: behind every entry whose rank is not greater. -/
def place [Ord κ] (index : StableIndex κ) (rank : κ) : Nat :=
  bisect (fun i => index.entries[i]?.any (precedes rank)) 0 index.entries.length

/-- Puts an entry into its place. -/
def insert [Ord κ] (index : StableIndex κ) (rank : κ) (number : RuleNumber) : StableIndex κ :=
  ⟨index.entries.take (index.place rank)
    ++ (rank, number) :: index.entries.drop (index.place rank)⟩

def numbers (index : StableIndex κ) : List RuleNumber := index.entries.map Prod.snd

def ranks (index : StableIndex κ) : List κ := index.entries.map Prod.fst

def size (index : StableIndex κ) : Nat := index.entries.length

def isEmpty (index : StableIndex κ) : Bool := index.entries.isEmpty

theorem perm_insert [Ord κ] (index : StableIndex κ) (rank : κ) (number : RuleNumber) :
    (index.insert rank number).entries.Perm ((rank, number) :: index.entries) := by
  simp only [insert]
  refine List.perm_middle.trans (List.Perm.cons _ ?_)
  rw [List.take_append_drop]

theorem size_insert [Ord κ] (index : StableIndex κ) (rank : κ) (number : RuleNumber) :
    (index.insert rank number).size = index.size + 1 := by
  simpa [size] using (perm_insert index rank number).length_eq

end StableIndex

end UrlRouting
