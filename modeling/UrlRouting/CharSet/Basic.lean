/-
  Sets of characters as ranges of code points.
  The ranges of a set made by `ofRanges` are in increasing order, and there is a gap between any
  two of them. `mem_merge` says that bringing ranges into that form keeps the code points.
-/

namespace UrlRouting

/-- A set of characters, as the first and last code points of its ranges. -/
structure CharSet where
  ranges : List (Nat × Nat)
  deriving DecidableEq, Repr

namespace CharSet

/-- Whether a code point is in one of the ranges. -/
def inRanges (ranges : List (Nat × Nat)) (n : Nat) : Bool :=
  ranges.any fun r => r.1 ≤ n && n ≤ r.2

def contains (s : CharSet) (c : Char) : Bool := inRanges s.ranges c.toNat

/-- Joins ranges that touch or overlap; they are in the order of their first code points, and the
range from `low` to `high` stands before them. -/
def merge (low high : Nat) : List (Nat × Nat) → List (Nat × Nat)
  | [] => [(low, high)]
  | (a, b) :: rest =>
    if a ≤ high + 1 then merge low (max high b) rest else (low, high) :: merge a b rest

/-- The set of the code points in some ranges, whose order does not matter. -/
def ofRanges (ranges : List (Nat × Nat)) : CharSet :=
  match ranges.mergeSort fun r s => r.1 ≤ s.1 with
  | [] => ⟨[]⟩
  | (low, high) :: rest => ⟨merge low high rest⟩

def empty : CharSet := ⟨[]⟩

def singleton (c : Char) : CharSet := ⟨[(c.toNat, c.toNat)]⟩

def union (s t : CharSet) : CharSet := ofRanges (s.ranges ++ t.ranges)

/-- The ranges between some ranges, from `next` up to `top`. -/
def gaps (top : Nat) : (next : Nat) → List (Nat × Nat) → List (Nat × Nat)
  | next, [] => if next ≤ top then [(next, top)] else []
  | next, (a, b) :: rest =>
    if next < a then (next, a - 1) :: gaps top (b + 1) rest else gaps top (b + 1) rest

/-- The last code point. -/
def lastCode : Nat := 0x10FFFF

/-- The code points up to `top` that are not in the set. -/
def complement (top : Nat) (s : CharSet) : CharSet := ⟨gaps top 0 s.ranges⟩

def inter (s t : CharSet) : CharSet :=
  complement lastCode (union (complement lastCode s) (complement lastCode t))

def diff (s t : CharSet) : CharSet := inter s (complement lastCode t)

def symmDiff (s t : CharSet) : CharSet := diff (union s t) (inter s t)

def isAscii (s : CharSet) : Bool := s.ranges.all fun r => r.2 < 128

/-- The only character of the set, if it has just one. -/
def only? (s : CharSet) : Option Char :=
  match s.ranges with
  | [(a, b)] => if a = b then some (Char.ofNat a) else none
  | _ => none

theorem mem_merge {low high : Nat} {ranges : List (Nat × Nat)} {n : Nat} (hl : low ≤ high)
    (h : ∀ r ∈ ranges, low ≤ r.1 ∧ r.1 ≤ r.2) (hs : ranges.Pairwise fun r s => r.1 ≤ s.1) :
    inRanges (merge low high ranges) n = inRanges ((low, high) :: ranges) n := by
  induction ranges generalizing low high with
  | nil => rfl
  | cons r rest ih =>
    obtain ⟨a, b⟩ := r
    obtain ⟨ha, hrest⟩ := List.pairwise_cons.1 hs
    have hr := h (a, b) List.mem_cons_self
    unfold merge
    split
    next ht =>
      rw [ih (by omega) (fun r hr' => h r (List.mem_cons_of_mem _ hr')) hrest]
      simp only [inRanges, List.any_cons, ← Bool.or_assoc]
      congr 1
      rw [Bool.eq_iff_iff]
      simp only [Bool.or_eq_true, Bool.and_eq_true, decide_eq_true_eq]
      omega
    · have hm := @ih a b hr.2
        (fun r hr' => ⟨ha r hr', (h r (List.mem_cons_of_mem _ hr')).2⟩) hrest
      simp only [inRanges, List.any_cons] at hm ⊢
      rw [hm]

end CharSet

end UrlRouting
