import UrlRouting.Converter.Basic
import UrlRouting.Uuid

/-
  Which first parts of a text a converter may take, and in which order it would rather have them.
  `lengths` lists how long they are, the most preferred first: strings, integers and fractions
  prefer more, paths prefer less, fixed texts go in the order in which they are given.
-/

namespace UrlRouting

/-- The numbers from `low` up to `high`, the least first. -/
def upward (low high : Nat) : List Nat := List.range' low (high + 1 - low)

/-- The numbers from `high` down to `low`, the greatest first. -/
def downward (high low : Nat) : List Nat := (upward low high).reverse

@[simp] theorem mem_upward {low high n : Nat} : n ∈ upward low high ↔ low ≤ n ∧ n ≤ high := by
  simp [upward, List.mem_range'_1]
  omega

@[simp] theorem mem_downward {high low n : Nat} : n ∈ downward high low ↔ low ≤ n ∧ n ≤ high := by
  simp [downward]

/-- The number of leading characters that satisfy `p`. -/
def runLength (p : Char → Bool) (text : List Char) : Nat := (text.takeWhile p).length

theorem runLength_le_length (p : Char → Bool) (text : List Char) :
    runLength p text ≤ text.length :=
  (List.takeWhile_sublist p).length_le

namespace LengthBounds

/-- The least number of characters. -/
def least (b : LengthBounds) : Nat := b.exact.getD b.min

/-- The greatest number of characters, when there is one. -/
def greatest? (b : LengthBounds) : Option Nat := b.exact.or b.max

/-- All lengths within the bounds up to the next slash, the longest first. -/
def lengths (b : LengthBounds) (text : List Char) : List Nat :=
  let run := runLength (· ≠ '/') text
  downward ((b.greatest?.map (Nat.min run)).getD run) b.least

end LengthBounds

namespace Converter

/-- The items that `text` begins with, in their order. -/
def itemLengths (items : List String) (text : List Char) : List Nat :=
  (items.filter fun item => item.toList.isPrefixOf text).map fun item => item.toList.length

/-- One character that is no slash, then any number that are no line feeds, the fewest first. -/
def pathLengths : List Char → List Nat
  | [] => []
  | c :: rest => if c = '/' then [] else upward 1 (1 + runLength (· ≠ '\n') rest)

/-- One or more digits, the most first. -/
def intLengths (text : List Char) : List Nat := downward (runLength Char.isDigit text) 1

/-- All leading digits, a point, and one or more digits, the most first. -/
def floatLengths (text : List Char) : List Nat :=
  let whole := runLength Char.isDigit text
  match text.drop whole with
  | '.' :: rest =>
    if whole = 0 then [] else (downward (runLength Char.isDigit rest) 1).map (whole + 1 + ·)
  | _ => []

/-- The 36 characters of a hyphenated identifier. -/
def uuidLengths (text : List Char) : List Nat :=
  let width := Uuid.hyphenated.length
  if (Uuid.ofHyphenated? (text.take width)).isSome then [width] else []

/-- The lengths of the first parts of a text that the converter may take, best first. -/
def lengths (c : Converter) (text : List Char) : List Nat :=
  match c with
  | string bounds => bounds.lengths text
  | any items => itemLengths items text
  | path => pathLengths text
  | int _ => intLengths text
  | float _ => floatLengths text
  | uuid => uuidLengths text

theorem le_length_of_mem_lengths {c : Converter} {text : List Char} {n : Nat}
    (h : n ∈ c.lengths text) : n ≤ text.length := by
  cases c with
  | string b =>
    have hr := runLength_le_length (· ≠ '/') text
    simp only [lengths, LengthBounds.lengths, mem_downward] at h
    cases hg : b.greatest? with
    | none => simp only [hg, Option.map_none, Option.getD_none] at h; omega
    | some g =>
      have hm : Nat.min (runLength (· ≠ '/') text) g ≤ runLength (· ≠ '/') text :=
        Nat.min_le_left _ _
      simp only [hg, Option.map_some, Option.getD_some] at h
      omega
  | any items =>
    simp only [lengths, itemLengths, List.mem_map, List.mem_filter] at h
    obtain ⟨item, ⟨_, hp⟩, rfl⟩ := h
    exact (List.isPrefixOf_iff_prefix.1 hp).length_le
  | path =>
    cases text with
    | nil => simp [lengths, pathLengths] at h
    | cons c rest =>
      have hr := runLength_le_length (· ≠ '\n') rest
      simp only [lengths, pathLengths] at h
      split at h
      · simp at h
      · simp only [mem_upward] at h
        simp only [List.length_cons]
        omega
  | int _ =>
    have hr := runLength_le_length Char.isDigit text
    simp only [lengths, intLengths, mem_downward] at h
    omega
  | float _ =>
    simp only [lengths, floatLengths] at h
    split at h
    next rest heq =>
      split at h
      · simp at h
      · simp only [List.mem_map, mem_downward] at h
        obtain ⟨m, hm, rfl⟩ := h
        have hr := runLength_le_length Char.isDigit rest
        have hl := congrArg List.length heq
        simp only [List.length_drop, List.length_cons] at hl
        omega
    · simp at h
  | uuid =>
    simp only [lengths, uuidLengths] at h
    split at h
    next hs =>
      obtain ⟨u, hu⟩ := Option.isSome_iff_exists.1 hs
      have hl := Uuid.length_of_ofHyphenated? hu
      simp only [List.length_take, List.mem_singleton] at hl h
      omega
    · simp at h

end Converter

end UrlRouting
