import UrlRouting.Proofs.Converter.Tree
import UrlRouting.Proofs.Expression.Reader

/-
  The text of a converter's expression reads as its tree.
  The sets come first, then what is made of them with a repetition, then the six converters. Every
  reading ends at the parenthesis behind, and takes a few units of fuel more than the text is long.
-/

namespace UrlRouting

open Expression

namespace Expression

/-! ## Sets -/

theorem union_empty_range (low high : Nat) :
    CharSet.union .empty ⟨[(low, high)]⟩ = ⟨[(low, high)]⟩ := by
  simp [CharSet.union, CharSet.empty, CharSet.ofRanges, CharSet.merge]

theorem brackets?_notSlash (fuel : Nat) (rest : List Char) :
    brackets? {} (fuel + 3) ('^' :: '/' :: ']' :: rest) =
      some (.complement CharSet.lastCode (.singleton '/'), rest) := by
  have hmembers : members? {} (fuel + 2) true none .empty ('/' :: ']' :: rest) =
      some (.singleton '/', rest) := by
    rw [members?]
    show members? {} (fuel + 1) false none (CharSet.union .empty ⟨[(0x2F, 0x2F)]⟩) (']' :: rest) = _
    rw [union_empty_range]
    rfl
  rw [brackets?]
  show (members? {} (fuel + 2) true none .empty ('/' :: ']' :: rest)).bind _ = _
  rw [hmembers]
  rfl

theorem brackets?_digits (fuel : Nat) (rest : List Char) :
    brackets? {} (fuel + 3) ('0' :: '-' :: '9' :: ']' :: rest) = some (.asciiDigit, rest) := by
  have hmembers : members? {} (fuel + 2) true none .empty ('0' :: '-' :: '9' :: ']' :: rest) =
      some (.asciiDigit, rest) := by
    rw [members?]
    show members? {} (fuel + 1) false none (CharSet.union .empty ⟨[(0x30, 0x39)]⟩) (']' :: rest) = _
    rw [union_empty_range]
    rfl
  rw [brackets?]
  show (members? {} (fuel + 2) true none .empty ('0' :: '-' :: '9' :: ']' :: rest)).bind _ = _
  rw [hmembers]
  rfl

theorem brackets?_hexadecimal (fuel : Nat) (rest : List Char) :
    brackets? {} (fuel + 5) ("A-Fa-f0-9]".toList ++ rest) =
      some (⟨[(0x30, 0x39), (0x41, 0x46), (0x61, 0x66)]⟩, rest) := by
  have hlower : CharSet.union ⟨[(0x41, 0x46)]⟩ ⟨[(0x61, 0x66)]⟩ =
      ⟨[(0x41, 0x46), (0x61, 0x66)]⟩ := by
    simp [CharSet.union, CharSet.ofRanges, List.mergeSort, List.MergeSort.Internal.splitInTwo,
      CharSet.merge]
  have hdigit : CharSet.union ⟨[(0x41, 0x46), (0x61, 0x66)]⟩ ⟨[(0x30, 0x39)]⟩ =
      ⟨[(0x30, 0x39), (0x41, 0x46), (0x61, 0x66)]⟩ := by
    simp [CharSet.union, CharSet.ofRanges, List.mergeSort, List.MergeSort.Internal.splitInTwo,
      CharSet.merge]
  have hmembers : members? {} (fuel + 4) true none .empty ("A-Fa-f0-9]".toList ++ rest) =
      some (⟨[(0x30, 0x39), (0x41, 0x46), (0x61, 0x66)]⟩, rest) := by
    rw [members?]
    show members? {} (fuel + 3) false none (CharSet.union .empty ⟨[(0x41, 0x46)]⟩)
      ("a-f0-9]".toList ++ rest) = _
    rw [union_empty_range, members?]
    show members? {} (fuel + 2) false none (CharSet.union _ ⟨[(0x61, 0x66)]⟩)
      ("0-9]".toList ++ rest) = _
    rw [hlower, members?]
    show members? {} (fuel + 1) false none (CharSet.union _ ⟨[(0x30, 0x39)]⟩) (']' :: rest) = _
    rw [hdigit]
    rfl
  rw [brackets?]
  show (members? {} (fuel + 4) true none .empty ("A-Fa-f0-9]".toList ++ rest)).bind _ = _
  rw [hmembers]
  rfl

/-! ## Items -/

theorem items?_notSlash {fuel : Nat} {before : List (Option Expression)} (text : List Char) :
    items? (fuel + 4) {} before ("[^/]".toList ++ text) =
      items? (fuel + 3) {} (some notSlash :: before) text :=
  items?_brackets (brackets?_notSlash fuel text) rfl

theorem items?_number {fuel : Nat} {before : List (Option Expression)} {rest : List Char}
    (h : rest.head? ≠ some '?') :
    items? (fuel + 4) {} before ("[0-9]+".toList ++ rest) =
      items? (fuel + 2) {} (some number :: before) rest := by
  have hset : items? (fuel + 4) {} before ("[0-9]+".toList ++ rest) =
      items? (fuel + 3) {} (some (.set .asciiDigit) :: before) ('+' :: rest) :=
    items?_brackets (brackets?_digits fuel ('+' :: rest)) rfl
  rw [hset, items?_plus h]
  rfl

theorem items?_hexadecimals {fuel n : Nat} {before : List (Option Expression)} {rest : List Char}
    (hn : n < 0x100000000) (h : rest.head? ≠ some '?') :
    items? (fuel + 6) {} before (Converter.hexadecimalText n ++ rest) =
      items? (fuel + 4) {} (some (hexadecimals n) :: before) rest := by
  have htext : Converter.hexadecimalText n ++ rest =
      '[' :: ("A-Fa-f0-9]".toList ++ ('\x7b' :: (Decimal.digits n ++ '\x7d' :: rest))) := by
    unfold Converter.hexadecimalText
    rw [List.append_assoc, List.append_assoc]
    rfl
  unfold hexadecimals
  rw [htext, items?_brackets (brackets?_hexadecimal fuel _) rfl,
    items?_bounds (bounds?_exact hn rest) h]

end Expression

/-! ## Converters -/

namespace Converter

theorem alternatives?_countedText {fuel min : Nat} {max : Option Nat} {count rest : List Char}
    (hfuel : 5 ≤ fuel)
    (hbounds : bounds? {} (count ++ '\x7d' :: ')' :: rest) = some ((min, max), ')' :: rest)) :
    alternatives? fuel {} (LengthBounds.countedText count ++ ')' :: rest) =
      some (.times min max true notSlash, ')' :: rest) := by
  obtain ⟨fuel, rfl⟩ := Nat.exists_eq_add_of_le' hfuel
  have htext : LengthBounds.countedText count ++ ')' :: rest =
      "[^/]".toList ++ ('\x7b' :: (count ++ '\x7d' :: ')' :: rest)) := by
    unfold LengthBounds.countedText
    rw [List.append_assoc, List.append_assoc]
    rfl
  apply alternatives?_of_items?
  rw [htext, items?_notSlash, items?_bounds hbounds (by simp), items?_close]
  rfl

theorem alternatives?_string {b : LengthBounds} (h : b.IsProper) {fuel : Nat} (hfuel : 5 ≤ fuel)
    (rest : List Char) :
    alternatives? fuel {} ((string b).expressionText ++ ')' :: rest) =
      some ((string b).tree, ')' :: rest) := by
  obtain ⟨min, max, exact⟩ := b
  cases exact with
  | some exact =>
    exact alternatives?_countedText hfuel (bounds?_exact (h.exact_lt exact rfl) _)
  | none =>
    cases max with
    | some max =>
      have hbounds := bounds?_between (h.max_lt max rfl) (h.uncrossed max rfl) (')' :: rest)
      rw [← List.cons_append, ← List.append_assoc] at hbounds
      exact alternatives?_countedText hfuel hbounds
    | none =>
      have hbounds := bounds?_atLeast h.min_lt (')' :: rest)
      refine alternatives?_countedText hfuel ?_
      rw [List.append_assoc]
      exact hbounds

theorem alternatives?_path {fuel : Nat} (hfuel : 6 ≤ fuel) (rest : List Char) :
    alternatives? fuel {} (path.expressionText ++ ')' :: rest) =
      some (path.tree, ')' :: rest) := by
  obtain ⟨fuel, rfl⟩ := Nat.exists_eq_add_of_le' hfuel
  apply alternatives?_of_items?
  show items? (fuel + 5) {} [] ("[^/]".toList ++ ('.' :: '*' :: '?' :: ')' :: rest)) = _
  rw [items?_notSlash, items?_point, items?_lazyStar, items?_close]
  rfl

theorem alternatives?_int (b : IntBounds) {fuel : Nat} (hfuel : 5 ≤ fuel) (rest : List Char) :
    alternatives? fuel {} ((int b).expressionText ++ ')' :: rest) =
      some ((int b).tree, ')' :: rest) := by
  obtain ⟨fuel, rfl⟩ := Nat.exists_eq_add_of_le' hfuel
  apply alternatives?_of_items?
  show items? (fuel + 4) {} [] ("[0-9]+".toList ++ (')' :: rest)) = _
  rw [items?_number (by simp), items?_close]
  rfl

theorem alternatives?_float (b : FloatBounds) {fuel : Nat} (hfuel : 8 ≤ fuel) (rest : List Char) :
    alternatives? fuel {} ((float b).expressionText ++ ')' :: rest) =
      some ((float b).tree, ')' :: rest) := by
  obtain ⟨fuel, rfl⟩ := Nat.exists_eq_add_of_le' hfuel
  apply alternatives?_of_items?
  show items? (fuel + 7) {} []
    ("[0-9]+".toList ++ ('\\' :: '.' :: ("[0-9]+".toList ++ (')' :: rest)))) = _
  rw [items?_number (by simp), items?_escaped (by decide), items?_number (by simp), items?_close]
  rfl

theorem alternatives?_uuid {fuel : Nat} (hfuel : 20 ≤ fuel) (rest : List Char) :
    alternatives? fuel {} (uuid.expressionText ++ ')' :: rest) =
      some (uuid.tree, ')' :: rest) := by
  obtain ⟨fuel, rfl⟩ := Nat.exists_eq_add_of_le' hfuel
  have hgroups : uuid.expressionText = hexadecimalText 8 ++ (['-'] ++ (hexadecimalText 4 ++
      (['-'] ++ (hexadecimalText 4 ++ (['-'] ++ (hexadecimalText 4 ++ (['-'] ++
        (hexadecimalText 12 ++ [])))))))) := rfl
  have htext : uuid.expressionText ++ ')' :: rest =
      hexadecimalText 8 ++ ('-' :: (hexadecimalText 4 ++ ('-' :: (hexadecimalText 4 ++
        ('-' :: (hexadecimalText 4 ++ ('-' :: (hexadecimalText 12 ++ ')' :: rest)))))))) := by
    simp only [hgroups, List.append_assoc, List.cons_append, List.nil_append]
  apply alternatives?_of_items?
  rw [htext, items?_hexadecimals (by decide) (by simp), items?_char (by decide),
    items?_hexadecimals (by decide) (by simp), items?_char (by decide),
    items?_hexadecimals (by decide) (by simp), items?_char (by decide),
    items?_hexadecimals (by decide) (by simp), items?_char (by decide),
    items?_hexadecimals (by decide) (by simp), items?_close]
  rfl

theorem alternatives?_any {items : List String} (h : items ≠ []) {fuel : Nat}
    (hfuel : (any items).expressionText.length + 5 ≤ fuel) (rest : List Char) :
    alternatives? fuel {} ((any items).expressionText ++ ')' :: rest) =
      some ((any items).tree, ')' :: rest) := by
  have htext : (any items).expressionText = "(?:".toList ++
      (['|'].intercalate ((items.map String.toList).map escape) ++ [')']) := by
    rw [List.map_map, ← List.append_assoc]
    rfl
  have hne : items.map String.toList ≠ [] := fun hnil => h (List.map_eq_nil_iff.1 hnil)
  rw [htext] at hfuel ⊢
  rw [List.length_append, List.length_append] at hfuel
  obtain ⟨fuel, rfl⟩ : ∃ f, fuel = f + 3 := ⟨fuel - 3, by omega⟩
  have hitems := @alternatives?_anyOf _ hne (fuel + 1) (by omega) (')' :: rest)
  apply alternatives?_of_items?
  rw [List.append_assoc, List.append_assoc, List.singleton_append, items?_plainGroup hitems,
    items?_close, ofItems_singleton]
  rfl

/-- The body of a group reads as the tree of its converter. -/
theorem alternatives?_expressionText {c : Converter} (h : c.IsProper) {fuel : Nat}
    (hfuel : c.expressionText.length + 20 ≤ fuel) (rest : List Char) :
    alternatives? fuel {} (c.expressionText ++ ')' :: rest) = some (c.tree, ')' :: rest) := by
  cases c with
  | string b => exact alternatives?_string h (by omega) rest
  | any items => exact alternatives?_any h (by omega) rest
  | path => exact alternatives?_path (by omega) rest
  | int b => exact alternatives?_int b (by omega) rest
  | float b => exact alternatives?_float b (by omega) rest
  | uuid => exact alternatives?_uuid (by omega) rest

end Converter

end UrlRouting
