import UrlRouting.Converter.Lengths

/-
  Dividing a text among the pieces of a pattern.
  `firstSplit` tries the lengths of the first piece in their order and takes the first that
  leaves a text the other pieces can divide: the result is the division that comes first when
  divisions are compared piece by piece from the left. `splitTable` computes it for every last
  part of the text at once, so that no part is divided twice; `divide_eq_firstSplit` says that the
  two agree.
-/

namespace UrlRouting

/-- A piece of a pattern. -/
inductive Piece where
  | literal (text : List Char)
  | capture (converter : Converter)
  /-- A slash if there is one. -/
  | optionalSlash
  deriving DecidableEq

namespace Piece

/-- The lengths of the first parts of a text that the piece may take, best first. -/
def lengths (p : Piece) (text : List Char) : List Nat :=
  match p with
  | literal t => if t.isPrefixOf text then [t.length] else []
  | capture c => c.lengths text
  | optionalSlash => if text.head? = some '/' then [1, 0] else [0]

theorem le_length_of_mem_lengths {p : Piece} {text : List Char} {n : Nat}
    (h : n ∈ p.lengths text) : n ≤ text.length := by
  cases p with
  | literal t =>
    simp only [lengths] at h
    split at h
    next hp =>
      obtain rfl : n = t.length := by simpa using h
      exact (List.isPrefixOf_iff_prefix.1 hp).length_le
    · simp at h
  | capture c => exact Converter.le_length_of_mem_lengths h
  | optionalSlash =>
    simp only [lengths] at h
    split at h
    next hs =>
      cases text with
      | nil => simp at hs
      | cons c rest =>
        have : n = 1 ∨ n = 0 := by simpa using h
        simp only [List.length_cons]
        omega
    · obtain rfl : n = 0 := by simpa using h
      exact Nat.zero_le _

end Piece

/-- The first division of `text` among the pieces. -/
def firstSplit : List Piece → List Char → Option (List (List Char))
  | [], text => if text.isEmpty then some [] else none
  | p :: ps, text =>
    (p.lengths text).findSome? fun n => (firstSplit ps (text.drop n)).map (text.take n :: ·)

/-- The first division of every last part of `text`; entry `i` is for what follows the first `i`
characters. -/
def splitTable (text : List Char) : List Piece → Array (Option (List (List Char)))
  | [] => Array.ofFn fun i : Fin (text.length + 1) => if i = text.length then some [] else none
  | p :: ps =>
    let later := splitTable text ps
    Array.ofFn fun i : Fin (text.length + 1) =>
      let part := text.drop i
      (p.lengths part).findSome? fun n =>
        (later[i.val + n]?.join).map (part.take n :: ·)

/-- The first division of `text` among the pieces, by the table. -/
def divide (pieces : List Piece) (text : List Char) : Option (List (List Char)) :=
  (splitTable text pieces)[0]?.join

theorem findSome?_eq_of_forall_mem {α β : Type} {f g : α → Option β} {xs : List α}
    (h : ∀ x ∈ xs, f x = g x) : xs.findSome? f = xs.findSome? g := by
  induction xs with
  | nil => rfl
  | cons x xs ih =>
    simp only [List.findSome?_cons, h x List.mem_cons_self]
    rw [ih fun y hy => h y (List.mem_cons_of_mem _ hy)]

theorem getElem?_splitTable (text : List Char) (pieces : List Piece) (i : Nat)
    (hi : i ≤ text.length) :
    (splitTable text pieces)[i]? = some (firstSplit pieces (text.drop i)) := by
  induction pieces generalizing i with
  | nil =>
    have h1 : i < text.length + 1 := Nat.lt_succ_of_le hi
    simp only [splitTable, firstSplit, Array.getElem?_ofFn, h1, ↓reduceDIte, List.isEmpty_iff,
      List.drop_eq_nil_iff, Option.some.injEq]
    by_cases he : i = text.length
    · simp [he]
    · have : ¬ text.length ≤ i := by omega
      simp [he, this]
  | cons p ps ih =>
    have h1 : i < text.length + 1 := Nat.lt_succ_of_le hi
    simp only [splitTable, firstSplit, Array.getElem?_ofFn, h1, ↓reduceDIte, Option.some.injEq]
    apply findSome?_eq_of_forall_mem
    intro n hn
    have hl := Piece.le_length_of_mem_lengths hn
    rw [List.length_drop] at hl
    rw [ih (i + n) (by omega), List.drop_drop]
    rfl

theorem divide_eq_firstSplit (pieces : List Piece) (text : List Char) :
    divide pieces text = firstSplit pieces text := by
  simp [divide, getElem?_splitTable]

end UrlRouting
