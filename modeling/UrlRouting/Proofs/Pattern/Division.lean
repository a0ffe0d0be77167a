import Mathlib.Data.List.Forall2
import UrlRouting.Pattern.Piece
import UrlRouting.Proofs.Converter.Language

/-
  The division that a text has among pieces is the best of all divisions it can have.
  `Divides` says what a division is and `Precedes` which of two comes first: at the first piece
  where they differ, the one whose text the piece prefers. `divides_of_firstSplit` is soundness;
  `firstSplit_of_divides` is completeness, and says that no division precedes the one found.
-/

namespace UrlRouting

/-! ## Divisions and their order -/

namespace Piece

/-- The texts that the piece may take. -/
def Accepts : Piece → List Char → Prop
  | literal t, text => text = t
  | capture c, text => c.Accepts text
  | optionalSlash, text => text = [] ∨ text = ['/']

/-- Whether the piece would take the first of two texts before the second. -/
def Prefers : Piece → List Char → List Char → Prop
  | literal _, _, _ => False
  | capture c, s, t => c.Prefers s t
  | optionalSlash, s, t => t.length < s.length

end Piece

/-- Whether the texts are accepted by the pieces, one by one, and make up the whole text. -/
def Divides (pieces : List Piece) (division : List (List Char)) (text : List Char) : Prop :=
  List.Forall₂ Piece.Accepts pieces division ∧ division.flatten = text

/-- Whether the first of two lists of texts is preferred where, from the left, they differ first. -/
inductive Precedes {α : Type} (Prefers : α → List Char → List Char → Prop) :
    List α → List (List Char) → List (List Char) → Prop where
  | here {a : α} {as : List α} {s t : List Char} {ss ts : List (List Char)} (h : Prefers a s t) :
      Precedes Prefers (a :: as) (s :: ss) (t :: ts)
  | later {a : α} {as : List α} {s : List Char} {ss ts : List (List Char)}
      (h : Precedes Prefers as ss ts) : Precedes Prefers (a :: as) (s :: ss) (s :: ts)

theorem divides_nil_iff {division : List (List Char)} {text : List Char} :
    Divides [] division text ↔ division = [] ∧ text = [] := by
  unfold Divides
  rw [List.forall₂_nil_left_iff]
  constructor
  · rintro ⟨rfl, rfl⟩
    exact ⟨rfl, rfl⟩
  · rintro ⟨rfl, rfl⟩
    exact ⟨rfl, rfl⟩

theorem divides_cons_iff {p : Piece} {ps : List Piece} {division : List (List Char)}
    {text : List Char} :
    Divides (p :: ps) division text ↔ ∃ t ts rest, division = t :: ts ∧ text = t ++ rest ∧
      p.Accepts t ∧ Divides ps ts rest := by
  unfold Divides
  rw [List.forall₂_cons_left_iff]
  constructor
  · rintro ⟨⟨t, ts, ht, hts, rfl⟩, rfl⟩
    exact ⟨t, ts, ts.flatten, rfl, rfl, ht, hts, rfl⟩
  · rintro ⟨t, ts, _, rfl, rfl, ht, hts, rfl⟩
    exact ⟨⟨t, ts, ht, hts, rfl⟩, rfl⟩

theorem divides_append {ps qs : List Piece} {d e : List (List Char)} {s t : List Char}
    (hd : Divides ps d s) (he : Divides qs e t) : Divides (ps ++ qs) (d ++ e) (s ++ t) := by
  refine ⟨List.rel_append hd.1 he.1, ?_⟩
  rw [List.flatten_append, hd.2, he.2]

/-- What is related to two lists, one behind the other, falls into two lists likewise. -/
theorem exists_append_of_forall₂ {α β : Type} {R : α → β → Prop} {as bs : List α} {cs : List β}
    (h : List.Forall₂ R (as ++ bs) cs) :
    ∃ ds es, cs = ds ++ es ∧ List.Forall₂ R as ds ∧ List.Forall₂ R bs es := by
  induction as generalizing cs with
  | nil => exact ⟨[], cs, rfl, .nil, h⟩
  | cons a as ih =>
    obtain ⟨c, cs, hc, hcs, rfl⟩ := List.forall₂_cons_left_iff.1 h
    obtain ⟨ds, es, rfl, hds, hes⟩ := ih hcs
    exact ⟨c :: ds, es, rfl, .cons hc hds, hes⟩

theorem divides_append_iff {ps qs : List Piece} {division : List (List Char)} {text : List Char} :
    Divides (ps ++ qs) division text ↔ ∃ d e s t, division = d ++ e ∧ text = s ++ t ∧
      Divides ps d s ∧ Divides qs e t := by
  constructor
  · rintro ⟨haccepts, rfl⟩
    obtain ⟨d, e, rfl, hd, he⟩ := exists_append_of_forall₂ haccepts
    exact ⟨d, e, d.flatten, e.flatten, rfl, List.flatten_append, ⟨hd, rfl⟩, he, rfl⟩
  · rintro ⟨d, e, s, t, rfl, rfl, hd, he⟩
    exact divides_append hd he

theorem divides_singleton_iff {p : Piece} {division : List (List Char)} {text : List Char} :
    Divides [p] division text ↔ division = [text] ∧ p.Accepts text := by
  rw [divides_cons_iff]
  constructor
  · rintro ⟨t, ts, rest, rfl, rfl, ht, hts⟩
    obtain ⟨rfl, rfl⟩ := divides_nil_iff.1 hts
    rw [List.append_nil]
    exact ⟨rfl, ht⟩
  · rintro ⟨rfl, htext⟩
    exact ⟨text, [], [], rfl, (List.append_nil text).symm, htext, divides_nil_iff.2 ⟨rfl, rfl⟩⟩

theorem Divides.length_eq {pieces : List Piece} {division : List (List Char)} {text : List Char}
    (h : Divides pieces division text) : pieces.length = division.length := h.1.length_eq

/-! ## Lengths -/

namespace Piece

theorem mem_lengths_iff {p : Piece} {text : List Char} {n : Nat} :
    n ∈ p.lengths text ↔ n ≤ text.length ∧ p.Accepts (text.take n) := by
  cases p with
  | literal t =>
    show n ∈ (if t.isPrefixOf text then [t.length] else []) ↔ n ≤ text.length ∧ text.take n = t
    constructor
    · intro h
      split at h
      next hprefix =>
        obtain rfl := List.mem_singleton.1 h
        exact Converter.isPrefixOf_iff_take.1 hprefix
      · cases h
    · rintro ⟨hle, rfl⟩
      rw [if_pos (List.isPrefixOf_iff_prefix.2 (List.take_prefix n text)),
        List.length_take_of_le hle]
      exact List.mem_singleton.2 rfl
  | capture c => exact Converter.mem_lengths_iff
  | optionalSlash =>
    show n ∈ (if text.head? = some '/' then [1, 0] else [0]) ↔
      n ≤ text.length ∧ (text.take n = [] ∨ text.take n = ['/'])
    cases text with
    | nil => simp
    | cons c text =>
      match n with
      | 0 => by_cases hc : c = '/' <;> simp [hc]
      | 1 => by_cases hc : c = '/' <;> simp [hc]
      | n + 2 =>
        cases text with
        | nil => by_cases hc : c = '/' <;> simp [hc]
        | cons d text => by_cases hc : c = '/' <;> simp [hc]

theorem prefers_of_lengths {p : Piece} {text : List Char} {n m : Nat} {front back : List Nat}
    (h : p.lengths text = front ++ n :: back) (hm : m ∈ back) (hfront : m ∉ front) :
    m = n ∨ p.Prefers (text.take n) (text.take m) := by
  cases p with
  | literal t =>
    left
    have hlen : ∀ k ∈ (literal t).lengths text, k = t.length := by
      intro k hk
      obtain ⟨hle, htake⟩ := mem_lengths_iff.1 hk
      rw [← List.length_take_of_le hle]
      exact congrArg List.length htake
    rw [h] at hlen
    rw [hlen n (by simp), hlen m (by simp [hm])]
  | capture c => exact Converter.prefers_of_lengths h hm hfront
  | optionalSlash =>
    right
    have horder : (optionalSlash.lengths text).Pairwise (· > ·) := by
      show (if text.head? = some '/' then [1, 0] else [0]).Pairwise (· > ·)
      split <;> simp
    have hn : n ≤ text.length := le_length_of_mem_lengths (p := optionalSlash) (by simp [h])
    rw [h] at horder
    have hlt : m < n := List.rel_of_pairwise_cons (List.pairwise_append.1 horder).2.1 hm
    show (text.take m).length < (text.take n).length
    rw [List.length_take_of_le hn, List.length_take_of_le (Nat.le_trans (Nat.le_of_lt hlt) hn)]
    exact hlt

end Piece

/-! ## The first division -/

theorem divides_of_firstSplit {pieces : List Piece} {text : List Char}
    {division : List (List Char)} (h : firstSplit pieces text = some division) :
    Divides pieces division text := by
  induction pieces generalizing text division with
  | nil =>
    simp only [firstSplit] at h
    split at h
    next hnil =>
      obtain rfl := Option.some.inj h
      exact divides_nil_iff.2 ⟨rfl, List.isEmpty_iff.1 hnil⟩
    · cases h
  | cons p ps ih =>
    simp only [firstSplit] at h
    obtain ⟨n, hn, hsplit⟩ := List.exists_of_findSome?_eq_some h
    obtain ⟨ts, hts, rfl⟩ := Option.map_eq_some_iff.1 hsplit
    exact divides_cons_iff.2 ⟨text.take n, ts, text.drop n, rfl,
      (List.take_append_drop n text).symm, (Piece.mem_lengths_iff.1 hn).2, ih hts⟩

/-- A text that can be divided is, and no division precedes the one it gets. -/
theorem firstSplit_of_divides {pieces : List Piece} {text : List Char}
    {division : List (List Char)} (h : Divides pieces division text) :
    ∃ first, firstSplit pieces text = some first ∧
      (first = division ∨ Precedes Piece.Prefers pieces first division) := by
  induction pieces generalizing text division with
  | nil =>
    obtain ⟨rfl, rfl⟩ := divides_nil_iff.1 h
    exact ⟨[], rfl, .inl rfl⟩
  | cons p ps ih =>
    obtain ⟨t, ts, rest, rfl, rfl, ht, hts⟩ := divides_cons_iff.1 h
    obtain ⟨first, hfirst, horder⟩ := ih hts
    have hmem : t.length ∈ p.lengths (t ++ rest) := by
      rw [Piece.mem_lengths_iff, List.take_left, List.length_append]
      exact ⟨Nat.le_add_right _ _, ht⟩
    have htry : (firstSplit ps ((t ++ rest).drop t.length)).map
        ((t ++ rest).take t.length :: ·) = some (t :: first) := by
      rw [List.drop_left, List.take_left, hfirst]
      rfl
    cases hfound : firstSplit (p :: ps) (t ++ rest) with
    | none =>
      -- the length of `t` is tried, and succeeds
      simp only [firstSplit] at hfound
      rw [List.findSome?_eq_none_iff.1 hfound _ hmem] at htry
      cases htry
    | some found =>
      refine ⟨found, rfl, ?_⟩
      simp only [firstSplit] at hfound
      obtain ⟨front, n, back, hlengths, hn, hfront⟩ := List.findSome?_eq_some_iff.1 hfound
      have hnot : t.length ∉ front := by
        intro hearly
        rw [hfront _ hearly] at htry
        cases htry
      by_cases heq : t.length = n
      · rw [heq] at htry
        rw [htry] at hn
        obtain rfl := Option.some.inj hn
        rcases horder with rfl | hlater
        · exact .inl rfl
        · exact .inr (.later hlater)
      · have hback : t.length ∈ back := by
          rw [hlengths] at hmem
          rcases List.mem_append.1 hmem with hearly | hmem
          · exact absurd hearly hnot
          · rcases List.mem_cons.1 hmem with hsame | hback
            · exact absurd hsame heq
            · exact hback
        obtain ⟨ss, -, rfl⟩ := Option.map_eq_some_iff.1 hn
        rcases Piece.prefers_of_lengths hlengths hback hnot with hsame | hprefers
        · exact absurd hsame heq
        · rw [List.take_left] at hprefers
          exact .inr (.here hprefers)

end UrlRouting
