import Mathlib.Data.List.Basic
import Mathlib.Data.List.TakeWhile
import UrlRouting.Converter.Lengths
import UrlRouting.Proofs.Decimal.Digits

/-
  What a converter accepts, and which of two texts it would rather have.
  `Accepts` and `Prefers` say it of whole texts. `mem_lengths_iff` reads the list of lengths as the
  first parts of a text that are accepted, and `prefers_of_lengths` its order as the preference: of
  two lengths the earlier is preferred, unless the list has the later one earlier as well.
-/

namespace UrlRouting

/-! ## Languages -/

/-- Whether a number of characters is within the bounds. -/
def LengthBounds.Allows (b : LengthBounds) (n : Nat) : Prop :=
  match b.exact with
  | some exact => n = exact
  | none => b.min ≤ n ∧ ∀ max, b.max = some max → n ≤ max

namespace Uuid

def isHexDigit (c : Char) : Bool := c ∈ "0123456789ABCDEFabcdef".toList

/-- A number of hexadecimal digits. -/
def IsGroup (n : Nat) (text : List Char) : Prop := text.length = n ∧ ∀ c ∈ text, isHexDigit c

/-- Groups of 8, 4, 4, 4 and 12 digits with hyphens between them. -/
def IsHyphenated (text : List Char) : Prop :=
  ∃ a b c d e, text = a ++ '-' :: (b ++ '-' :: (c ++ '-' :: (d ++ '-' :: e))) ∧
    IsGroup 8 a ∧ IsGroup 4 b ∧ IsGroup 4 c ∧ IsGroup 4 d ∧ IsGroup 12 e

end Uuid

namespace Converter

/-- The texts that a variable may have. -/
def Accepts : Converter → List Char → Prop
  | string b, text => '/' ∉ text ∧ b.Allows text.length
  | any items, text => String.ofList text ∈ items
  | path, text => ∃ c rest, text = c :: rest ∧ c ≠ '/' ∧ '\n' ∉ rest
  | int _, text => Decimal.isDigits text
  | float _, text => ∃ whole part, text = whole ++ '.' :: part ∧
      Decimal.isDigits whole ∧ Decimal.isDigits part
  | uuid, text => Uuid.IsHyphenated text

/-- Whether the first of two texts is tried before the second. -/
def Prefers : Converter → List Char → List Char → Prop
  | string _, s, t | int _, s, t | float _, s, t => t.length < s.length
  | path, s, t => s.length < t.length
  | any items, s, t => items.idxOf (String.ofList s) < items.idxOf (String.ofList t)
  | uuid, _, _ => False

end Converter

/-! ## Runs of characters -/

theorem le_runLength_iff {p : Char → Bool} {text : List Char} {n : Nat} :
    n ≤ runLength p text ↔ n ≤ text.length ∧ ∀ c ∈ text.take n, p c = true := by
  unfold runLength
  induction text generalizing n with
  | nil => simp
  | cons d text ih =>
    cases n with
    | zero => simp
    | succ n =>
      by_cases hd : p d = true
      · rw [List.takeWhile_cons_of_pos hd]
        simp only [List.length_cons, Nat.add_le_add_iff_right, List.take_succ_cons,
          List.forall_mem_cons, hd, true_and, ih]
      · rw [List.takeWhile_cons_of_neg hd]
        simp [hd]

theorem le_runLength_ne_iff {c : Char} {text : List Char} {n : Nat} :
    n ≤ runLength (· ≠ c) text ↔ n ≤ text.length ∧ c ∉ text.take n := by
  rw [le_runLength_iff]
  simp [List.forall_mem_ne']

/-- A run goes on through what satisfies `p` and ends at a character that does not. -/
theorem runLength_append_cons {p : Char → Bool} {front rest : List Char} {c : Char}
    (hfront : ∀ d ∈ front, p d = true) (hc : p c = false) :
    runLength p (front ++ c :: rest) = front.length := by
  unfold runLength
  rw [List.takeWhile_append_of_pos hfront, List.takeWhile_cons_of_neg (by simp [hc]),
    List.append_nil]

theorem pairwise_upward (low high : Nat) : (upward low high).Pairwise (· < ·) :=
  List.pairwise_lt_range'

theorem pairwise_downward (high low : Nat) : (downward high low).Pairwise (· > ·) :=
  List.pairwise_reverse.2 (pairwise_upward low high)

/-! ## The lengths that are accepted -/

theorem LengthBounds.mem_lengths_iff {b : LengthBounds} {text : List Char} {n : Nat} :
    n ∈ b.lengths text ↔ n ≤ text.length ∧ '/' ∉ text.take n ∧ b.Allows (text.take n).length := by
  unfold lengths
  rw [mem_downward, ← and_assoc, ← le_runLength_ne_iff]
  constructor
  · rintro ⟨hleast, hmost⟩
    have hle : n ≤ runLength (· ≠ '/') text := by
      cases hg : b.greatest? with
      | none => simpa [hg] using hmost
      | some g =>
        rw [hg] at hmost
        exact Nat.le_trans hmost (Nat.min_le_left _ _)
    refine ⟨hle, ?_⟩
    rw [List.length_take_of_le (le_runLength_ne_iff.1 hle).1]
    unfold least at hleast
    unfold greatest? at hmost
    unfold Allows
    cases he : b.exact with
    | some e =>
      simp only [he, Option.some_or, Option.map_some, Option.getD_some] at hleast hmost
      have hmin := Nat.min_le_right (runLength (· ≠ '/') text) e
      exact Nat.le_antisymm (Nat.le_trans hmost hmin) hleast
    | none =>
      simp only [he, Option.none_or, Option.getD_none] at hleast hmost
      refine ⟨hleast, ?_⟩
      intro max hmax
      rw [hmax] at hmost
      exact Nat.le_trans hmost (Nat.min_le_right _ _)
  · rintro ⟨hle, hallows⟩
    rw [List.length_take_of_le (le_runLength_ne_iff.1 hle).1] at hallows
    unfold Allows at hallows
    unfold least greatest?
    cases he : b.exact with
    | some e =>
      rw [he] at hallows
      obtain rfl : n = e := hallows
      exact ⟨Nat.le_refl n, Nat.le_min.2 ⟨hle, Nat.le_refl n⟩⟩
    | none =>
      rw [he] at hallows
      obtain ⟨hmin, hmax⟩ := hallows
      refine ⟨hmin, ?_⟩
      cases hm : b.max with
      | none => exact hle
      | some max => exact Nat.le_min.2 ⟨hle, hmax max hm⟩

namespace Converter

theorem isPrefixOf_iff_take {t text : List Char} :
    t.isPrefixOf text = true ↔ t.length ≤ text.length ∧ text.take t.length = t := by
  rw [List.isPrefixOf_iff_prefix]
  constructor
  · intro h
    exact ⟨h.length_le, (List.prefix_iff_eq_take.1 h).symm⟩
  · intro h
    exact List.prefix_iff_eq_take.2 h.2.symm

theorem mem_itemLengths_iff {items : List String} {text : List Char} {n : Nat} :
    n ∈ itemLengths items text ↔ n ≤ text.length ∧ String.ofList (text.take n) ∈ items := by
  unfold itemLengths
  rw [List.mem_map]
  constructor
  · rintro ⟨item, hitem, rfl⟩
    obtain ⟨hmem, hprefix⟩ := List.mem_filter.1 hitem
    obtain ⟨hle, htake⟩ := isPrefixOf_iff_take.1 hprefix
    rw [htake, String.ofList_toList]
    exact ⟨hle, hmem⟩
  · rintro ⟨hle, hmem⟩
    have hlen : (text.take n).length = n := List.length_take_of_le hle
    refine ⟨String.ofList (text.take n), List.mem_filter.2 ⟨hmem, ?_⟩, ?_⟩
    · rw [String.toList_ofList]
      exact List.isPrefixOf_iff_prefix.2 (List.take_prefix n text)
    · rw [String.toList_ofList, hlen]

theorem mem_pathLengths_iff {text : List Char} {n : Nat} :
    n ∈ pathLengths text ↔ n ≤ text.length ∧
      ∃ c rest, text.take n = c :: rest ∧ c ≠ '/' ∧ '\n' ∉ rest := by
  cases text with
  | nil => simp [pathLengths]
  | cons d text =>
    show n ∈ (if d = '/' then [] else upward 1 (1 + runLength (· ≠ '\n') text)) ↔ _
    by_cases hd : d = '/'
    · rw [if_pos hd]
      cases n with
      | zero => simp
      | succ n => simp [hd]
    · rw [if_neg hd, mem_upward]
      cases n with
      | zero => simp
      | succ n =>
        rw [Nat.add_comm 1, Nat.add_le_add_iff_right, le_runLength_ne_iff, List.take_succ_cons,
          List.length_cons, Nat.add_le_add_iff_right]
        constructor
        · rintro ⟨-, hle, hline⟩
          exact ⟨hle, d, _, rfl, hd, hline⟩
        · rintro ⟨hle, c, rest, htake, -, hline⟩
          obtain ⟨-, rfl⟩ := List.cons.inj htake
          exact ⟨Nat.le_add_left 1 n, hle, hline⟩

theorem mem_intLengths_iff {text : List Char} {n : Nat} :
    n ∈ intLengths text ↔ n ≤ text.length ∧ Decimal.isDigits (text.take n) = true := by
  unfold intLengths
  rw [mem_downward, le_runLength_iff, Decimal.isDigits_iff]
  constructor
  · rintro ⟨hpos, hle, hall⟩
    rw [List.length_take_of_le hle]
    exact ⟨hle, hpos, hall⟩
  · rintro ⟨hle, hpos, hall⟩
    rw [List.length_take_of_le hle] at hpos
    exact ⟨hpos, hle, hall⟩

/-- What stands before the point is all the digits that the text begins with. -/
theorem floatLengths_append_point {whole rest : List Char} (h : Decimal.isDigits whole = true) :
    floatLengths (whole ++ '.' :: rest) =
      (downward (runLength Char.isDigit rest) 1).map (whole.length + 1 + ·) := by
  obtain ⟨hpos, hall⟩ := Decimal.isDigits_iff.1 h
  have hrun : runLength Char.isDigit (whole ++ '.' :: rest) = whole.length :=
    runLength_append_cons hall (by decide)
  have hne : whole.length ≠ 0 := Nat.ne_of_gt hpos
  unfold floatLengths
  simp only [hrun, List.drop_left, hne, ↓reduceIte]

theorem point_of_mem_floatLengths {text : List Char} {n : Nat} (h : n ∈ floatLengths text) :
    ∃ whole rest, text = whole ++ '.' :: rest ∧ Decimal.isDigits whole = true := by
  simp only [floatLengths] at h
  split at h
  next rest hpoint =>
    split at h
    · cases h
    next hne =>
      refine ⟨text.take (runLength Char.isDigit text), rest, ?_, ?_⟩
      · rw [← hpoint, List.take_append_drop]
      · obtain ⟨hle, hall⟩ := le_runLength_iff.1 (Nat.le_refl (runLength Char.isDigit text))
        rw [Decimal.isDigits_iff, List.length_take_of_le hle]
        exact ⟨Nat.pos_of_ne_zero hne, hall⟩
  · cases h

theorem mem_floatLengths_iff {text : List Char} {n : Nat} :
    n ∈ floatLengths text ↔ n ≤ text.length ∧ ∃ whole part, text.take n = whole ++ '.' :: part ∧
      Decimal.isDigits whole = true ∧ Decimal.isDigits part = true := by
  constructor
  · intro h
    obtain ⟨whole, rest, rfl, hwhole⟩ := point_of_mem_floatLengths h
    rw [floatLengths_append_point hwhole, List.mem_map] at h
    obtain ⟨m, hm, rfl⟩ := h
    have hm' : m ∈ intLengths rest := hm
    obtain ⟨hle, hpart⟩ := mem_intLengths_iff.1 hm'
    refine ⟨?_, whole, rest.take m, ?_, hwhole, hpart⟩
    · rw [List.length_append, List.length_cons]
      omega
    · rw [Nat.add_assoc, List.take_length_add_append, Nat.add_comm 1, List.take_succ_cons]
  · rintro ⟨hle, whole, part, htake, hwhole, hpart⟩
    have htext : text = whole ++ '.' :: (part ++ text.drop n) := by
      rw [← List.cons_append, ← List.append_assoc, ← htake, List.take_append_drop]
    have hn : n = whole.length + 1 + part.length := by
      have hlen := congrArg List.length htake
      rw [List.length_take_of_le hle, List.length_append, List.length_cons] at hlen
      omega
    rw [htext, floatLengths_append_point hwhole, List.mem_map]
    refine ⟨part.length, ?_, hn.symm⟩
    show part.length ∈ intLengths (part ++ text.drop n)
    rw [mem_intLengths_iff, List.take_left]
    exact ⟨by rw [List.length_append]; omega, hpart⟩

end Converter

/-! ## Identifiers -/

namespace Uuid

theorem isSome_hexValue?_iff {c : Char} :
    (Text.hexValue? c).isSome = true ↔ isHexDigit c = true := by
  unfold Text.hexValue? isHexDigit
  split <;> simp_all

theorem isSome_fill?_digits {n : Nat} {places : List Place} {text : List Char} :
    (fill? (List.replicate n .digit ++ places) text).isSome = true ↔
      ∃ group rest, text = group ++ rest ∧ IsGroup n group ∧ (fill? places rest).isSome = true := by
  induction n generalizing text with
  | zero =>
    constructor
    · intro h
      exact ⟨[], text, rfl, ⟨rfl, by simp⟩, h⟩
    · rintro ⟨group, rest, rfl, ⟨hlen, -⟩, h⟩
      obtain rfl := List.eq_nil_of_length_eq_zero hlen
      exact h
  | succ n ih =>
    rw [List.replicate_succ, List.cons_append]
    constructor
    · intro h
      cases text with
      | nil => cases h
      | cons c text =>
        obtain ⟨ds, hds⟩ := Option.isSome_iff_exists.1 h
        simp only [fill?, Option.bind_eq_bind, Option.bind_eq_some_iff] at hds
        obtain ⟨d, hd, more, hmore, -⟩ := hds
        obtain ⟨group, rest, rfl, ⟨hlen, hall⟩, hrest⟩ :=
          ih.1 (Option.isSome_iff_exists.2 ⟨more, hmore⟩)
        have hc := isSome_hexValue?_iff.1 (Option.isSome_iff_exists.2 ⟨d, hd⟩)
        exact ⟨c :: group, rest, rfl, ⟨congrArg (· + 1) hlen, List.forall_mem_cons.2 ⟨hc, hall⟩⟩,
          hrest⟩
    · rintro ⟨group, rest, rfl, ⟨hlen, hall⟩, hrest⟩
      cases group with
      | nil => cases hlen
      | cons c group =>
        obtain ⟨hc, hall⟩ := List.forall_mem_cons.1 hall
        obtain ⟨d, hd⟩ := Option.isSome_iff_exists.1 (isSome_hexValue?_iff.2 hc)
        have hgroup : IsGroup n group := ⟨Nat.succ.inj hlen, hall⟩
        obtain ⟨ds, hds⟩ := Option.isSome_iff_exists.1 (ih.2 ⟨group, rest, rfl, hgroup, hrest⟩)
        simp [fill?, hd, hds]

theorem isSome_fill?_hyphen {places : List Place} {text : List Char} :
    (fill? (.hyphen :: places) text).isSome = true ↔
      ∃ rest, text = '-' :: rest ∧ (fill? places rest).isSome = true := by
  cases text with
  | nil => simp [fill?]
  | cons c text =>
    by_cases hc : c = '-'
    · simp [fill?, hc]
    · simp [fill?, hc]

theorem isSome_ofHyphenated? (text : List Char) :
    (ofHyphenated? text).isSome = (fill? hyphenated text).isSome := by
  unfold ofHyphenated? ofLayout?
  split
  next hs => simp [hs]
  next hn => simp [hn]

theorem isSome_ofHyphenated?_iff {text : List Char} :
    (ofHyphenated? text).isSome = true ↔ IsHyphenated text := by
  have hlast : ∀ rest : List Char, (fill? [] rest).isSome = true ↔ rest = [] := by
    intro rest
    cases rest <;> simp [fill?]
  have hlayout : hyphenated = List.replicate 8 Place.digit ++ Place.hyphen ::
      (List.replicate 4 Place.digit ++ Place.hyphen :: (List.replicate 4 Place.digit ++
      Place.hyphen :: (List.replicate 4 Place.digit ++ Place.hyphen ::
      (List.replicate 12 Place.digit ++ [])))) := rfl
  rw [isSome_ofHyphenated?, hlayout]
  simp only [isSome_fill?_digits, isSome_fill?_hyphen, hlast]
  unfold IsHyphenated
  constructor
  · rintro ⟨a, _, rfl, ha, _, rfl, b, _, rfl, hb, _, rfl, c, _, rfl, hc, _, rfl, d, _, rfl, hd, _,
      rfl, e, _, rfl, he, rfl⟩
    exact ⟨a, b, c, d, e, by rw [List.append_nil], ha, hb, hc, hd, he⟩
  · rintro ⟨a, b, c, d, e, rfl, ha, hb, hc, hd, he⟩
    exact ⟨a, _, rfl, ha, _, rfl, b, _, rfl, hb, _, rfl, c, _, rfl, hc, _, rfl, d, _, rfl, hd, _,
      rfl, e, [], (List.append_nil e).symm, he, rfl⟩

theorem length_of_isHyphenated {text : List Char} (h : IsHyphenated text) :
    text.length = hyphenated.length := by
  obtain ⟨u, hu⟩ := Option.isSome_iff_exists.1 (isSome_ofHyphenated?_iff.2 h)
  exact length_of_ofHyphenated? hu

end Uuid

namespace Converter

theorem mem_uuidLengths_iff {text : List Char} {n : Nat} :
    n ∈ uuidLengths text ↔ n ≤ text.length ∧ Uuid.IsHyphenated (text.take n) := by
  have hmem : n ∈ uuidLengths text ↔
      n = Uuid.hyphenated.length ∧ Uuid.IsHyphenated (text.take Uuid.hyphenated.length) := by
    simp only [uuidLengths, ← Uuid.isSome_ofHyphenated?_iff]
    split
    next hs => simp [hs]
    next hn => simp [hn]
  rw [hmem]
  constructor
  · rintro ⟨rfl, h⟩
    have hlen := Uuid.length_of_isHyphenated h
    rw [List.length_take] at hlen
    exact ⟨by omega, h⟩
  · rintro ⟨hle, h⟩
    have hlen := Uuid.length_of_isHyphenated h
    rw [List.length_take_of_le hle] at hlen
    rw [← hlen]
    exact ⟨rfl, h⟩

/-- The lengths are those of the first parts that the converter accepts. -/
theorem mem_lengths_iff {c : Converter} {text : List Char} {n : Nat} :
    n ∈ c.lengths text ↔ n ≤ text.length ∧ c.Accepts (text.take n) := by
  cases c with
  | string b => exact LengthBounds.mem_lengths_iff
  | any items => exact mem_itemLengths_iff
  | path => exact mem_pathLengths_iff
  | int _ => exact mem_intLengths_iff
  | float _ => exact mem_floatLengths_iff
  | uuid => exact mem_uuidLengths_iff

/-! ## The order of the lengths -/

/-- What is found only behind `s` has a higher index than `s`. -/
theorem idxOf_lt_idxOf {before after : List String} {s t : String} (ht : t ∉ before)
    (hne : t ≠ s) : (before ++ s :: after).idxOf s < (before ++ s :: after).idxOf t := by
  have hs : (before ++ s :: after).idxOf s ≤ before.length := by
    rw [List.idxOf_append]
    split
    next hmem => exact Nat.le_of_lt (List.idxOf_lt_length_of_mem hmem)
    · rw [List.idxOf_cons_self, Nat.zero_add]
  have ht' : (before ++ s :: after).idxOf t = after.idxOf t + 1 + before.length := by
    rw [List.idxOf_append, if_neg ht, List.idxOf_cons_ne _ hne.symm]
  omega

theorem prefers_of_itemLengths {items : List String} {text : List Char} {n m : Nat}
    {front back : List Nat} (h : itemLengths items text = front ++ n :: back) (hm : m ∈ back)
    (hfront : m ∉ front) : m = n ∨ (any items).Prefers (text.take n) (text.take m) := by
  unfold itemLengths at h
  obtain ⟨earlier, others, hfilter, hearlier, hothers⟩ := List.map_eq_append_iff.1 h
  obtain ⟨s, later, rfl, rfl, hlater⟩ := List.map_eq_cons_iff.1 hothers
  obtain ⟨before, rest, rfl, hbefore, hrest⟩ := List.filter_eq_append_iff.1 hfilter
  obtain ⟨skipped, after, rfl, hskipped, hs, hafter⟩ := List.filter_eq_cons_iff.1 hrest
  rw [← hlater] at hm
  obtain ⟨t, ht, rfl⟩ := List.mem_map.1 hm
  have htext : t.toList.isPrefixOf text = true := by
    rw [← hafter] at ht
    exact (List.mem_filter.1 ht).2
  by_cases hst : t = s
  · exact .inl (by rw [hst])
  · right
    have htbefore : t ∉ before := by
      intro hmem
      apply hfront
      rw [← hearlier, ← hbefore]
      exact List.mem_map.2 ⟨t, List.mem_filter.2 ⟨hmem, htext⟩, rfl⟩
    have htskipped : t ∉ skipped := fun hmem => hskipped t hmem htext
    have hlt : (before ++ skipped ++ s :: after).idxOf s <
        (before ++ skipped ++ s :: after).idxOf t := by
      apply idxOf_lt_idxOf _ hst
      rw [List.mem_append]
      exact fun hmem => hmem.elim htbefore htskipped
    show List.idxOf _ _ < List.idxOf _ _
    rw [(isPrefixOf_iff_take.1 hs).2, (isPrefixOf_iff_take.1 htext).2, String.ofList_toList,
      String.ofList_toList, ← List.append_assoc]
    exact hlt

theorem pairwise_floatLengths (text : List Char) : (floatLengths text).Pairwise (· > ·) := by
  cases h : floatLengths text with
  | nil => exact .nil
  | cons n ns =>
    obtain ⟨whole, rest, rfl, hwhole⟩ := point_of_mem_floatLengths (h ▸ List.mem_cons_self)
    rw [← h, floatLengths_append_point hwhole, List.pairwise_map]
    refine (pairwise_downward _ _).imp ?_
    intro a b hab
    exact Nat.add_lt_add_left hab _

/-- Of two lengths the earlier is the one of the preferred text, if the later does not stand before
it as well. -/
theorem prefers_of_lengths {c : Converter} {text : List Char} {n m : Nat} {front back : List Nat}
    (h : c.lengths text = front ++ n :: back) (hm : m ∈ back) (hfront : m ∉ front) :
    m = n ∨ c.Prefers (text.take n) (text.take m) := by
  have hn : n ≤ text.length := le_length_of_mem_lengths (c := c) (by simp [h])
  have hm' : m ≤ text.length := le_length_of_mem_lengths (c := c) (by simp [h, hm])
  have horder : ∀ R : Nat → Nat → Prop, (c.lengths text).Pairwise R → R n m := by
    intro R hR
    rw [h] at hR
    exact List.rel_of_pairwise_cons (List.pairwise_append.1 hR).2.1 hm
  have hshorter : n > m → (text.take m).length < (text.take n).length := by
    rw [List.length_take_of_le hn, List.length_take_of_le hm']
    exact id
  cases c with
  | string b => exact .inr (hshorter (horder _ (pairwise_downward _ _)))
  | any items => exact prefers_of_itemLengths h hm hfront
  | path =>
    have hup : (pathLengths text).Pairwise (· < ·) := by
      unfold pathLengths
      split
      · exact .nil
      · split
        · exact .nil
        · exact pairwise_upward _ _
    right
    show (text.take n).length < (text.take m).length
    rw [List.length_take_of_le hn, List.length_take_of_le hm']
    exact horder _ hup
  | int _ => exact .inr (hshorter (horder _ (pairwise_downward _ _)))
  | float _ => exact .inr (hshorter (horder _ (pairwise_floatLengths text)))
  | uuid =>
    left
    have hlen : ∀ k ∈ uuidLengths text, k = Uuid.hyphenated.length := by
      intro k hk
      obtain ⟨hle, haccepts⟩ := mem_uuidLengths_iff.1 hk
      rw [← Uuid.length_of_isHyphenated haccepts, List.length_take_of_le hle]
    have hmem : ∀ k, k = n ∨ k = m → k ∈ uuidLengths text := by
      intro k hk
      show k ∈ uuid.lengths text
      rw [h]
      rcases hk with rfl | rfl
      · simp
      · simp [hm]
    rw [hlen n (hmem n (.inl rfl)), hlen m (hmem m (.inr rfl))]

end Converter

end UrlRouting
