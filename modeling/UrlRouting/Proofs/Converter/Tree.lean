import UrlRouting.Pattern.Expression
import UrlRouting.Proofs.Converter.Declared
import UrlRouting.Proofs.Expression.Repetition

/-
  The expression of a converter says what the converter does.
  `takes_tree`: it goes on by the lengths that the converter lists, in their order. Strings, digits
  and lines are repetitions of single characters, fixed texts are alternatives, and an identifier
  is one layout after another.
-/

namespace UrlRouting

/-! ## Sets -/

namespace CharSet

theorem contains_complement_singleton (d : Char) :
    (complement lastCode (singleton d)).contains = fun c => decide (c ≠ d) := by
  funext c
  have hc : c.toNat ≤ lastCode := by
    have hvalid : c.toNat.isValidChar := c.valid
    unfold Nat.isValidChar at hvalid
    unfold lastCode
    omega
  have heq : c = d ↔ c.toNat = d.toNat := Char.toNat_inj.symm
  rw [Bool.eq_iff_iff, decide_eq_true_iff, ne_eq, heq]
  unfold contains complement singleton
  simp only [gaps]
  split <;> split <;> simp [inRanges] <;> omega

theorem contains_asciiDigit : asciiDigit.contains = Char.isDigit := by
  funext c
  rw [Bool.eq_iff_iff, Char.isDigit_iff_toNat]
  simp [contains, asciiDigit, inRanges]

theorem contains_hexDigits :
    (CharSet.mk [(0x30, 0x39), (0x41, 0x46), (0x61, 0x66)]).contains = Uuid.isHexDigit := by
  funext c
  by_cases hc : c.toNat < 128
  · have hall : ∀ n : Fin 128, (CharSet.mk [(0x30, 0x39), (0x41, 0x46), (0x61, 0x66)]).contains
        (Char.ofNat n) = Uuid.isHexDigit (Char.ofNat n) := by decide +kernel
    have hn := hall ⟨c.toNat, hc⟩
    rwa [Char.ofNat_toNat] at hn
  · have hlist : Uuid.isHexDigit c = false := by
      have hascii : "0123456789ABCDEFabcdef".toList.all (·.toNat < 128) = true := by decide
      apply decide_eq_false
      intro hmem
      exact hc (of_decide_eq_true (List.all_eq_true.1 hascii c hmem))
    rw [hlist]
    simp [contains, inRanges]
    omega

end CharSet

namespace Expression

theorem ends_set (cs : CharSet) (text : List Char) :
    ends text.toArray (.set cs) = singleStep text cs.contains := by
  funext s
  rw [ends, List.getElem?_toArray]
  rfl

theorem ends_literal_singleton (c : Char) (text : List Char) :
    ends text.toArray (.literal [c]) = singleStep text (· = c) := by
  funext s
  rw [ends_literal]
  unfold singleStep
  rw [← List.head?_drop]
  cases text.drop s.pos with
  | nil => rfl
  | cons d rest =>
    by_cases hc : d = c
    · simp [hc]
    · simp [hc, Ne.symm hc]

theorem takes_set {cs : CharSet} {p : Char → Bool} (h : cs.contains = p) :
    Takes (.set cs) fun text => if text.head?.any p then [1] else [] := by
  apply takes_of_eq
  intro text s
  rw [ends_set, h, List.head?_drop]
  unfold singleStep
  split <;> rfl

theorem takes_times_set {cs : CharSet} {p : Char → Bool} (h : cs.contains = p) (greedy : Bool)
    {min : Nat} {max : Option Nat} (hmax : ∀ m, max = some m → min ≤ m) :
    Takes (.times min max greedy (.set cs)) fun text => ordered greedy (upward min
      ((max.map (Nat.min (runLength p text))).getD (runLength p text))) :=
  takes_times greedy hmax fun text => by rw [ends_set, h]

theorem takes_number : Takes number Converter.intLengths :=
  takes_times_set CharSet.contains_asciiDigit true (by simp)

/-! ## Fixed texts -/

theorem takes_anyOf {items : List String} (h : items ≠ []) :
    Takes (anyOf (items.map String.toList)) (Converter.itemLengths items) := by
  induction items with
  | nil => exact absurd rfl h
  | cons item items ih =>
    have hcons : ∀ text, Converter.itemLengths (item :: items) text =
        (if item.toList.isPrefixOf text then [item.toList.length] else []) ++
          Converter.itemLengths items text := by
      intro text
      unfold Converter.itemLengths
      rw [List.filter_cons]
      split <;> rfl
    rw [funext hcons]
    cases items with
    | nil =>
      simp only [Converter.itemLengths, List.filter_nil, List.map_nil, List.append_nil]
      exact takes_literal item.toList
    | cons other items => exact takes_alt (takes_literal item.toList) (ih (List.cons_ne_nil _ _))

/-! ## Paths and fractions -/

theorem takes_path : Takes Converter.path.tree Converter.pathLengths := by
  have hrest : Takes (.times 0 none false (.set .line)) _ :=
    takes_times_set (CharSet.contains_complement_singleton '\n') false (by simp)
  have hseq := takes_seq (takes_set (CharSet.contains_complement_singleton '/')) hrest
  refine hseq.congr ?_
  intro text
  cases text with
  | nil => rfl
  | cons c rest =>
    by_cases hc : c = '/'
    · simp [Converter.pathLengths, hc]
    · simp [Converter.pathLengths, hc, ordered, map_add_upward]

theorem takes_fraction (b : FloatBounds) :
    Takes (Converter.float b).tree Converter.floatLengths := by
  have hseq := takes_seq takes_number (takes_seq (takes_literal ['.']) takes_number)
  refine hseq.congr ?_
  intro text
  simp only [Converter.intLengths, Converter.floatLengths]
  cases hrun : runLength Char.isDigit text with
  | zero =>
    rw [downward_of_lt (by decide)]
    split <;> rfl
  | succ whole =>
    -- behind fewer than all of the digits there is another one, and no point
    have hfewer : ∀ n ∈ downward whole 1, ['.'].isPrefixOf (text.drop n) = false := by
      intro n hn
      have hle := (mem_downward.1 hn).2
      have hdrop : runLength Char.isDigit (text.drop n) = runLength Char.isDigit text - n :=
        runLength_drop (by omega)
      cases htext : text.drop n with
      | nil => rfl
      | cons c rest =>
        have hc : c ≠ '.' := by
          rintro rfl
          rw [htext, hrun, runLength, List.takeWhile_cons_of_neg (by decide),
            List.length_nil] at hdrop
          omega
        show ('.' == c && [].isPrefixOf rest) = false
        rw [beq_false_of_ne hc.symm, Bool.false_and]
    have hlater : ∀ f : Nat → List Nat, (∀ n ∈ downward whole 1, f n = []) →
        (downward (whole + 1) 1).flatMap f = f (whole + 1) := by
      intro f hf
      rw [downward_succ (by omega), List.flatMap_cons, List.flatMap_eq_nil_iff.2 hf,
        List.append_nil]
    rw [hlater]
    · cases htext : text.drop (whole + 1) with
      | nil => rfl
      | cons c rest =>
        by_cases hc : c = '.'
        · subst hc
          have hadd : ∀ n, whole + 1 + (1 + n) = whole + 1 + 1 + n := by omega
          simp [Function.comp_def, hadd]
        · simp [hc, Ne.symm hc]
    · intro n hn
      rw [hfewer n hn]
      rfl

end Expression

/-! ## Identifiers -/

namespace Uuid

/-- The length of a layout, if the text begins with something that has it. -/
def layoutLengths (places : List Place) (text : List Char) : List Nat :=
  if (fill? places (text.take places.length)).isSome then [places.length] else []

theorem isSome_fill?_append {places others : List Place} {text : List Char} :
    (fill? (places ++ others) text).isSome = ((fill? places (text.take places.length)).isSome &&
      (fill? others (text.drop places.length)).isSome) := by
  induction places generalizing text with
  | nil => rfl
  | cons place places ih =>
    cases text with
    | nil => cases place <;> rfl
    | cons c text =>
      cases place with
      | digit =>
        have hdigit : ∀ (ps : List Place) (rest : List Char),
            (fill? (.digit :: ps) (c :: rest)).isSome =
              ((Text.hexValue? c).isSome && (fill? ps rest).isSome) := by
          intro ps rest
          show Option.isSome ((Text.hexValue? c).bind fun d => (fill? ps rest).bind _) = _
          cases Text.hexValue? c <;> cases fill? ps rest <;> rfl
        rw [List.cons_append, List.length_cons, List.take_succ_cons, List.drop_succ_cons, hdigit,
          hdigit, ih, Bool.and_assoc]
      | hyphen =>
        rw [List.cons_append, List.length_cons, List.take_succ_cons, List.drop_succ_cons]
        by_cases hc : c = '-'
        · simp [fill?, hc, ih]
        · simp [fill?, hc]

end Uuid

namespace Expression

open Uuid

theorem takes_hexadecimals (n : Nat) :
    Takes (hexadecimals n) (layoutLengths (List.replicate n .digit)) := by
  have htimes : Takes (hexadecimals n) _ :=
    takes_times_set CharSet.contains_hexDigits true (fun m hm => Nat.le_of_eq (Option.some.inj hm))
  refine htimes.congr ?_
  intro text
  have hfill : (fill? (List.replicate n .digit) (text.take n)).isSome = true ↔
      n ≤ runLength isHexDigit text := by
    rw [le_runLength_iff, ← List.append_nil (List.replicate n Place.digit), isSome_fill?_digits]
    constructor
    · rintro ⟨group, rest, htake, ⟨hlen, hall⟩, hrest⟩
      obtain rfl : rest = [] := by
        cases rest with
        | nil => rfl
        | cons c rest => cases hrest
      rw [List.append_nil] at htake
      rw [htake]
      rw [← htake, List.length_take] at hlen
      exact ⟨by omega, hall⟩
    · rintro ⟨hle, hall⟩
      exact ⟨text.take n, [], (List.append_nil _).symm, ⟨List.length_take_of_le hle, hall⟩, rfl⟩
  simp only [layoutLengths, List.length_replicate, hfill, Option.map_some, Option.getD_some]
  split
  next hle =>
    have hmin : Nat.min (runLength isHexDigit text) n = n := Nat.min_eq_right hle
    rw [hmin, upward_of_le (Nat.le_refl n), upward_of_lt (Nat.lt_succ_self n)]
    rfl
  next hlt =>
    rw [upward_of_lt (Nat.lt_of_le_of_lt (Nat.min_le_left _ _) (Nat.lt_of_not_le hlt))]
    rfl

theorem takes_hyphen : Takes (.literal ['-']) (layoutLengths [.hyphen]) := by
  refine (takes_literal ['-']).congr ?_
  intro text
  cases text with
  | nil => rfl
  | cons c text =>
    by_cases hc : c = '-'
    · simp [layoutLengths, fill?, hc]
    · simp [layoutLengths, fill?, hc, Ne.symm hc]

/-- One layout after another is a longer one. -/
theorem takes_seq_layout {a b : Expression} {places others : List Place}
    (ha : Takes a (layoutLengths places)) (hb : Takes b (layoutLengths others)) :
    Takes (.seq a b) (layoutLengths (places ++ others)) := by
  refine (takes_seq ha hb).congr ?_
  intro text
  simp only [layoutLengths, isSome_fill?_append, List.length_append, List.take_take, List.drop_take,
    Nat.add_sub_cancel_left, Nat.min_eq_left (Nat.le_add_right _ _), Bool.and_eq_true]
  by_cases hfill : (fill? places (text.take places.length)).isSome = true
  · rw [if_pos hfill, List.flatMap_singleton]
    simp only [hfill, true_and]
    split <;> rfl
  · simp [hfill]

theorem takes_uuid : Takes Converter.uuid.tree Converter.uuidLengths := by
  have hgroups := takes_seq_layout (takes_hexadecimals 8) (takes_seq_layout takes_hyphen
    (takes_seq_layout (takes_hexadecimals 4) (takes_seq_layout takes_hyphen
      (takes_seq_layout (takes_hexadecimals 4) (takes_seq_layout takes_hyphen
        (takes_seq_layout (takes_hexadecimals 4) (takes_seq_layout takes_hyphen
          (takes_hexadecimals 12))))))))
  refine hgroups.congr ?_
  intro text
  show layoutLengths hyphenated text = _
  simp only [layoutLengths, Converter.uuidLengths, isSome_ofHyphenated?]

end Expression

/-! ## Converters -/

open Expression

theorem Converter.tree_string (b : LengthBounds) :
    (string b).tree = .times b.least b.greatest? true notSlash := by
  obtain ⟨min, max, exact⟩ := b
  cases exact <;> rfl

/-- The expression of a converter takes the lengths that the converter lists, in their order. -/
theorem Converter.takes_tree {c : Converter} (h : c.IsProper) : Takes c.tree c.lengths := by
  cases c with
  | string b =>
    rw [tree_string]
    refine takes_times_set (CharSet.contains_complement_singleton '/') true ?_
    intro max hmax
    obtain ⟨min, bound, exact⟩ := b
    cases exact with
    | some exact => exact Nat.le_of_eq (Option.some.inj hmax)
    | none => exact h.uncrossed max hmax
  | any items => exact takes_anyOf h
  | path => exact takes_path
  | int _ => exact takes_number
  | float b => exact takes_fraction b
  | uuid => exact takes_uuid

end UrlRouting
