import UrlRouting.Arguments.Clause
import UrlRouting.Proofs.Decimal.Digits
import UrlRouting.Proofs.Text.Blank

/-
  Values as they are written in an argument clause.
  A `Spelling` is a truth value, a whole number of 64 bits, a quotation or a bare word. `value` says
  what it means, and `literal_text` that its text is read as this value: no text of one shape has
  the reading of another that is tried first.
-/

namespace UrlRouting.Arguments

open Text Decimal

/-! ## The shapes of numbers -/

/-- Digits, perhaps behind a minus sign. -/
def IsIntegerShape (text : List Char) : Prop :=
  ∃ negative ds, isDigits ds = true ∧ text = signOf negative ++ ds

/-- Digits, a point and perhaps more digits, perhaps behind a minus sign. -/
def IsFloatShape (text : List Char) : Prop :=
  ∃ negative whole part, isDigits whole = true ∧ (∀ c ∈ part, c.isDigit = true) ∧
    text = signOf negative ++ (whole ++ '.' :: part)

theorem exists_sign (text : List Char) :
    ∃ negative, text = signOf negative ++ unsignedPart text := by
  unfold unsignedPart
  split
  · exact ⟨true, rfl⟩
  · exact ⟨false, rfl⟩

theorem unsignedPart_append {ds : List Char} (h : isDigits ds = true) (negative : Bool)
    (rest : List Char) : unsignedPart (signOf negative ++ (ds ++ rest)) = ds ++ rest := by
  cases negative with
  | true => rfl
  | false =>
    show unsignedPart (ds ++ rest) = ds ++ rest
    unfold unsignedPart
    split
    next more hminus =>
      cases ds with
      | nil => cases h
      | cons c ds =>
        obtain ⟨rfl, -⟩ := List.cons.inj hminus
        cases (isDigits_iff.1 h).2 '-' List.mem_cons_self
    · rfl

theorem hasIntegerShape_iff {text : List Char} :
    hasIntegerShape text = true ↔ IsIntegerShape text := by
  unfold hasIntegerShape
  constructor
  · intro h
    obtain ⟨negative, htext⟩ := exists_sign text
    exact ⟨negative, unsignedPart text, h, htext⟩
  · rintro ⟨negative, ds, hds, rfl⟩
    have hpart := unsignedPart_append hds negative []
    rw [List.append_nil] at hpart
    rwa [hpart]

theorem hasFloatShape_iff {text : List Char} : hasFloatShape text = true ↔ IsFloatShape text := by
  constructor
  · intro h
    unfold hasFloatShape at h
    dsimp only at h
    obtain ⟨negative, htext⟩ := exists_sign text
    generalize unsignedPart text = body at h htext
    subst htext
    have hbody : body.takeWhile (· ≠ '.') ++ body.dropWhile (· ≠ '.') = body :=
      List.takeWhile_append_dropWhile
    have hpoint := List.head?_dropWhile_not (fun c => decide (c ≠ '.')) body
    cases hdrop : body.dropWhile (· ≠ '.') with
    | nil =>
      rw [hdrop] at h
      cases h
    | cons c part =>
      rw [hdrop] at hbody hpoint
      obtain rfl : c = '.' := by simpa using hpoint
      rw [hdrop, Bool.and_eq_true, List.all_eq_true] at h
      exact ⟨negative, _, part, h.1, h.2, by rw [hbody]⟩
  · rintro ⟨negative, whole, part, hwhole, hpart, rfl⟩
    have hnone : '.' ∉ whole := by
      intro hmem
      cases (isDigits_iff.1 hwhole).2 '.' hmem
    unfold hasFloatShape
    simp only [unsignedPart_append hwhole, takeWhile_ne_append hnone, dropWhile_ne_append hnone,
      hwhole, List.all_eq_true.2 hpart, Bool.and_self]

instance : DecidablePred IsIntegerShape := fun _ => decidable_of_iff _ hasIntegerShape_iff

instance : DecidablePred IsFloatShape := fun _ => decidable_of_iff _ hasFloatShape_iff

/-- The number that digits with or without a minus sign stand for. -/
def signedValue (negative : Bool) (ds : List Char) : Int :=
  if negative then -(value ds : Int) else value ds

theorem integer?_signOf_append {ds : List Char} (h : isDigits ds = true) (negative : Bool) :
    integer? (signOf negative ++ ds) = toInt64? (signedValue negative ds) := by
  unfold integer?
  rw [if_pos (hasIntegerShape_iff.2 ⟨negative, ds, h, rfl⟩)]
  cases negative with
  | true => exact if_pos h
  | false => exact int64?_of_isDigits h

/-! ## Quotations -/

/-- The letters that may mark a quotation. -/
def quoteMarks : List Char := ['u', 'r', 'U', 'R']

theorem isQuote_eq_false_of_mem_quoteMarks {c : Char} (h : c ∈ quoteMarks) :
    isQuote c = false := by
  have hall : quoteMarks.all (!isQuote ·) = true := by decide
  simpa using List.all_eq_true.1 hall c h

theorem not_mem_quoteMarks_of_isQuote {c : Char} (h : isQuote c = true) : c ∉ quoteMarks := by
  intro hmem
  rw [isQuote_eq_false_of_mem_quoteMarks hmem] at h
  cases h

theorem quoted?_eq_none {text : List Char} (h : ∀ c ∈ text, isQuote c = false) :
    quoted? text = none := by
  cases text with
  | nil => rfl
  | cons c text =>
    obtain ⟨hc, hmore⟩ := List.forall_mem_cons.1 h
    cases text with
    | nil => simp [quoted?, hc]
    | cons d text => simp [quoted?, hc, hmore d List.mem_cons_self]

theorem quoted?_quotation {mark : Option Char} {q : Char} (hmark : ∀ m ∈ mark, m ∈ quoteMarks)
    (hq : isQuote q = true) (inner : List Char) :
    quoted? (mark.toList ++ q :: (inner ++ [q])) = some inner := by
  have hbetween : (if isQuote q && (inner ++ [q]).getLast? = some q then
      some (inner ++ [q]).dropLast else none) = some inner := by
    simp [hq]
  cases mark with
  | some m =>
    have hm : m ∈ ['u', 'r', 'U', 'R'] := hmark m rfl
    show quoted? (m :: q :: (inner ++ [q])) = some inner
    simp only [quoted?, hm, hq, decide_true, Bool.and_self, if_true]
    simp
  | none =>
    have hno : q ∉ ['u', 'r', 'U', 'R'] := not_mem_quoteMarks_of_isQuote hq
    show quoted? (q :: (inner ++ [q])) = some inner
    cases hrest : inner ++ [q] with
    | nil => exact absurd hrest (List.append_ne_nil_of_right_ne_nil inner (List.cons_ne_nil q []))
    | cons c rest =>
      rw [hrest] at hbetween
      simp only [quoted?, hno, decide_false, Bool.false_and, Bool.false_eq_true, if_false]
      exact hbetween

section

variable {text : List Char} (htrue : text ≠ "True".toList) (hfalse : text ≠ "False".toList)
  (hplain : ∀ c ∈ text, isQuote c = false)

include htrue hfalse hplain

/-- A text without quotes is the name of a truth value, a number or a bare word. -/
theorem literal_of_integer? {n : Int64} (h : integer? text = some n) :
    literal text = .int n := by
  simp only [literal, if_neg htrue, if_neg hfalse, quoted?_eq_none hplain, h]

theorem literal_of_none (hinteger : integer? text = none) (hdecimal : decimal? text = none) :
    literal text = .str (String.ofList text) := by
  simp only [literal, if_neg htrue, if_neg hfalse, quoted?_eq_none hplain, hinteger, hdecimal]

end

/-! ## What ends an item -/

/-- A character that ends items outside quotations and is no part of what they are written with. -/
structure EndsItems (stop : Char) : Prop where
  quote : isQuote stop = false
  word : isWord stop = false
  blank : isBlank stop = false
  equals : stop ≠ '='
  minus : stop ≠ '-'

theorem endsItems_comma : EndsItems ',' := ⟨rfl, rfl, rfl, by decide, by decide⟩

theorem endsItems_parenthesis : EndsItems ')' := ⟨rfl, rfl, rfl, by decide, by decide⟩

/-! ## Spellings -/

/-- A value as it is written. -/
inductive Spelling where
  | truth (b : Bool)
  | number (negative : Bool) (ds : List Char)
  /-- Text between two of the same quotes, perhaps with a letter before them. -/
  | quotation (mark : Option Char) (quote : Char) (inner : List Char)
  | word (text : List Char)
  deriving DecidableEq

namespace Spelling

def text : Spelling → List Char
  | truth true => "True".toList
  | truth false => "False".toList
  | number negative ds => signOf negative ++ ds
  | quotation mark quote inner => mark.toList ++ quote :: (inner ++ [quote])
  | word text => text

def value : Spelling → Argument
  | truth b => .bool b
  | number negative ds => .int (Int64.ofInt (signedValue negative ds))
  | quotation _ _ inner => .str (String.ofList inner)
  | word text => .str (String.ofList text)

/-- Whether a number is one of 64 bits, a quotation does not hold its own quote, and a word could
be nothing else and stands for itself. -/
def IsProper : Spelling → Prop
  | truth _ => True
  | number negative ds => isDigits ds = true ∧
      Int64.minValue.toInt ≤ signedValue negative ds ∧
      signedValue negative ds ≤ Int64.maxValue.toInt
  | quotation mark quote inner =>
    (∀ m ∈ mark, m ∈ quoteMarks) ∧ isQuote quote = true ∧ quote ∉ inner
  | word text => IsTrimmed text ∧
      (∀ c ∈ text, isQuote c = false ∧ c ≠ ',' ∧ c ≠ '=') ∧
      text ≠ "True".toList ∧ text ≠ "False".toList ∧
      ¬ IsIntegerShape text ∧ ¬ IsFloatShape text

instance : DecidablePred IsProper
  | truth _ => isTrue trivial
  | number _ _ => inferInstanceAs (Decidable (_ ∧ _ ∧ _))
  | quotation mark quote inner =>
    decidable_of_iff
      (mark.all (· ∈ quoteMarks) = true ∧ isQuote quote = true ∧ quote ∉ inner)
      (by cases mark <;> simp [IsProper])
  | word text =>
    decidable_of_iff
      (IsTrimmed text ∧ text.all (fun c => !isQuote c && c ≠ ',' && c ≠ '=') = true ∧
        text ≠ "True".toList ∧ text ≠ "False".toList ∧
        ¬ IsIntegerShape text ∧ ¬ IsFloatShape text)
      (by simp [IsProper, and_assoc])

/-- The decimal text of a 64-bit integer is a spelling of it. -/
theorem exists_spelling_ofInt (n : Int64) :
    ∃ s : Spelling, s.IsProper ∧ s.text = ofInt n.toInt ∧ s.value = .int n := by
  have hsigned : signedValue (decide (n.toInt < 0)) (digits n.toInt.natAbs) = n.toInt := by
    unfold signedValue
    rw [value_digits]
    split
    next hneg => exact (Int.eq_neg_natAbs_of_nonpos (Int.le_of_lt (of_decide_eq_true hneg))).symm
    next hpos => exact Int.natAbs_of_nonneg (Int.not_lt.1 fun h => hpos (decide_eq_true h))
  refine ⟨.number (n.toInt < 0) (digits n.toInt.natAbs), ?_, ?_, ?_⟩
  · simp only [IsProper, hsigned]
    exact ⟨isDigits_digits _, Int64.minValue_le_toInt n, Int64.toInt_le n⟩
  · simp only [text, ofInt, sign, signOf, decide_eq_true_eq]
  · simp only [value, hsigned, Int64.ofInt_toInt]

/-- Characters of a number: digits and the minus sign. -/
theorem mem_number {ds : List Char} (h : isDigits ds = true) (negative : Bool) :
    ∀ c ∈ signOf negative ++ ds, (c.isDigit || c = '-') = true := by
  intro c hc
  rcases List.mem_append.1 hc with hsign | hdigit
  · cases negative with
    | true =>
      obtain rfl := List.mem_singleton.1 hsign
      rfl
    | false => cases hsign
  · rw [(isDigits_iff.1 h).2 c hdigit, Bool.true_or]

theorem isDigit_or_minus_eq_false {c : Char} (hword : isWord c = false) (hminus : c ≠ '-') :
    (c.isDigit || c = '-') = false := by
  have hdigit : c.isDigit = false := by
    rw [← Bool.not_eq_true]
    intro hdigit
    rw [isWord_of_isDigit hdigit] at hword
    cases hword
  rw [hdigit, Bool.false_or, decide_eq_false hminus]

/-- The text of a proper spelling is read as its value. -/
theorem literal_text {s : Spelling} (h : s.IsProper) : literal s.text = s.value := by
  cases s with
  | truth b => cases b <;> decide
  | number negative ds =>
    obtain ⟨hds, hmin, hmax⟩ := h
    have hmem := mem_number hds negative
    have hinteger := integer?_signOf_append hds negative
    rw [toInt64?, if_pos ⟨hmin, hmax⟩] at hinteger
    show literal (signOf negative ++ ds) = _
    refine literal_of_integer? ?_ ?_ ?_ hinteger
    · intro heq
      cases hmem 'T' (heq ▸ List.mem_cons_self)
    · intro heq
      cases hmem 'F' (heq ▸ List.mem_cons_self)
    · intro c hc
      exact isQuote_eq_false (p := fun c => c.isDigit || c = '-') rfl rfl (hmem c hc)
  | quotation mark quote inner =>
    obtain ⟨hmark, hquote, -⟩ := h
    have hmem : quote ∈ mark.toList ++ quote :: (inner ++ [quote]) :=
      List.mem_append_right _ List.mem_cons_self
    show literal (mark.toList ++ quote :: (inner ++ [quote])) = _
    unfold literal
    rw [if_neg, if_neg, quoted?_quotation hmark hquote]
    · rfl
    · intro heq
      have hall : "False".toList.all (!isQuote ·) = true := by decide
      simpa [hquote] using List.all_eq_true.1 hall quote (heq ▸ hmem)
    · intro heq
      have hall : "True".toList.all (!isQuote ·) = true := by decide
      simpa [hquote] using List.all_eq_true.1 hall quote (heq ▸ hmem)
  | word text =>
    obtain ⟨-, hchars, htrue, hfalse, hint, hfloat⟩ := h
    have hnone : integer? text = none := if_neg fun hshape => hint (hasIntegerShape_iff.1 hshape)
    have hnofloat : decimal? text = none := if_neg fun hshape => hfloat (hasFloatShape_iff.1 hshape)
    exact literal_of_none htrue hfalse (fun c hc => (hchars c hc).1) hnone hnofloat

/-! ## Spellings among others -/

/-- No proper spelling is empty or has blanks at its ends. -/
theorem isTrimmed_text {s : Spelling} (h : s.IsProper) : IsTrimmed s.text := by
  cases s with
  | truth b => cases b <;> decide
  | number negative ds =>
    have hmem := mem_number h.1 negative
    refine isTrimmed_of_all ?_ fun c hc => ?_
    · exact List.append_ne_nil_of_right_ne_nil _ (List.ne_nil_of_length_pos (isDigits_iff.1 h.1).1)
    · rw [← Bool.not_eq_true]
      intro hblank
      have hminus : c ≠ '-' := by
        rintro rfl
        cases hblank
      have hnone := isDigit_or_minus_eq_false (isWord_of_isBlank hblank) hminus
      rw [hmem c hc] at hnone
      cases hnone
  | quotation mark quote inner =>
    obtain ⟨hmark, hquote, -⟩ := h
    have hend : IsTrimmed [quote] := by
      refine isTrimmed_of_all (List.cons_ne_nil _ _) fun c hc => ?_
      obtain rfl := List.mem_singleton.1 hc
      exact isBlank_eq_false_of_isQuote hquote
    cases mark with
    | none => exact isTrimmed_append hend inner hend
    | some m =>
      have hmarks : quoteMarks.all (!isBlank ·) = true := by decide
      have hfront : IsTrimmed [m] := by
        refine isTrimmed_of_all (List.cons_ne_nil _ _) fun c hc => ?_
        obtain rfl := List.mem_singleton.1 hc
        simpa using List.all_eq_true.1 hmarks c (hmark c rfl)
      exact isTrimmed_append hfront (quote :: inner) hend
  | word text => exact h.1

/-- Outside quotations a character that ends items stands in bare words only. -/
theorem encloses_text {stop : Char} (hstop : EndsItems stop) {s : Spelling} (h : s.IsProper)
    (hword : ∀ text, s = .word text → stop ∉ text) : Encloses stop s.text := by
  cases s with
  | truth b =>
    refine encloses_of_all (p := isWord) rfl rfl hstop.word (List.all_eq_true.1 ?_)
    cases b <;> decide
  | number negative ds =>
    exact encloses_of_all (p := fun c => c.isDigit || c = '-') rfl rfl
      (isDigit_or_minus_eq_false hstop.word hstop.minus) (mem_number h.1 negative)
  | quotation mark quote inner =>
    obtain ⟨hmark, hquote, hinner⟩ := h
    have hinside := encloses_quotation hquote hinner hstop.quote
    cases mark with
    | none => exact hinside
    | some m =>
      have hmarks : quoteMarks.all isWord = true := by decide
      have hm := hmark m rfl
      refine (encloses_cons_iff (isQuote_eq_false_of_mem_quoteMarks hm)).2 ⟨?_, hinside⟩
      rintro rfl
      have hno := hstop.word
      rw [List.all_eq_true.1 hmarks m hm] at hno
      cases hno
  | word text =>
    refine encloses_of_all (p := fun c => !isQuote c && c ≠ stop) rfl rfl (by simp) fun c hc => ?_
    have hne : c ≠ stop := fun heq => hword text rfl (heq ▸ hc)
    simp [(h.2.1 c hc).1, hne]

end Spelling

end UrlRouting.Arguments
