import UrlRouting.Proofs.Text.Quote
import UrlRouting.Text.Alphanumeric
import UrlRouting.Text.Blank

/-
  Texts with blanks around them.
  Trimming takes off the blanks in front of a text and behind it, and nothing else
  (`trim_padding`). No blank is a letter or number of any script (`isWord_of_isBlank`).
-/

namespace UrlRouting.Text

variable {text blanks before after : List Char}

/-- The code points of the blanks. -/
def blankPoints : List Nat :=
  [9, 10, 11, 12, 13, 0x20, 0x85, 0xA0, 0x1680, 0x2000, 0x2001, 0x2002, 0x2003, 0x2004, 0x2005,
   0x2006, 0x2007, 0x2008, 0x2009, 0x200A, 0x2028, 0x2029, 0x202F, 0x205F, 0x3000]

theorem toNat_mem_of_isBlank {c : Char} (h : isBlank c = true) : c.toNat ∈ blankPoints := by
  simp only [isBlank, Bool.or_eq_true, Bool.and_eq_true, decide_eq_true_eq] at h
  simp only [blankPoints, List.mem_cons, List.not_mem_nil, or_false]
  omega

theorem isWord_of_isBlank {c : Char} (h : isBlank c = true) : isWord c = false := by
  have hall : ∀ n ∈ blankPoints, isWord (Char.ofNat n) = false := by decide +kernel
  have hc := hall c.toNat (toNat_mem_of_isBlank h)
  rwa [Char.ofNat_toNat] at hc

theorem isBlank_eq_false_of_isWord {c : Char} (h : isWord c = true) : isBlank c = false := by
  rw [← Bool.not_eq_true]
  intro hblank
  rw [isWord_of_isBlank hblank] at h
  cases h

theorem isBlank_eq_false_of_isQuote {c : Char} (h : isQuote c = true) : isBlank c = false := by
  rcases eq_of_isQuote h with rfl | rfl <;> decide

theorem isWord_eq_false_of_isQuote {c : Char} (h : isQuote c = true) : isWord c = false := by
  rcases eq_of_isQuote h with rfl | rfl <;> decide

theorem isWord_of_isDigit {c : Char} (h : c.isDigit = true) : isWord c = true := by
  have hsmall : c.toNat < 128 := by
    simp only [Char.isDigit, Bool.and_eq_true, decide_eq_true_eq] at h
    exact Nat.lt_of_le_of_lt h.2 (by decide)
  simp [isWord, isAlphanumeric, hsmall, Char.isAlphanum, h]

/-! ## Trimming -/

/-- Whether a text has a first character and a last one that are no blanks. -/
def IsTrimmed (text : List Char) : Prop :=
  text.head?.any (!isBlank ·) = true ∧ text.getLast?.any (!isBlank ·) = true

instance : DecidablePred IsTrimmed := fun _ => inferInstanceAs (Decidable (_ ∧ _))

theorem isTrimmed_iff :
    IsTrimmed text ↔ text ≠ [] ∧ (∀ c ∈ text.head?, isBlank c = false) ∧
      ∀ c ∈ text.getLast?, isBlank c = false := by
  unfold IsTrimmed
  cases text with
  | nil => simp
  | cons c text => simp [List.getLast?_eq_some_getLast]

theorem isTrimmed_of_all (hne : text ≠ []) (h : ∀ c ∈ text, isBlank c = false) :
    IsTrimmed text :=
  isTrimmed_iff.2
    ⟨hne, fun c hc => h c (List.mem_of_head? hc), fun c hc => h c (List.mem_of_getLast? hc)⟩

/-- What stands between two texts may have blanks at its ends. -/
theorem isTrimmed_append {front back : List Char} (hfront : IsTrimmed front) (middle : List Char)
    (hback : IsTrimmed back) : IsTrimmed (front ++ (middle ++ back)) := by
  obtain ⟨hne, hhead, -⟩ := isTrimmed_iff.1 hfront
  obtain ⟨hne', -, hlast⟩ := isTrimmed_iff.1 hback
  refine isTrimmed_iff.2 ⟨List.append_ne_nil_of_left_ne_nil hne _, ?_, ?_⟩
  · cases front with
    | nil => exact absurd rfl hne
    | cons c rest => exact hhead
  · rw [List.getLast?_append, List.getLast?_append, List.getLast?_eq_some_getLast hne']
    rwa [List.getLast?_eq_some_getLast hne'] at hlast

theorem trimStart_append (h : ∀ c ∈ blanks, isBlank c = true) (text : List Char) :
    trimStart (blanks ++ text) = trimStart text :=
  List.dropWhile_append_of_pos h

theorem trimEnd_append (h : ∀ c ∈ blanks, isBlank c = true) :
    trimEnd (text ++ blanks) = trimEnd text := by
  unfold trimEnd
  rw [List.reverse_append, List.dropWhile_append_of_pos fun c hc => h c (List.mem_reverse.1 hc)]

theorem trimEnd_eq_self (h : ∀ c ∈ text.getLast?, isBlank c = false) : trimEnd text = text := by
  rw [← List.head?_reverse] at h
  have hback := trimStart_eq_self h
  unfold trimStart at hback
  unfold trimEnd
  rw [hback, List.reverse_reverse]

/-- Trimming takes blanks off both ends of a text that has none there itself. -/
theorem trim_padding (hbefore : ∀ c ∈ before, isBlank c = true)
    (hafter : ∀ c ∈ after, isBlank c = true) (h : IsTrimmed text) :
    trim (before ++ (text ++ after)) = text := by
  obtain ⟨hne, hhead, hlast⟩ := isTrimmed_iff.1 h
  have hfront : ∀ c ∈ (text ++ after).head?, isBlank c = false := by
    cases text with
    | nil => exact absurd rfl hne
    | cons c rest => exact hhead
  unfold trim
  rw [trimStart_append hbefore, trimStart_eq_self hfront, trimEnd_append hafter,
    trimEnd_eq_self hlast]

theorem trim_of_isBlank (h : ∀ c ∈ blanks, isBlank c = true) : trim blanks = [] := by
  have hstart := trimStart_append h []
  rw [List.append_nil] at hstart
  unfold trim
  rw [hstart]
  rfl

/-- Only blanks are taken off the end. -/
theorem mem_trimEnd {c : Char} (hmem : c ∈ text) (hc : isBlank c = false) : c ∈ trimEnd text := by
  have hback := List.mem_reverse.2 hmem
  rw [← List.takeWhile_append_dropWhile (p := isBlank) (l := text.reverse)] at hback
  unfold trimEnd
  rw [List.mem_reverse]
  rcases List.mem_append.1 hback with hblank | hrest
  · have hall := List.all_eq_true.1 (List.all_takeWhile (p := isBlank) (l := text.reverse)) c hblank
    rw [hc] at hall
    cases hall
  · exact hrest

end UrlRouting.Text
