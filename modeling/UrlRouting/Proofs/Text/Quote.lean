import UrlRouting.Text.Quote

/-
  What stands before a character, and what stands outside quotations.
  `breakOutside?` stops at the first character of its kind with all quotations before it closed, so
  it breaks a text in one way only: `breakOutside?_eq_some_iff` says in which. Where it finds none,
  the character stands inside quotations only. `splitOutside` parts what separators have joined, if
  the parts hold them inside quotations only (`splitOutside_intercalate`).
-/

namespace UrlRouting.Text

variable {stop : Char} {quote : Option Char} {text before after : List Char}
variable {parts : List (List Char)}

/-! ## Up to a character -/

theorem decide_ne_of_not_mem {c : Char} {text : List Char} (h : c ∉ text) :
    ∀ d ∈ text, decide (d ≠ c) = true := by
  intro d hd
  have hne : d ≠ c := fun e => h (e ▸ hd)
  exact decide_eq_true hne

theorem takeWhile_ne_append {c : Char} {front rest : List Char} (h : c ∉ front) :
    (front ++ c :: rest).takeWhile (· ≠ c) = front := by
  rw [List.takeWhile_append_of_pos (decide_ne_of_not_mem h)]
  simp

theorem dropWhile_ne_append {c : Char} {front rest : List Char} (h : c ∉ front) :
    (front ++ c :: rest).dropWhile (· ≠ c) = c :: rest := by
  rw [List.dropWhile_append_of_pos (decide_ne_of_not_mem h)]
  simp

theorem not_mem_takeWhile_ne (c : Char) (text : List Char) : c ∉ text.takeWhile (· ≠ c) := by
  intro h
  have hc := List.all_eq_true.1 List.all_takeWhile c h
  simp at hc

/-! ## Outside quotations -/

/-- Whether the character stands inside quotations only, `quote` being open before the text. -/
def OnlyQuoted (stop : Char) (quote : Option Char) (text : List Char) : Prop :=
  ∀ before after, text = before ++ stop :: after → quoteBalanced quote before = false

theorem quoteBalanced_nil_iff : quoteBalanced quote [] = true ↔ quote = none := decide_eq_true_iff

theorem onlyQuoted_nil (stop : Char) (quote : Option Char) : OnlyQuoted stop quote [] := by
  intro before after h
  cases before <;> cases h

theorem onlyQuoted_cons_iff {c : Char} :
    OnlyQuoted stop quote (c :: text) ↔
      ¬ (quote = none ∧ c = stop) ∧ OnlyQuoted stop (quoteAfter quote c) text := by
  constructor
  · intro h
    refine ⟨?_, ?_⟩
    · rintro ⟨rfl, rfl⟩
      cases h [] text rfl
    · rintro before after rfl
      exact h (c :: before) after rfl
  · rintro ⟨hfirst, hmore⟩ before after heq
    cases before with
    | nil =>
      obtain ⟨rfl, -⟩ := List.cons.inj heq
      rw [← Bool.not_eq_true, quoteBalanced_nil_iff]
      exact fun hnone => hfirst ⟨hnone, rfl⟩
    | cons d before =>
      obtain ⟨rfl, hrest⟩ := List.cons.inj heq
      exact hmore before after hrest

/-- A text is broken at a stop behind which it goes on, where all quotations are closed and no stop
before it stands outside them. -/
theorem breakOutside?_eq_some_iff :
    breakOutside? stop quote text = some (before, after) ↔
      text = before ++ stop :: after ∧ quoteBalanced quote before = true ∧
        OnlyQuoted stop quote before := by
  induction text generalizing quote before after with
  | nil => simp [breakOutside?]
  | cons c text ih =>
    unfold breakOutside?
    by_cases hstop : quote = none ∧ c = stop
    · rw [if_pos hstop]
      obtain ⟨rfl, rfl⟩ := hstop
      constructor
      · intro h
        obtain ⟨rfl, rfl⟩ := Prod.mk.inj (Option.some.inj h)
        exact ⟨rfl, rfl, onlyQuoted_nil _ _⟩
      · rintro ⟨htext, -, honly⟩
        cases before with
        | nil =>
          obtain ⟨-, rfl⟩ := List.cons.inj htext
          rfl
        | cons d before =>
          obtain ⟨rfl, -⟩ := List.cons.inj htext
          exact absurd ⟨rfl, rfl⟩ (onlyQuoted_cons_iff.1 honly).1
    · rw [if_neg hstop, Option.map_eq_some_iff]
      constructor
      · rintro ⟨⟨front, rest⟩, hbreak, heq⟩
        obtain ⟨rfl, rfl⟩ := Prod.mk.inj heq
        obtain ⟨rfl, hbalanced, honly⟩ := ih.1 hbreak
        exact ⟨rfl, hbalanced, onlyQuoted_cons_iff.2 ⟨hstop, honly⟩⟩
      · rintro ⟨htext, hbalanced, honly⟩
        cases before with
        | nil =>
          obtain ⟨rfl, -⟩ := List.cons.inj htext
          exact absurd ⟨quoteBalanced_nil_iff.1 hbalanced, rfl⟩ hstop
        | cons d before =>
          obtain ⟨rfl, rfl⟩ := List.cons.inj htext
          exact ⟨(before, after), ih.2 ⟨rfl, hbalanced, (onlyQuoted_cons_iff.1 honly).2⟩, rfl⟩

/-- No stop is found where none stands outside quotations. -/
theorem breakOutside?_eq_none_iff :
    breakOutside? stop quote text = none ↔ OnlyQuoted stop quote text := by
  induction text generalizing quote with
  | nil => exact ⟨fun _ => onlyQuoted_nil stop quote, fun _ => rfl⟩
  | cons c text ih =>
    rw [breakOutside?, onlyQuoted_cons_iff]
    split
    next hstop =>
      constructor
      · intro hnone
        cases hnone
      · exact fun h => absurd hstop h.1
    next hstop => rw [Option.map_eq_none_iff, ih, and_iff_right hstop]

/-! ## Quotations that are closed -/

/-- Whether all quotations of the text are closed, and the character stands inside them only. -/
def Encloses (stop : Char) (text : List Char) : Prop :=
  quoteBalanced none text = true ∧ OnlyQuoted stop none text

theorem encloses_nil (stop : Char) : Encloses stop [] := ⟨rfl, onlyQuoted_nil stop none⟩

theorem encloses_cons_iff {c : Char} (hc : isQuote c = false) :
    Encloses stop (c :: text) ↔ c ≠ stop ∧ Encloses stop text := by
  have hafter : quoteAfter none c = none := by simp [quoteAfter, hc]
  have hbalanced : quoteBalanced none (c :: text) = quoteBalanced none text := by
    unfold quoteBalanced
    rw [List.foldl_cons, hafter]
  unfold Encloses
  rw [hbalanced, onlyQuoted_cons_iff, hafter]
  simp only [true_and, ne_eq]
  exact and_left_comm

theorem onlyQuoted_append {more : List Char} (hbalanced : quoteBalanced quote text = true)
    (honly : OnlyQuoted stop quote text) (hmore : OnlyQuoted stop none more) :
    OnlyQuoted stop quote (text ++ more) := by
  induction text generalizing quote with
  | nil =>
    obtain rfl := quoteBalanced_nil_iff.1 hbalanced
    exact hmore
  | cons c text ih =>
    obtain ⟨hfirst, hrest⟩ := onlyQuoted_cons_iff.1 honly
    exact onlyQuoted_cons_iff.2 ⟨hfirst, ih hbalanced hrest⟩

theorem encloses_append {more : List Char} (h : Encloses stop text) (hmore : Encloses stop more) :
    Encloses stop (text ++ more) := by
  refine ⟨?_, onlyQuoted_append h.1 h.2 hmore.2⟩
  have hclosed : text.foldl quoteAfter none = none := of_decide_eq_true h.1
  unfold quoteBalanced
  rw [List.foldl_append, hclosed]
  exact hmore.1

theorem eq_of_isQuote {c : Char} (h : isQuote c = true) : c = '"' ∨ c = '\'' := by
  simpa only [isQuote, Bool.or_eq_true, decide_eq_true_eq] using h

/-- A kind of characters that has neither quote. -/
theorem isQuote_eq_false {p : Char → Bool} (hdouble : p '"' = false) (hsingle : p '\'' = false)
    {c : Char} (hc : p c = true) : isQuote c = false := by
  rw [← Bool.not_eq_true]
  intro hquote
  rcases eq_of_isQuote hquote with rfl | rfl
  · rw [hdouble] at hc
    cases hc
  · rw [hsingle] at hc
    cases hc

/-- Characters of a kind that has neither quote, nor the character that is looked for. -/
theorem encloses_of_all {p : Char → Bool} (hdouble : p '"' = false) (hsingle : p '\'' = false)
    (hstop : p stop = false) (h : ∀ c ∈ text, p c = true) : Encloses stop text := by
  induction text with
  | nil => exact encloses_nil stop
  | cons c text ih =>
    obtain ⟨hc, hmore⟩ := List.forall_mem_cons.1 h
    refine (encloses_cons_iff (isQuote_eq_false hdouble hsingle hc)).2 ⟨?_, ih hmore⟩
    rintro rfl
    rw [hstop] at hc
    cases hc

/-- Inside an open quotation the character is not looked for, up to the quote that closes it. -/
theorem closes_quotation {q : Char} {inner : List Char} (hinner : q ∉ inner) :
    quoteBalanced (some q) (inner ++ [q]) = true ∧ OnlyQuoted stop (some q) (inner ++ [q]) := by
  induction inner with
  | nil =>
    have hclosed : quoteAfter (some q) q = none := by simp [quoteAfter]
    refine ⟨by simp [quoteBalanced, hclosed], onlyQuoted_cons_iff.2 ⟨by simp, ?_⟩⟩
    exact onlyQuoted_nil stop _
  | cons c inner ih =>
    have hc : c ≠ q := fun heq => hinner (heq ▸ List.mem_cons_self)
    have hmore : q ∉ inner := fun hmem => hinner (List.mem_cons_of_mem c hmem)
    have hopen : quoteAfter (some q) c = some q := by simp [quoteAfter, hc]
    obtain ⟨hbalanced, honly⟩ := ih hmore
    rw [List.cons_append, onlyQuoted_cons_iff, hopen]
    refine ⟨?_, by simp, honly⟩
    unfold quoteBalanced at hbalanced ⊢
    rwa [List.foldl_cons, hopen]

theorem encloses_quotation {q : Char} {inner : List Char} (hq : isQuote q = true)
    (hinner : q ∉ inner) (hstop : isQuote stop = false) :
    Encloses stop (q :: (inner ++ [q])) := by
  have hne : q ≠ stop := by
    rintro rfl
    rw [hq] at hstop
    cases hstop
  obtain ⟨hbalanced, honly⟩ := closes_quotation hinner
  have hopen : quoteAfter none q = some q := by simp [quoteAfter, hq]
  unfold Encloses
  rw [onlyQuoted_cons_iff, hopen]
  refine ⟨?_, fun hfirst => hne hfirst.2, honly⟩
  unfold quoteBalanced at hbalanced ⊢
  rwa [List.foldl_cons, hopen]

/-! ## Splitting -/

theorem splitOutside_append_cons (hbalanced : quoteBalanced quote before = true)
    (honly : OnlyQuoted stop quote before) :
    splitOutside stop quote (before ++ stop :: after) =
      before :: splitOutside stop none after := by
  induction before generalizing quote with
  | nil =>
    obtain rfl := quoteBalanced_nil_iff.1 hbalanced
    rw [List.nil_append, splitOutside, if_pos ⟨rfl, rfl⟩]
  | cons c before ih =>
    obtain ⟨hfirst, hrest⟩ := onlyQuoted_cons_iff.1 honly
    rw [List.cons_append, splitOutside, if_neg hfirst, ih hbalanced hrest]

theorem splitOutside_of_onlyQuoted (h : OnlyQuoted stop quote text) :
    splitOutside stop quote text = [text] := by
  induction text generalizing quote with
  | nil => rfl
  | cons c text ih =>
    obtain ⟨hfirst, hrest⟩ := onlyQuoted_cons_iff.1 h
    rw [splitOutside, if_neg hfirst, ih hrest]

/-- Joined parts are parted again, by induction on the parts. -/
theorem splitOutside_intercalate (hne : parts ≠ []) (h : ∀ part ∈ parts, Encloses stop part) :
    splitOutside stop none ([stop].intercalate parts) = parts := by
  induction parts with
  | nil => exact absurd rfl hne
  | cons part parts ih =>
    obtain ⟨⟨hbalanced, honly⟩, hmore⟩ := List.forall_mem_cons.1 h
    cases parts with
    | nil =>
      rw [List.intercalate_singleton]
      exact splitOutside_of_onlyQuoted honly
    | cons next parts =>
      rw [List.intercalate_cons_cons, List.append_assoc, List.singleton_append,
        splitOutside_append_cons hbalanced honly, ih (List.cons_ne_nil _ _) hmore]

theorem encloses_intercalate {separator : List Char} (hsep : Encloses stop separator)
    (h : ∀ part ∈ parts, Encloses stop part) : Encloses stop (separator.intercalate parts) := by
  induction parts with
  | nil => exact encloses_nil stop
  | cons part parts ih =>
    obtain ⟨hpart, hmore⟩ := List.forall_mem_cons.1 h
    cases parts with
    | nil => rwa [List.intercalate_singleton]
    | cons next parts =>
      rw [List.intercalate_cons_cons]
      exact encloses_append (encloses_append hpart hsep) (ih hmore)

end UrlRouting.Text
