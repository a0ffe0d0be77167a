import UrlRouting.Pattern.Expression
import UrlRouting.Proofs.Converter.Language
import UrlRouting.Proofs.Text.Quote

/-
  Reading what an expression is written with, one step for each thing that is written.
  Without flags a character stands for itself, bare or escaped, and each of the others takes one
  unit of fuel and leaves one item: a set in brackets, a repetition of the item before, a group. An
  end of the text, a bar or a closing parenthesis ends the items.
-/

namespace UrlRouting.Expression

variable {fuel : Nat} {before : List (Option Expression)} {rest : List Char}

/-! ## Characters -/

/-- The characters that stand for something else when they are bare. -/
def operators : List Char := "\\.+*?()|[\x7b^$".toList

theorem mem_specials_of_mem_operators {c : Char} (h : c ∈ operators) : c ∈ specials := by
  have hall : operators.all (· ∈ specials) = true := by decide
  exact of_decide_eq_true (List.all_eq_true.1 hall c h)

theorem items?_char {c : Char} (h : c ∉ operators) :
    items? (fuel + 1) {} before (c :: rest) =
      items? fuel {} (some (.literal [c]) :: before) rest := by
  have hskip : skip {} (c :: rest) = c :: rest := rfl
  rw [items?, hskip]
  simp only
  split <;> first | exact absurd (by decide) h | rfl

theorem escape?_special {c : Char} (h : c ∈ specials) (rest : List Char) :
    escape? {} (c :: rest) = some (.char c, rest) := by
  have hescapable : isEscapable c = true := by
    have hall : specials.all isEscapable = true := by decide
    exact List.all_eq_true.1 hall c h
  rw [escape?, if_pos hescapable]
  all_goals
    rintro rfl
    exact absurd h (by decide)

theorem items?_escaped {c : Char} (h : c ∈ specials) :
    items? (fuel + 1) {} before ('\\' :: c :: rest) =
      items? fuel {} (some (.literal [c]) :: before) rest := by
  show (escape? {} (c :: rest)).bind _ = _
  rw [escape?_special h]
  rfl

/-- The items of a text are its characters. -/
def chars (text : List Char) : List Expression := text.map fun c => .literal [c]

theorem items?_escape (text : List Char) :
    items? (fuel + text.length) {} before (escape text ++ rest) =
      items? fuel {} (((chars text).map some).reverse ++ before) rest := by
  induction text generalizing before with
  | nil => rfl
  | cons c text ih =>
    have hcons : escape (c :: text) ++ rest =
        (if c ∈ specials then ['\\', c] else [c]) ++ (escape text ++ rest) := by
      unfold escape
      rw [List.flatMap_cons, List.append_assoc]
    have hitems : items? (fuel + (c :: text).length) {} before (escape (c :: text) ++ rest) =
        items? (fuel + text.length) {} (some (.literal [c]) :: before) (escape text ++ rest) := by
      rw [hcons, List.length_cons, ← Nat.add_assoc]
      split
      next h => exact items?_escaped h
      next h => exact items?_char fun hc => h (mem_specials_of_mem_operators hc)
    rw [hitems, ih]
    simp [chars]

/-! ## Repetitions -/

/-- A repetition is greedy unless a question mark follows. -/
theorem repeatLast?_greedy {e : Expression} {min : Nat} {max : Option Nat}
    (h : rest.head? ≠ some '?') :
    repeatLast? {} min max (some e :: before) rest =
      some (some (.times min max true e) :: before, rest) := by
  cases rest with
  | nil => rfl
  | cons c rest =>
    have hc : c ≠ '?' := by
      rintro rfl
      exact h rfl
    simp [repeatLast?, hc]

theorem items?_plus {e : Expression} (h : rest.head? ≠ some '?') :
    items? (fuel + 1) {} (some e :: before) ('+' :: rest) =
      items? fuel {} (some (.times 1 none true e) :: before) rest := by
  rw [items?]
  show (repeatLast? {} 1 none (some e :: before) rest).bind _ = _
  rw [repeatLast?_greedy h]
  rfl

theorem items?_optional {e : Expression} (h : rest.head? ≠ some '?') :
    items? (fuel + 1) {} (some e :: before) ('?' :: rest) =
      items? fuel {} (some (.times 0 (some 1) true e) :: before) rest := by
  rw [items?]
  show (repeatLast? {} 0 (some 1) (some e :: before) rest).bind _ = _
  rw [repeatLast?_greedy h]
  rfl

theorem items?_lazyStar {e : Expression} :
    items? (fuel + 1) {} (some e :: before) ('*' :: '?' :: rest) =
      items? fuel {} (some (.times 0 none false e) :: before) rest := rfl

theorem items?_bounds {e : Expression} {min : Nat} {max : Option Nat} {text : List Char}
    (hbounds : bounds? {} text = some ((min, max), rest)) (h : rest.head? ≠ some '?') :
    items? (fuel + 1) {} (some e :: before) ('\x7b' :: text) =
      items? fuel {} (some (.times min max true e) :: before) rest := by
  show (bounds? {} text).bind _ = _
  rw [hbounds, Option.bind_some]
  show (repeatLast? {} min max (some e :: before) rest).bind _ = _
  rw [repeatLast?_greedy h]
  rfl

/-! ## Numbers -/

theorem digits_append {ds rest : List Char} {fuel : Nat} (hds : ∀ c ∈ ds, c.isDigit = true)
    (hrest : ∀ c ∈ rest.head?, c.isDigit = false) (hfuel : ds.length ≤ fuel) :
    digits {} fuel (ds ++ rest) = (ds, rest) := by
  induction ds generalizing fuel with
  | nil =>
    cases fuel with
    | zero => rfl
    | succ fuel =>
      cases rest with
      | nil => rfl
      | cons c rest => simp [digits, hrest c rfl]
  | cons d ds ih =>
    cases fuel with
    | zero => cases hfuel
    | succ fuel =>
      obtain ⟨hd, hds⟩ := List.forall_mem_cons.1 hds
      have hmore := ih hds (Nat.le_of_succ_le_succ hfuel)
      rw [List.cons_append, digits, if_pos hd]
      show ((d :: (digits {} fuel (ds ++ rest)).1, (digits {} fuel (ds ++ rest)).2) : _ × _) = _
      rw [hmore]

theorem isBlank_of_isDigit {c : Char} (h : c.isDigit = true) : Text.isBlank c = false := by
  obtain ⟨hlow, hhigh⟩ := Char.isDigit_iff_toNat.1 h
  have hzero : '0'.toNat = 48 := rfl
  have hnine : '9'.toNat = 57 := rfl
  simp only [Text.isBlank, Bool.or_eq_false_iff, Bool.and_eq_false_iff, decide_eq_false_iff_not]
  omega

theorem exists_digits_eq_cons (n : Nat) :
    ∃ d ds, Decimal.digits n = d :: ds ∧ d.isDigit = true := by
  obtain ⟨hpos, hall⟩ := Decimal.isDigits_iff.1 (Decimal.isDigits_digits n)
  cases hds : Decimal.digits n with
  | nil =>
    rw [hds] at hpos
    cases hpos
  | cons d ds =>
    rw [hds] at hall
    exact ⟨d, ds, rfl, hall d List.mem_cons_self⟩

theorem count?_digits {n : Nat} {rest : List Char} (hn : n < 0x100000000)
    (hrest : ∀ c ∈ rest.head?, c.isDigit = false ∧ Text.isBlank c = false) :
    count? {} (Decimal.digits n ++ rest) = some (some n, rest) := by
  have hall := (Decimal.isDigits_iff.1 (Decimal.isDigits_digits n)).2
  have hstart : Text.trimStart (Decimal.digits n ++ rest) = Decimal.digits n ++ rest := by
    obtain ⟨d, ds, hds, hd⟩ := exists_digits_eq_cons n
    apply Text.trimStart_eq_self
    intro c hc
    rw [hds] at hc
    obtain rfl := Option.some.inj hc
    exact isBlank_of_isDigit hd
  have hend : Text.trimStart rest = rest := Text.trimStart_eq_self fun c hc => (hrest c hc).2
  have hread : digits {} (Decimal.digits n ++ rest).length (Decimal.digits n ++ rest) =
      (Decimal.digits n, rest) :=
    digits_append hall (fun c hc => (hrest c hc).1) (by simp)
  have hne : (Decimal.digits n).isEmpty = false := by
    obtain ⟨d, ds, hds, -⟩ := exists_digits_eq_cons n
    rw [hds]
    rfl
  have hvalue : Nat.ofDigitChars 10 (Decimal.digits n) 0 = n := Decimal.value_digits n
  unfold count?
  simp only [hstart, hread, hend, hne, hvalue, if_pos hn]
  rfl

theorem closing_brace (rest : List Char) :
    ∀ c ∈ ('\x7d' :: rest).head?, c.isDigit = false ∧ Text.isBlank c = false := by
  intro c hc
  obtain rfl := Option.some.inj hc
  decide

theorem comma (rest : List Char) :
    ∀ c ∈ (',' :: rest).head?, c.isDigit = false ∧ Text.isBlank c = false := by
  intro c hc
  obtain rfl := Option.some.inj hc
  decide

theorem bounds?_exact {n : Nat} (hn : n < 0x100000000) (rest : List Char) :
    bounds? {} (Decimal.digits n ++ '\x7d' :: rest) = some ((n, some n), rest) := by
  have hcount := count?_digits hn (closing_brace rest)
  unfold bounds?
  show (count? {} (Decimal.digits n ++ '\x7d' :: rest)).bind _ = _
  rw [hcount]
  rfl

theorem bounds?_atLeast {n : Nat} (hn : n < 0x100000000) (rest : List Char) :
    bounds? {} (Decimal.digits n ++ ',' :: '\x7d' :: rest) = some ((n, none), rest) := by
  have hcount := count?_digits hn (comma ('\x7d' :: rest))
  unfold bounds?
  show (count? {} (Decimal.digits n ++ ',' :: '\x7d' :: rest)).bind _ = _
  rw [hcount]
  rfl

theorem bounds?_between {n m : Nat} (hm : m < 0x100000000) (hle : n ≤ m) (rest : List Char) :
    bounds? {} (Decimal.digits n ++ ',' :: (Decimal.digits m ++ '\x7d' :: rest)) =
      some ((n, some m), rest) := by
  have hcount := count?_digits (Nat.lt_of_le_of_lt hle hm)
    (comma (Decimal.digits m ++ '\x7d' :: rest))
  have hcount' := count?_digits hm (closing_brace rest)
  unfold bounds?
  show (count? {} (Decimal.digits n ++ ',' :: (Decimal.digits m ++ '\x7d' :: rest))).bind _ = _
  rw [hcount, Option.bind_some]
  obtain ⟨d, ds, hds, hd⟩ := exists_digits_eq_cons m
  have hne : d ≠ '\x7d' := by
    rintro rfl
    cases hd
  rw [hds, List.cons_append] at hcount' ⊢
  have hskip : skip {} (d :: (ds ++ '\x7d' :: rest)) = d :: (ds ++ '\x7d' :: rest) := rfl
  simp only [hskip]
  split
  next heq =>
    obtain ⟨rfl, -⟩ := List.cons.inj heq
    exact absurd rfl hne
  · show (count? {} (d :: (ds ++ '\x7d' :: rest))).bind _ = _
    rw [hcount', Option.bind_some]
    show (if n ≤ m then some ((n, some m), rest) else none) = _
    rw [if_pos hle]

/-! ## Sets, points and ends -/

theorem items?_brackets {s : CharSet} {text : List Char}
    (hset : brackets? {} fuel text = some (s, rest)) (h : s.only? = none) :
    items? (fuel + 1) {} before ('[' :: text) =
      items? fuel {} (some (.set s) :: before) rest := by
  have hof : ofSet s = .set s := by
    unfold ofSet
    rw [h]
  show (brackets? {} fuel text).bind _ = _
  rw [hset]
  show items? fuel {} (some (ofSet s) :: before) rest = _
  rw [hof]

theorem items?_point :
    items? (fuel + 1) {} before ('.' :: rest) =
      items? fuel {} (some (.set .line) :: before) rest := rfl

theorem items?_textStart :
    items? (fuel + 1) {} before ('^' :: rest) =
      items? fuel {} (some (.look .textStart) :: before) rest := rfl

theorem items?_textEnd :
    items? (fuel + 1) {} before ('$' :: rest) =
      items? fuel {} (some (.look .textEnd) :: before) rest := rfl

theorem items?_nil : items? (fuel + 1) {} before [] = some (ofItems before, {}, []) := rfl

theorem items?_bar :
    items? (fuel + 1) {} before ('|' :: rest) = some (ofItems before, {}, '|' :: rest) := rfl

theorem items?_close :
    items? (fuel + 1) {} before (')' :: rest) = some (ofItems before, {}, ')' :: rest) := rfl

/-! ## Groups -/

theorem alternatives?_of_items? {e : Expression} {text : List Char}
    (h : items? fuel {} [] text = some (e, {}, ')' :: rest)) :
    alternatives? (fuel + 1) {} text = some (e, ')' :: rest) := by
  rw [alternatives?, h]
  rfl

theorem alternatives?_bar {e others : Expression} {text more : List Char}
    (h : items? fuel {} [] text = some (e, {}, '|' :: more))
    (hothers : alternatives? fuel {} more = some (others, rest)) :
    alternatives? (fuel + 1) {} text = some (.alt e others, rest) := by
  rw [alternatives?, h]
  show (alternatives? fuel {} more).bind _ = _
  rw [hothers]
  rfl

theorem items?_plainGroup {body : Expression} {text : List Char}
    (h : alternatives? fuel {} text = some (body, ')' :: rest)) :
    items? (fuel + 1) {} before ("(?:".toList ++ text) =
      items? fuel {} (some body :: before) rest := by
  show items? (fuel + 1) {} before ('(' :: '?' :: ':' :: text) = _
  show (alternatives? fuel {} text).bind _ = _
  rw [h]
  rfl

theorem label?_append {label : List Char} (h : '>' ∉ label) (rest : List Char) :
    label? (label ++ '>' :: rest) = if isLabel label then some (label, rest) else none := by
  unfold label?
  rw [Text.dropWhile_ne_append h, Text.takeWhile_ne_append h]

/-- A group whose label is none ends the reading. -/
theorem items?_labelled {label body : List Char} {e : Expression} (hplain : '>' ∉ label)
    (h : alternatives? fuel {} (body ++ ')' :: rest) = some (e, ')' :: rest)) :
    items? (fuel + 1) {} before (labelled label body ++ rest) =
      if isLabel label then items? fuel {} (some (.group (some label) e) :: before) rest
      else none := by
  have htext : labelled label body ++ rest =
      '(' :: '?' :: 'P' :: '<' :: (label ++ '>' :: (body ++ ')' :: rest)) := by
    unfold labelled
    rw [List.append_assoc, List.append_assoc, List.append_assoc]
    rfl
  have hopening : opening? {} ('?' :: 'P' :: '<' :: (label ++ '>' :: (body ++ ')' :: rest))) =
      if isLabel label then some (.labelled (some label), body ++ ')' :: rest) else none := by
    show (label? (label ++ '>' :: (body ++ ')' :: rest))).map _ = _
    rw [label?_append hplain]
    split <;> rfl
  rw [htext]
  show (opening? {} ('?' :: 'P' :: '<' :: (label ++ '>' :: (body ++ ')' :: rest)))).bind _ = _
  rw [hopening]
  split
  · show (alternatives? fuel {} (body ++ ')' :: rest)).bind _ = _
    rw [h]
    rfl
  · rfl

/-! ## Texts and alternatives -/

/-- The characters of a text, one after another, are the text. -/
theorem concat_chars (text : List Char) : concat (chars text) = .literal text := by
  induction text with
  | nil => rfl
  | cons c text ih =>
    show append (.literal [c]) (concat (chars text)) = _
    rw [ih]
    cases text <;> rfl

theorem append_literal_nil (e : Expression) : append e (.literal []) = e := by
  cases e with
  | literal text => cases text <;> rfl
  | _ => rfl

theorem ofItems_singleton (e : Expression) : ofItems [some e] = e := append_literal_nil e

theorem ofItems_chars (text : List Char) :
    ofItems (((chars text).map some).reverse ++ []) = .literal text := by
  unfold ofItems
  rw [List.append_nil, List.reverse_reverse, List.filterMap_map, ← concat_chars]
  exact congrArg concat List.filterMap_some

theorem length_le_length_escape (text : List Char) : text.length ≤ (escape text).length := by
  induction text with
  | nil => exact Nat.le_refl 0
  | cons c text ih =>
    have hone : 1 ≤ (if c ∈ specials then ['\\', c] else [c]).length := by
      split
      · exact Nat.le_succ 1
      · exact Nat.le_refl 1
    unfold escape at ih ⊢
    rw [List.flatMap_cons, List.length_append, List.length_cons]
    omega

theorem alternatives?_anyOf {items : List (List Char)} (h : items ≠ []) {fuel : Nat}
    (hfuel : (['|'].intercalate (items.map escape)).length + 2 ≤ fuel) (rest : List Char) :
    alternatives? fuel {} (['|'].intercalate (items.map escape) ++ ')' :: rest) =
      some (anyOf items, ')' :: rest) := by
  induction items generalizing fuel with
  | nil => exact absurd rfl h
  | cons text items ih =>
    have hlen := length_le_length_escape text
    cases items with
    | nil =>
      have htext : ['|'].intercalate ([text].map escape) = escape text := List.append_nil _
      rw [htext] at hfuel ⊢
      obtain ⟨fuel, rfl⟩ : ∃ f, fuel = f + 1 + text.length + 1 :=
        ⟨fuel - text.length - 2, by omega⟩
      apply alternatives?_of_items?
      rw [items?_escape, items?_close, ofItems_chars]
      rfl
    | cons other items =>
      have htext : ['|'].intercalate ((text :: other :: items).map escape) =
          escape text ++ '|' :: ['|'].intercalate ((other :: items).map escape) := rfl
      rw [htext] at hfuel ⊢
      rw [List.length_append, List.length_cons] at hfuel
      obtain ⟨fuel, rfl⟩ : ∃ f, fuel = f + 1 + text.length + 1 :=
        ⟨fuel - text.length - 2, by omega⟩
      have hmore := @ih (List.cons_ne_nil _ _) (fuel + 1 + text.length) (by omega)
      rw [List.append_assoc]
      refine alternatives?_bar ?_ hmore
      rw [List.cons_append, items?_escape, items?_bar, ofItems_chars]

end UrlRouting.Expression
