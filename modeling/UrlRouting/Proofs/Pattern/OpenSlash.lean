import UrlRouting.Proofs.Pattern.Matching
import UrlRouting.Proofs.Pattern.Separation

/-
  Patterns that leave the slash at the end of a path open.
  `read?_optional_eq_some_iff` says when such a pattern reads a path: the first division among its
  pieces leaves no slash before the place of the open one. So whatever a pattern reads, it reports
  the slash at the end of the path as it is (`exists_texts_of_read?_any`).
  The open slash does not change how a text is divided. A division of a text without it is one with
  nothing in its place (`firstSplit_of_optionalSlash`), and adding the slash to the text adds it to
  the division, as long as what stands before leaves it (`LeaveSlash`, `firstSplit_append_slash`).
-/

namespace UrlRouting

theorem divides_optionalSlash_iff {ps : List Piece} {division : List (List Char)}
    {text : List Char} :
    Divides (ps ++ [.optionalSlash]) division text ↔ ∃ d slash before, division = d ++ [slash] ∧
      text = before ++ slash ∧ Divides ps d before ∧ (slash = [] ∨ slash = ['/']) := by
  rw [divides_append_iff]
  constructor
  · rintro ⟨d, e, before, slash, rfl, rfl, hd, he⟩
    obtain ⟨rfl, hslash⟩ := divides_singleton_iff.1 he
    exact ⟨d, slash, before, rfl, rfl, hd, hslash⟩
  · rintro ⟨d, slash, before, rfl, rfl, hd, hslash⟩
    exact ⟨d, [slash], before, slash, rfl, rfl, hd, divides_singleton_iff.2 ⟨rfl, hslash⟩⟩

/-! ## Reading -/

namespace Pattern

variable {p : Pattern}

/-- Behind a text that does not end in a slash, the slash is open and seen just where it stands. -/
theorem readingAt_optional (h : p.slashes = .optional) {before slash : List Char}
    (hslash : slash = [] ∨ slash = ['/']) (texts : List String) :
    p.readingAt texts (before ++ slash)
        ((before ++ slash).length - slash.length, (before ++ slash).length) =
      if before.getLast? = some '/' then none
      else some ⟨texts, decide ((before ++ slash).getLast? = some '/')⟩ := by
  unfold readingAt
  simp only [h, List.length_append, Nat.add_sub_cancel, List.take_left]
  split
  · rfl
  next hbefore =>
    rcases hslash with rfl | rfl
    · simp [hbefore]
    · simp

theorem read?_optional_eq_some_iff (hnames : p.hasPlainNames = true) (h : p.slashes = .optional)
    {path : String} {reading : PathReading} :
    p.read? path = some reading ↔ ∃ texts slash,
      List.Forall₂ Converter.Accepts (Part.converters p.parts) texts ∧
        firstSplit (p.body.map Part.piece ++ [.optionalSlash]) path.toList =
          some (Part.interleave p.body texts ++ [slash]) ∧
        (Part.interleave p.body texts).flatten.getLast? ≠ some '/' ∧
        reading = ⟨texts.map String.ofList, path.toList.getLast? = some '/'⟩ := by
  rw [read?_eq_firstSplit hnames, pieces_of_optional h, Option.bind_eq_some_iff]
  constructor
  · rintro ⟨division, hsplit, hreading⟩
    obtain ⟨d, slash, before, rfl, hpath, hd, hslash⟩ :=
      divides_optionalSlash_iff.1 (divides_of_firstSplit hsplit)
    obtain ⟨texts, htexts, rfl, rfl⟩ := divides_pieces_iff.1 hd
    have hread := captureTexts_interleave htexts.length_eq.symm [.optionalSlash] [slash]
    simp only [captureTexts, List.append_nil] at hread
    rw [hread, List.getLast?_concat, Option.getD_some, hpath,
      readingAt_optional h hslash] at hreading
    split at hreading
    · cases hreading
    next hbefore =>
      refine ⟨texts, slash, p.converters_body ▸ htexts, hsplit, hbefore, ?_⟩
      rw [hpath]
      exact (Option.some.inj hreading).symm
  · rintro ⟨texts, slash, htexts, hsplit, hbefore, rfl⟩
    refine ⟨_, hsplit, ?_⟩
    obtain ⟨d, slash', before, heq, hpath, hd, hslash⟩ :=
      divides_optionalSlash_iff.1 (divides_of_firstSplit hsplit)
    obtain ⟨rfl, hs⟩ := List.append_inj' heq rfl
    obtain rfl : slash = slash' := List.head_eq_of_cons_eq hs
    have hlen : texts.length = (Part.converters p.body).length := by
      rw [p.converters_body]
      exact htexts.length_eq.symm
    have hread := captureTexts_interleave hlen [.optionalSlash] [slash]
    simp only [captureTexts, List.append_nil] at hread
    rw [hread, List.getLast?_concat, Option.getD_some, hpath, readingAt_optional h hslash, ← hd.2,
      if_neg hbefore]

/-- What is read of a path: a text for every variable, which its converter accepts, and whether the
path ends in a slash. -/
theorem exists_texts_of_read?_any (hnames : p.hasPlainNames = true) {path : String}
    {reading : PathReading} (hread : p.read? path = some reading) :
    ∃ texts, List.Forall₂ Converter.Accepts (Part.converters p.parts) texts ∧
      reading = ⟨texts.map String.ofList, path.toList.getLast? = some '/'⟩ := by
  cases h : p.slashes with
  | exact =>
    obtain ⟨texts, hreading, ⟨htexts, -⟩, -⟩ := exists_texts_of_read? hnames h hread
    exact ⟨texts, htexts, hreading⟩
  | optional =>
    obtain ⟨texts, -, htexts, -, -, hreading⟩ := (read?_optional_eq_some_iff hnames h).1 hread
    exact ⟨texts, htexts, hreading⟩

/-- A path that is read is what the body makes of its texts, with the open slash if it is there. -/
theorem path_of_read? (hnames : p.hasPlainNames = true) {path : String}
    {texts : List (List Char)} {slash : Bool}
    (hread : p.read? path = some ⟨texts.map String.ofList, slash⟩) :
    path.toList = (Part.interleave p.body texts).flatten ++
      if p.slashes = .optional && slash then ['/'] else [] := by
  cases h : p.slashes with
  | exact =>
    obtain ⟨texts', hreading, ⟨-, hpath⟩, -⟩ := exists_texts_of_read? hnames h hread
    obtain ⟨htexts, -⟩ := PathReading.mk.inj hreading
    obtain rfl := List.map_injective_iff.2 (fun _ _ => String.ofList_injective) htexts
    rw [body_of_exact h]
    simpa using hpath
  | optional =>
    obtain ⟨texts', rest, -, hsplit, hguard, hreading⟩ :=
      (read?_optional_eq_some_iff hnames h).1 hread
    obtain ⟨htexts, rfl⟩ := PathReading.mk.inj hreading
    obtain rfl := List.map_injective_iff.2 (fun _ _ => String.ofList_injective) htexts
    obtain ⟨d, rest', before, heq, hpath, hd, hrest⟩ :=
      divides_optionalSlash_iff.1 (divides_of_firstSplit hsplit)
    obtain ⟨rfl, hsame⟩ := List.append_inj' heq rfl
    obtain rfl : rest = rest' := List.head_eq_of_cons_eq hsame
    rw [hpath, ← hd.2]
    rcases hrest with rfl | rfl
    · simp [hguard]
    · simp

end Pattern

/-! ## Variables and the slash behind them -/

namespace Converter

/-- Whether a variable would rather leave a slash at the end of its text: it also takes the text
without, and tries that one before. -/
def LeavesSlash (c : Converter) : Prop :=
  ¬ c.Accepts [] ∧
    ∀ text, c.Accepts (text ++ ['/']) → c.Accepts text ∧ c.Prefers text (text ++ ['/'])

/-- Only a choice of words may want the slash. -/
theorem leavesSlash_of_ne_any {c : Converter} (hany : ∀ items, c ≠ .any items)
    (hempty : ¬ c.Accepts []) : c.LeavesSlash := by
  refine ⟨hempty, fun text h => ?_⟩
  have hslash : '/' ∈ text ++ ['/'] := List.mem_append_right text List.mem_cons_self
  cases c with
  | any items => exact absurd rfl (hany items)
  | path =>
    obtain ⟨first, rest, htext, hfirst, hline⟩ := h
    cases text with
    | nil => exact absurd (List.head_eq_of_cons_eq htext).symm hfirst
    | cons e text =>
      obtain ⟨rfl, rfl⟩ := List.cons.inj htext
      refine ⟨⟨e, text, rfl, hfirst, fun hmem => hline (List.mem_append_left _ hmem)⟩, ?_⟩
      show (e :: text).length < (e :: text ++ ['/']).length
      simp
  | string b => exact absurd hslash h.1
  | int b => exact absurd hslash (not_mem_of_isPlain (c := .int b) trivial h)
  | float b => exact absurd hslash (not_mem_of_float h)
  | uuid => exact absurd hslash (not_mem_of_isHyphenated h)

end Converter

/-! ## Dividing with the slash and without -/

section

variable {ps : List Piece} {d : List (List Char)} {text : List Char}

/-- Without the slash a text is divided as the pieces before divide it. -/
theorem firstSplit_of_optionalSlash
    (h : firstSplit (ps ++ [.optionalSlash]) text = some (d ++ [[]])) :
    firstSplit ps text = some d := by
  obtain ⟨hwhole, horder⟩ := firstSplit_eq_some_iff.1 h
  obtain ⟨d', slash, before, heq, rfl, hd, -⟩ := divides_optionalSlash_iff.1 hwhole
  obtain ⟨rfl, hslash⟩ := List.append_inj' heq rfl
  obtain rfl : [] = slash := List.head_eq_of_cons_eq hslash
  rw [List.append_nil] at horder ⊢
  refine firstSplit_eq_some_iff.2 ⟨hd, ?_⟩
  intro e he
  have hopen := divides_optionalSlash_iff.2
    ⟨e, [], before, rfl, (List.append_nil before).symm, he, .inl rfl⟩
  rcases horder _ hopen with heq | hbefore
  · exact .inl (List.append_inj_left' heq rfl)
  · rcases (precedes_append_iff hd.length_eq he.length_eq).1 hbefore with hbefore | ⟨-, hlast⟩
    · exact .inr hbefore
    · cases hlast with
      | here hprefers => cases hprefers
      | later hlater => cases hlater

/-- With the slash a text is divided as without, and the slash is taken in its place, if every
division in which the pieces before take it comes later. -/
theorem firstSplit_concat_slash (h : firstSplit ps text = some d)
    (hlater : ∀ e, Divides ps e (text ++ ['/']) →
      Precedes Piece.Prefers (ps ++ [.optionalSlash]) (d ++ [['/']]) (e ++ [[]])) :
    firstSplit (ps ++ [.optionalSlash]) (text ++ ['/']) = some (d ++ [['/']]) := by
  obtain ⟨hd, horder⟩ := firstSplit_eq_some_iff.1 h
  refine firstSplit_eq_some_iff.2
    ⟨divides_optionalSlash_iff.2 ⟨d, ['/'], text, rfl, rfl, hd, .inr rfl⟩, ?_⟩
  intro division hdivision
  obtain ⟨e, slash, before, rfl, hbefore, he, rfl | rfl⟩ := divides_optionalSlash_iff.1 hdivision
  · rw [List.append_nil] at hbefore
    rw [← hbefore] at he
    exact .inr (hlater e he)
  · obtain rfl := List.append_inj_left' hbefore rfl
    rcases horder e he with rfl | hfirst
    · exact .inl rfl
    · exact .inr ((precedes_append_iff hd.length_eq he.length_eq).2 (.inl hfirst))

/-- Pieces of which such a variable is the last would rather leave the slash. -/
theorem precedes_of_leavesSlash {c : Converter} (hc : c.LeavesSlash)
    (h : firstSplit (ps ++ [.capture c]) text = some d) {e : List (List Char)}
    (he : Divides (ps ++ [.capture c]) e (text ++ ['/'])) :
    Precedes Piece.Prefers ((ps ++ [.capture c]) ++ [.optionalSlash]) (d ++ [['/']])
      (e ++ [[]]) := by
  obtain ⟨hd, horder⟩ := firstSplit_eq_some_iff.1 h
  have hdlen := hd.length_eq
  refine (precedes_append_iff hdlen he.length_eq).2 (.inl ?_)
  obtain ⟨es, elast, s, u, rfl, htext, hes, helast⟩ := divides_append_iff.1 he
  obtain ⟨rfl, haccepts⟩ := divides_singleton_iff.1 helast
  -- the variable gives the slash back
  obtain ⟨front, rfl, rfl⟩ : ∃ front, u = front ++ ['/'] ∧ text = s ++ front := by
    rcases List.eq_nil_or_concat' u with rfl | ⟨front, last, rfl⟩
    · exact absurd haccepts hc.1
    · rw [← List.append_assoc] at htext
      obtain ⟨rfl, hlast⟩ := List.append_inj' htext rfl
      rw [← hlast]
      exact ⟨front, rfl, rfl⟩
  obtain ⟨hfront, hprefers⟩ := hc.2 front haccepts
  have hshorter : Divides (ps ++ [.capture c]) (es ++ [front]) (s ++ front) :=
    divides_append hes (divides_singleton_iff.2 ⟨rfl, hfront⟩)
  rcases horder _ hshorter with rfl | hbefore
  · exact (precedes_append_iff hes.length_eq hes.length_eq).2 (.inr ⟨rfl, .here hprefers⟩)
  · obtain ⟨ds, dlast, s', t, rfl, -, hds, hdlast⟩ := divides_append_iff.1 hd
    obtain ⟨rfl, -⟩ := divides_singleton_iff.1 hdlast
    rcases (precedes_append_iff hds.length_eq hes.length_eq).1 hbefore with hbefore | ⟨rfl, hlast⟩
    · exact (precedes_append_iff hds.length_eq hes.length_eq).2 (.inl hbefore)
    · refine (precedes_append_iff hds.length_eq hes.length_eq).2 (.inr ⟨rfl, ?_⟩)
      cases hlast with
      | here hfirst => exact .here (Converter.prefers_trans hfirst hprefers)
      | later hnone => cases hnone

/-- Whether the pieces leave the slash at the end of a text to what stands behind them: they do not
divide the text with it, or the last of them is a variable that would rather leave it. -/
def LeaveSlash (ps : List Piece) (text : List Char) : Prop :=
  (∀ d, ¬ Divides ps d text) ∨
    ∃ before c, ps = before ++ [.capture c] ∧ Converter.LeavesSlash c

theorem firstSplit_append_slash (hleave : LeaveSlash ps (text ++ ['/']))
    (h : firstSplit ps text = some d) :
    firstSplit (ps ++ [.optionalSlash]) (text ++ ['/']) = some (d ++ [['/']]) := by
  refine firstSplit_concat_slash h fun e he => ?_
  rcases hleave with hnone | ⟨before, c, rfl, hc⟩
  · exact absurd he (hnone e)
  · exact precedes_of_leavesSlash hc h he

end

/-- A capture behind literal text takes all of the path that does not end in a slash. -/
theorem firstSplit_literal_capture {c : Converter} {literal text : List Char}
    (htext : c.Accepts text) (hlast : text.getLast? ≠ some '/') :
    firstSplit [.literal literal, .capture c, .optionalSlash] (literal ++ text) =
      some [literal, text, []] := by
  have hrest : Divides ([.capture c] ++ [.optionalSlash]) [text, []] text :=
    divides_optionalSlash_iff.2 ⟨[text], [], text, rfl, (List.append_nil text).symm,
      divides_singleton_iff.2 ⟨rfl, htext⟩, .inl rfl⟩
  refine firstSplit_eq_some_iff.2
    ⟨divides_cons_iff.2 ⟨literal, [text, []], text, rfl, rfl, rfl, hrest⟩, ?_⟩
  intro e he
  obtain ⟨_, es, rest, rfl, heq, rfl, hes⟩ := divides_cons_iff.1 he
  obtain rfl := List.append_cancel_left heq
  have hes' : Divides ([.capture c] ++ [.optionalSlash]) es text := hes
  obtain ⟨d, slash, before, rfl, rfl, hd, rfl | rfl⟩ := divides_optionalSlash_iff.1 hes'
  · obtain ⟨rfl, -⟩ := divides_singleton_iff.1 hd
    rw [List.append_nil]
    exact .inl rfl
  · exact absurd List.getLast?_concat hlast

end UrlRouting
