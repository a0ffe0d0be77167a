import UrlRouting.Proofs.Pattern.LastSlash

/-
  The two slash policies on templates that end in one slash.
  What a pattern says of a path are the first texts that its parts can have in it (`firstTexts?`),
  and the parts without their last slash have the same first texts in the path without it
  (`firstTexts?_congr`). So an open slash is no more than that (`read?_optional_eq_exact`): a path
  that ends in one is read as the exact pattern reads it, unless it ends in two; any other as the
  exact pattern reads it with a slash behind. For this the variables must leave the slash alone: one
  that takes no text is where the pieces meet, and a word with a slash is taken with it.
-/

namespace UrlRouting

open Template (EndsInOneSlash)

/-! ## The first texts -/

namespace Part

variable {parts : List Part} {texts : List (List Char)} {path : List Char}

/-- The texts of the captures in the first division of a path among the parts. -/
def firstTexts? (parts : List Part) (path : List Char) : Option (List (List Char)) :=
  (firstSplit (parts.map piece) path).map (Pattern.captureTexts (parts.map piece))

theorem firstTexts?_eq_some_iff_firstSplit :
    firstTexts? parts path = some texts ↔
      List.Forall₂ Converter.Accepts (converters parts) texts ∧
        firstSplit (parts.map piece) path = some (interleave parts texts) := by
  have hread : ∀ ts, List.Forall₂ Converter.Accepts (converters parts) ts →
      Pattern.captureTexts (parts.map piece) (interleave parts ts) = ts := by
    intro ts hts
    simpa [Pattern.captureTexts] using captureTexts_interleave hts.length_eq.symm [] []
  unfold firstTexts?
  rw [Option.map_eq_some_iff]
  constructor
  · rintro ⟨division, hsplit, rfl⟩
    obtain ⟨ts, haccepts, rfl, -⟩ := divides_pieces_iff.1 (divides_of_firstSplit hsplit)
    rw [hread ts haccepts]
    exact ⟨haccepts, hsplit⟩
  · rintro ⟨haccepts, hsplit⟩
    exact ⟨_, hsplit, hread texts haccepts⟩

/-- They are the first of all texts that make up the path. -/
theorem firstTexts?_eq_some_iff :
    firstTexts? parts path = some texts ↔
      (List.Forall₂ Converter.Accepts (converters parts) texts ∧
        path = (interleave parts texts).flatten) ∧
      ∀ others, List.Forall₂ Converter.Accepts (converters parts) others →
        path = (interleave parts others).flatten →
          others = texts ∨ Precedes Converter.Prefers (converters parts) texts others := by
  rw [firstTexts?_eq_some_iff_firstSplit]
  constructor
  · rintro ⟨haccepts, hsplit⟩
    obtain ⟨⟨-, hpath⟩, horder⟩ := firstSplit_eq_some_iff.1 hsplit
    refine ⟨⟨haccepts, hpath.symm⟩, ?_⟩
    intro others hothers hpath'
    have hlen := haccepts.length_eq.symm
    have hlen' := hothers.length_eq.symm
    exact (horder _ (divides_pieces_iff.2 ⟨others, hothers, rfl, hpath'⟩)).imp
      (interleave_inj hlen' hlen) (precedes_of_interleave hlen hlen')
  · rintro ⟨⟨haccepts, hpath⟩, horder⟩
    refine ⟨haccepts, ?_⟩
    obtain ⟨first, hfirst, hbefore⟩ :=
      firstSplit_of_divides (divides_pieces_iff.2 ⟨texts, haccepts, rfl, hpath⟩)
    obtain ⟨others, hothers, rfl, hpath'⟩ := divides_pieces_iff.1 (divides_of_firstSplit hfirst)
    rcases hbefore with heq | hbefore
    · rwa [heq] at hfirst
    · have hbefore' := precedes_of_interleave hothers.length_eq.symm haccepts.length_eq.symm hbefore
      rcases horder others hothers hpath' with rfl | hafter
      · exact hfirst
      · exact absurd hbefore' (precedes_asymm Converter.prefers_asymm hafter)

/-- Where the same texts make up two paths, the first of them are the same. -/
theorem firstTexts?_congr {parts' : List Part} {path' : List Char}
    (hconverters : converters parts = converters parts')
    (hpaths : ∀ texts, path = (interleave parts texts).flatten ↔
      path' = (interleave parts' texts).flatten) :
    firstTexts? parts path = firstTexts? parts' path' := by
  apply Option.ext
  intro texts
  simp only [firstTexts?_eq_some_iff, hconverters, hpaths]

theorem LastSlash.firstTexts?_append {before : List Part} {front : List Char}
    (h : LastSlash parts before front) (path : List Char) :
    firstTexts? parts (path ++ ['/']) = firstTexts? (dropSlashes parts) path := by
  refine firstTexts?_congr (converters_dropSlashes parts).symm fun texts => ?_
  rw [h.flatten_interleave texts, List.append_left_inj]

end Part

/-! ## Variables that leave the slash -/

namespace Converter

/-- The bounds of a string may allow no character, and the words of a choice may be empty. -/
theorem accepts_nil_iff {c : Converter} :
    c.Accepts [] ↔ (∃ b, c = .string b ∧ b.least = 0) ∨ ∃ items, c = .any items ∧ "" ∈ items := by
  cases c with
  | string b =>
    have hallows : b.Allows 0 ↔ b.least = 0 := by
      unfold LengthBounds.Allows LengthBounds.least
      cases b.exact with
      | none => simp
      | some exact => simp [eq_comm]
    simp [Accepts, hallows]
  | any items => simp [Accepts]
  | path => simp [Accepts]
  | int b => simp [Accepts, Decimal.isDigits]
  | float b => simp [Accepts]
  | uuid => simp [Accepts, Uuid.IsHyphenated]

theorem leavesSlash_of_not_mem {c : Converter} (hempty : ¬ c.Accepts [])
    (hitems : ∀ items, c = .any items → ∀ item ∈ items, '/' ∉ item.toList) : c.LeavesSlash := by
  by_cases hany : ∃ items, c = .any items
  · obtain ⟨items, rfl⟩ := hany
    refine ⟨hempty, fun text htext => ?_⟩
    have hnone := hitems items rfl _ htext
    rw [String.toList_ofList] at hnone
    exact absurd (List.mem_append_right text List.mem_cons_self) hnone
  · exact leavesSlash_of_ne_any (fun items heq => hany ⟨items, heq⟩) hempty

end Converter

/-! ## Reading with the slash open -/

theorem suffix_append_slash_iff {before : List Char} :
    ['/', '/'] <:+ before ++ ['/'] ↔ before.getLast? = some '/' := by
  rw [List.getLast?_eq_some_iff]
  constructor
  · rintro ⟨more, heq⟩
    have hsame : before ++ ['/'] = (more ++ ['/']) ++ ['/'] := by
      rw [← heq, List.append_assoc, List.singleton_append]
    exact ⟨more, List.append_cancel_right hsame⟩
  · rintro ⟨more, rfl⟩
    exact ⟨more, by rw [List.append_assoc, List.singleton_append]⟩

theorem firstSplit_append_nil {ps : List Piece} {text : List Char} {d : List (List Char)}
    (h : firstSplit ps text = some d) (hend : text.getLast? ≠ some '/') :
    firstSplit (ps ++ [.optionalSlash]) text = some (d ++ [[]]) := by
  obtain ⟨hd, horder⟩ := firstSplit_eq_some_iff.1 h
  refine firstSplit_eq_some_iff.2 ⟨divides_optionalSlash_iff.2
    ⟨d, [], text, rfl, (List.append_nil text).symm, hd, .inl rfl⟩, ?_⟩
  intro division hdivision
  obtain ⟨e, slash, before, rfl, rfl, he, rfl | rfl⟩ := divides_optionalSlash_iff.1 hdivision
  · rw [List.append_nil] at horder
    rcases horder e he with rfl | hbefore
    · exact .inl rfl
    · exact .inr ((precedes_append_iff hd.length_eq he.length_eq).2 (.inl hbefore))
  · exact absurd List.getLast?_concat hend

namespace Pattern

variable {p : Pattern}

theorem read?_exact_eq_firstTexts? (hnames : p.hasPlainNames = true) (h : p.slashes = .exact)
    (path : String) :
    p.read? path = (Part.firstTexts? p.parts path.toList).map fun texts =>
      ⟨texts.map String.ofList, path.toList.getLast? = some '/'⟩ := by
  rw [read?_exact hnames h, Part.firstTexts?, Option.map_map]
  rfl

/-- Without a slash at its end a path is read by the body alone. -/
theorem read?_optional_of_ne (hnames : p.hasPlainNames = true) (h : p.slashes = .optional)
    {path : String} (hend : path.toList.getLast? ≠ some '/') :
    p.read? path = (Part.firstTexts? p.body path.toList).map fun texts =>
      ⟨texts.map String.ofList, false⟩ := by
  apply Option.ext
  intro reading
  rw [read?_optional_eq_some_iff hnames h, Option.map_eq_some_iff]
  constructor
  · rintro ⟨texts, slash, haccepts, hsplit, -, rfl⟩
    obtain ⟨d, slash', before, heq, hpath, -, hslash⟩ :=
      divides_optionalSlash_iff.1 (divides_of_firstSplit hsplit)
    obtain rfl : slash = slash' := List.head_eq_of_cons_eq (List.append_inj' heq rfl).2
    obtain rfl : slash = [] := by
      refine hslash.resolve_right ?_
      rintro rfl
      exact hend (by rw [hpath, List.getLast?_concat])
    refine ⟨texts, Part.firstTexts?_eq_some_iff_firstSplit.2
      ⟨p.converters_body ▸ haccepts, firstSplit_of_optionalSlash hsplit⟩, ?_⟩
    rw [decide_eq_false hend]
  · rintro ⟨texts, hfirst, rfl⟩
    obtain ⟨haccepts, hsplit⟩ := Part.firstTexts?_eq_some_iff_firstSplit.1 hfirst
    have hpath := (divides_of_firstSplit hsplit).2
    refine ⟨texts, [], p.converters_body ▸ haccepts, firstSplit_append_nil hsplit hend, ?_, ?_⟩
    · rwa [hpath]
    · rw [decide_eq_false hend]

/-- With a slash at its end a path is read by the body without it, if no other stands before. -/
theorem read?_optional_of_append (hnames : p.hasPlainNames = true) (h : p.slashes = .optional)
    {path : String} {before : List Char} (hpath : path.toList = before ++ ['/'])
    (hleave : LeaveSlash (p.body.map Part.piece) (before ++ ['/'])) :
    p.read? path = if before.getLast? = some '/' then none else
      (Part.firstTexts? p.body before).map fun texts => ⟨texts.map String.ofList, true⟩ := by
  have hend : path.toList.getLast? = some '/' := by rw [hpath, List.getLast?_concat]
  apply Option.ext
  intro reading
  rw [read?_optional_eq_some_iff hnames h, hpath]
  constructor
  · rintro ⟨texts, slash, haccepts, hsplit, hguard, rfl⟩
    obtain ⟨d, slash', whole, heq, htext, hd, hslash⟩ :=
      divides_optionalSlash_iff.1 (divides_of_firstSplit hsplit)
    obtain ⟨rfl, hslashes⟩ := List.append_inj' heq rfl
    obtain rfl : slash = slash' := List.head_eq_of_cons_eq hslashes
    rw [hd.2] at hguard
    -- the slash at the end is not left to the body
    obtain rfl : slash = ['/'] := by
      refine hslash.resolve_left ?_
      rintro rfl
      rw [List.append_nil] at htext
      exact hguard (by rw [← htext, List.getLast?_concat])
    obtain rfl := List.append_inj_left' htext rfl
    obtain ⟨first, hfirst, -⟩ := firstSplit_of_divides hd
    have hsplit' := firstSplit_append_slash hleave hfirst
    obtain rfl := List.append_inj_left' (Option.some.inj (hsplit'.symm.trans hsplit)) rfl
    rw [if_neg hguard, Part.firstTexts?_eq_some_iff_firstSplit.2
      ⟨p.converters_body ▸ haccepts, hfirst⟩, List.getLast?_concat]
    rfl
  · intro hread
    split at hread
    · cases hread
    next hguard =>
      obtain ⟨texts, hfirst, rfl⟩ := Option.map_eq_some_iff.1 hread
      obtain ⟨haccepts, hsplit⟩ := Part.firstTexts?_eq_some_iff_firstSplit.1 hfirst
      refine ⟨texts, ['/'], p.converters_body ▸ haccepts, firstSplit_append_slash hleave hsplit,
        ?_, ?_⟩
      · rwa [(divides_of_firstSplit hsplit).2]
      · rw [List.getLast?_concat, decide_eq_true rfl]

/-! ## The two policies -/

/-- A template that ends in one slash says the same under both policies, if its variables have
texts that are not empty and no word to choose holds a slash: a path that ends in a slash is read
with the slash open as with the slash asked for, unless it ends in two slashes; another path is read
as the path with a slash behind it. -/
theorem read?_optional_eq_exact {template : String} {catalogue : Catalogue}
    {segments : List Segment} {exact opened : Pattern}
    (hparse : Template.parse template = .ok segments)
    (hexact : ofSegments catalogue .exact segments = .ok exact)
    (hopened : ofSegments catalogue .optional segments = .ok opened)
    (hend : EndsInOneSlash template.toList)
    (hempty : ∀ c ∈ Part.converters exact.parts, ¬ c.Accepts [])
    (hitems : ∀ items, .any items ∈ Part.converters exact.parts →
      ∀ item ∈ items, '/' ∉ item.toList) (path : String) :
    (path.toList.getLast? = some '/' →
      opened.read? path = if ['/', '/'] <:+ path.toList then none
        else (exact.read? path).map fun reading => ⟨reading.texts, true⟩) ∧
    (path.toList.getLast? ≠ some '/' →
      opened.read? path =
        (exact.read? (path ++ "/")).map fun reading => ⟨reading.texts, false⟩) := by
  obtain ⟨hparts, hslashes, -⟩ := ofSegments_eq_ok_iff.1 hexact
  obtain ⟨hparts', hslashes', -⟩ := ofSegments_eq_ok_iff.1 hopened
  have hnames := hasPlainNames_of_parse hparse hexact
  have hnames' := hasPlainNames_of_parse hparse hopened
  obtain ⟨before, front, hlast⟩ := exists_lastSlash hparse hexact hend
  have hbody : opened.body = dropSlashes exact.parts := by
    have hsame := (Segment.mapM_toPart_eq_ok_iff.2 hparts).symm.trans
      (Segment.mapM_toPart_eq_ok_iff.2 hparts')
    rw [body_of_optional hslashes', Except.ok.inj hsame]
  have hleaves : ∀ c ∈ Part.converters exact.parts, c.LeavesSlash := by
    intro c hc
    refine Converter.leavesSlash_of_not_mem (hempty c hc) ?_
    rintro items rfl
    exact hitems items hc
  constructor
  · intro hslash
    obtain ⟨whole, hpath⟩ := List.getLast?_eq_some_iff.1 hslash
    rw [read?_optional_of_append hnames' hslashes' hpath (hbody ▸ hlast.leaveSlash hleaves whole),
      read?_exact_eq_firstTexts? hnames hslashes, hpath, hlast.firstTexts?_append, hbody]
    simp only [suffix_append_slash_iff, Option.map_map]
    rfl
  · intro hslash
    rw [read?_optional_of_ne hnames' hslashes' hslash, read?_exact_eq_firstTexts? hnames hslashes,
      String.toList_append, show "/".toList = ['/'] from rfl, hlast.firstTexts?_append, hbody,
      Option.map_map]
    rfl

/-- The pattern of `/files/<path:name>/`. -/
def files (slashes : SlashPolicy) : Pattern :=
  ⟨[.literal "/files/", .capture "name" .path, .literal "/"], slashes⟩

theorem read?_optional_eq_exact_files :
    (files .optional).read? "/files/a/b/" = some ⟨["a/b"], true⟩ ∧
      (files .optional).read? "/files/a/b" = some ⟨["a/b"], false⟩ ∧
      (files .optional).read? "/files/a//" = none := by
  have hparse : Template.parse "/files/<path:name>/" =
      .ok [.literal "/files/", .placeholder ⟨"path", {}, "name"⟩, .literal "/"] := by
    decide +kernel
  have hexact : ofSegments .standard .exact
      [.literal "/files/", .placeholder ⟨"path", {}, "name"⟩, .literal "/"] =
        .ok (files .exact) := by
    decide +kernel
  have hopened : ofSegments .standard .optional
      [.literal "/files/", .placeholder ⟨"path", {}, "name"⟩, .literal "/"] =
        .ok (files .optional) := by
    decide +kernel
  have hagree := read?_optional_eq_exact hparse hexact hopened
    ⟨"/files/<path:name>".toList, by decide, by decide⟩
    (by simp [files, Part.converters, Part.capture?, Converter.accepts_nil_iff])
    (by simp [files, Part.converters, Part.capture?])
  refine ⟨?_, ?_, ?_⟩
  · rw [(hagree "/files/a/b/").1 (by decide)]
    decide +kernel
  · rw [(hagree "/files/a/b").2 (by decide)]
    decide +kernel
  · rw [(hagree "/files/a//").1 (by decide)]
    decide +kernel

end Pattern

end UrlRouting
