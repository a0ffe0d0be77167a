import UrlRouting.Proofs.Pattern.Matching
import UrlRouting.Proofs.Pattern.Separation

/-
  Patterns whose variables are whole segments of a path.
  `Part.Segmented` says where the slashes stand and `OnePath` which converters there are. A path
  that is put together from the parts and from texts that the converters accept is then read as
  these texts: by an exact pattern (`read?_interleave_exact`), and, if the literal text ends in one
  slash, by a pattern that leaves that slash open (`read?_interleave_optional`).
-/

namespace UrlRouting

open Template (EndsInOneSlash)

/-- Whether every capture stands behind a slash, and before another or at the end. -/
inductive Part.Segmented : List Part → Prop where
  | last (text : String) : Segmented [.literal text]
  | capture {text name next : String} {c : Converter} {rest : List Part}
      (htext : text.toList.getLast? = some '/')
      (hnext : next.toList.head? = some '/' ∨ next = "" ∧ rest = [])
      (hrest : Segmented (.literal next :: rest)) :
      Segmented (.literal text :: .capture name c :: .literal next :: rest)

/-- Whether there is at most one path among converters that else keep within a segment. -/
def OnePath (converters : List Converter) : Prop :=
  converters.count .path ≤ 1 ∧ ∀ c ∈ converters, c = .path ∨ c.IsPlain

theorem onePath_of_cons {c : Converter} {cs : List Converter} (h : OnePath (c :: cs)) :
    OnePath cs := by
  obtain ⟨hcount, hall⟩ := h
  rw [List.count_cons] at hcount
  exact ⟨by omega, fun d hd => hall d (List.mem_cons_of_mem c hd)⟩

/-- Behind a path there is no other. -/
theorem isPlain_or_path_of_onePath {c : Converter} {cs : List Converter} (h : OnePath (c :: cs)) :
    c.IsPlain ∨ c = .path ∧ ∀ d ∈ cs, d.IsPlain := by
  obtain ⟨hcount, hall⟩ := h
  rcases hall c List.mem_cons_self with rfl | hplain
  · right
    refine ⟨rfl, ?_⟩
    intro d hd
    rcases hall d (List.mem_cons_of_mem _ hd) with rfl | hplain
    · have hpos := List.count_pos_iff.2 hd
      rw [List.count_cons_self] at hcount
      omega
    · exact hplain
  · exact .inl hplain

/-! ## Pieces -/

theorem mem_converters_of_mem_pieces {parts : List Part} {c : Converter}
    (h : Piece.capture c ∈ parts.map Part.piece) : c ∈ Part.converters parts := by
  obtain ⟨q, hq, hpiece⟩ := List.mem_map.1 h
  cases q with
  | literal text => cases hpiece
  | capture name d =>
    obtain rfl := Piece.capture.inj hpiece
    exact List.mem_map.2 ⟨(name, d), List.mem_filterMap.2 ⟨_, hq, rfl⟩, rfl⟩

theorem fallsApart_exact {parts : List Part} (h : Part.Segmented parts)
    (hone : OnePath (Part.converters parts)) : FallsApart (parts.map Part.piece) := by
  induction h with
  | last text => trivial
  | @capture text name next c rest htext hnext hrest ih =>
    refine ⟨?_, ?_, ih (onePath_of_cons hone)⟩
    · rcases hnext with hslash | ⟨rfl, rfl⟩
      · exact separated_literal hslash
      · exact separated_literal_nil separated_nil
    · refine (isPlain_or_path_of_onePath hone).imp_right fun ⟨hpath, hplain⟩ => ⟨hpath, ?_⟩
      intro d hd
      exact hplain d (mem_converters_of_mem_pieces hd)

theorem takesSlash_pieces {parts : List Part} {texts : List (List Char)} :
    TakesSlash (parts.map Part.piece) (Part.interleave parts texts) := by
  induction parts generalizing texts with
  | nil => exact .nil
  | cons q parts ih =>
    cases q with
    | literal text => exact .cons (fun h => nomatch h) ih
    | capture name c =>
      cases texts with
      | nil => exact .cons (fun h => nomatch h) ih
      | cons t texts => exact .cons (fun h => nomatch h) ih

/-! ## Without the slash at the end -/

theorem trimSlashes_append_replicate {front : List Char} (h : front.getLast? ≠ some '/')
    (slashes : Nat) : trimSlashes (front ++ List.replicate slashes '/') = front := by
  have hback : front.reverse.dropWhile (· = '/') = front.reverse := by
    cases hfront : front.reverse with
    | nil => rfl
    | cons c back =>
      rw [← List.head?_reverse, hfront] at h
      have hc : c ≠ '/' := fun heq => h (congrArg some heq)
      exact List.dropWhile_cons_of_neg (by simpa using hc)
  unfold trimSlashes
  rw [List.reverse_append, List.reverse_replicate,
    List.dropWhile_append_of_pos (fun c hc => by simp [List.eq_of_mem_replicate hc]), hback,
    List.reverse_reverse]

theorem trimSlashes_of_endsInOneSlash {front : List Char} (h : front.getLast? ≠ some '/') :
    trimSlashes (front ++ ['/']) = front :=
  trimSlashes_append_replicate h 1

/-- Whether the parts end in literal text that ends in one slash. -/
def Part.EndInOneSlash (parts : List Part) : Prop :=
  ∃ text, parts.getLast? = some (.literal text) ∧ EndsInOneSlash text.toList

theorem endInOneSlash_of_cons {q r : Part} {parts : List Part}
    (h : Part.EndInOneSlash (q :: r :: parts)) : Part.EndInOneSlash (r :: parts) := by
  obtain ⟨text, hlast, hend⟩ := h
  rw [List.getLast?_cons_cons] at hlast
  exact ⟨text, hlast, hend⟩

theorem endsInOneSlash_of_singleton {text : String} (h : Part.EndInOneSlash [.literal text]) :
    EndsInOneSlash text.toList := by
  obtain ⟨_, hlast, hend⟩ := h
  obtain rfl := Part.literal.inj (Option.some.inj hlast)
  exact hend

theorem dropSlashes_last {text : String} {front : List Char} (h : text.toList = front ++ ['/'])
    (hfront : front.getLast? ≠ some '/') :
    dropSlashes [.literal text] =
      if front.isEmpty then [] else [.literal (String.ofList front)] := by
  show (if (trimSlashes text.toList).isEmpty then [] else _) = _
  rw [h, trimSlashes_of_endsInOneSlash hfront]

theorem dropSlashes_literal_capture (text name : String) (c : Converter) (parts : List Part) :
    dropSlashes (.literal text :: .capture name c :: parts) =
      .literal text :: .capture name c :: dropSlashes parts := rfl

theorem converters_dropSlashes (parts : List Part) :
    Part.converters (dropSlashes parts) = Part.converters parts :=
  congrArg (List.map Prod.snd) (captures_dropSlashes parts)

theorem flatten_dropSlashes {parts : List Part} (h : Part.Segmented parts)
    (hend : Part.EndInOneSlash parts) {texts : List (List Char)}
    (hlen : texts.length = (Part.converters parts).length) :
    (Part.interleave parts texts).flatten =
      (Part.interleave (dropSlashes parts) texts).flatten ++ ['/'] := by
  induction h generalizing texts with
  | last text =>
    obtain ⟨front, htext, hfront⟩ := endsInOneSlash_of_singleton hend
    rw [dropSlashes_last htext hfront]
    cases front with
    | nil => simp [Part.interleave, htext]
    | cons c front => simp [Part.interleave, htext]
  | @capture text name next c rest _ _ _ ih =>
    cases texts with
    | nil => cases hlen
    | cons t texts =>
      have hrest := ih (endInOneSlash_of_cons (endInOneSlash_of_cons hend)) (Nat.succ.inj hlen)
      rw [dropSlashes_literal_capture, Part.flatten_interleave_literal,
        Part.flatten_interleave_capture, hrest, Part.flatten_interleave_literal,
        Part.flatten_interleave_capture, List.append_assoc, List.append_assoc]

theorem separated_dropSlashes {next : String} {rest : List Part}
    (hslash : next.toList.head? = some '/') (h : Part.Segmented (.literal next :: rest))
    (hend : Part.EndInOneSlash (.literal next :: rest)) :
    Separated ((dropSlashes (.literal next :: rest)).map Part.piece ++ [.optionalSlash]) := by
  cases h with
  | last =>
    obtain ⟨front, htext, hfront⟩ := endsInOneSlash_of_singleton hend
    rw [dropSlashes_last htext hfront]
    cases front with
    | nil => exact separated_optionalSlash
    | cons c front =>
      apply separated_literal
      rw [String.toList_ofList]
      rw [htext] at hslash
      exact hslash
  | capture => exact separated_literal hslash

theorem fallsApart_optional {parts : List Part} (h : Part.Segmented parts)
    (hend : Part.EndInOneSlash parts) (hone : OnePath (Part.converters parts)) :
    FallsApart ((dropSlashes parts).map Part.piece ++ [.optionalSlash]) := by
  induction h with
  | last text =>
    obtain ⟨front, htext, hfront⟩ := endsInOneSlash_of_singleton hend
    rw [dropSlashes_last htext hfront]
    cases front with
    | nil => rfl
    | cons c front => rfl
  | @capture text name next c rest _ hnext hrest ih =>
    have hend' := endInOneSlash_of_cons (endInOneSlash_of_cons hend)
    refine ⟨?_, ?_, ih hend' (onePath_of_cons hone)⟩
    · rcases hnext with hslash | ⟨rfl, rfl⟩
      · exact separated_dropSlashes hslash hrest hend'
      · obtain ⟨front, htext, -⟩ := endsInOneSlash_of_singleton hend'
        cases front <;> cases htext
    · refine (isPlain_or_path_of_onePath hone).imp_right fun ⟨hpath, hplain⟩ => ⟨hpath, ?_⟩
      intro d hd
      rcases List.mem_append.1 hd with hd | hd
      · have hmem := mem_converters_of_mem_pieces hd
        rw [converters_dropSlashes] at hmem
        exact hplain d hmem
      · cases List.mem_singleton.1 hd

/-- The last text before the open slash is literal or that of a variable, and ends in no slash. -/
theorem getLast?_dropSlashes {parts : List Part} (h : Part.Segmented parts)
    (hend : Part.EndInOneSlash parts) {texts : List (List Char)}
    (hlen : texts.length = (Part.converters parts).length)
    (htexts : ∀ t ∈ texts, t ≠ [] ∧ t.getLast? ≠ some '/') :
    (Part.interleave (dropSlashes parts) texts).flatten.getLast? ≠ some '/' := by
  induction h generalizing texts with
  | last text =>
    obtain ⟨front, htext, hfront⟩ := endsInOneSlash_of_singleton hend
    rw [dropSlashes_last htext hfront]
    cases front with
    | nil => exact fun h => nomatch h
    | cons c front => simpa [Part.interleave] using hfront
  | @capture text name next c rest _ _ _ ih =>
    cases texts with
    | nil => cases hlen
    | cons t texts =>
      obtain ⟨⟨hne, hlast⟩, hmore⟩ := List.forall_mem_cons.1 htexts
      have hrest := ih (endInOneSlash_of_cons (endInOneSlash_of_cons hend)) (Nat.succ.inj hlen)
        hmore
      rw [dropSlashes_literal_capture, Part.flatten_interleave_literal,
        Part.flatten_interleave_capture, List.getLast?_append, List.getLast?_append]
      cases hr : (Part.interleave (dropSlashes (.literal next :: rest)) texts).flatten.getLast? with
      | some c =>
        rw [hr] at hrest
        exact hrest
      | none =>
        obtain ⟨c, hc⟩ := Option.ne_none_iff_exists'.1 (mt List.getLast?_eq_none_iff.1 hne)
        rw [hc] at hlast ⊢
        exact hlast

/-! ## Reading what was put together -/

namespace Pattern

variable {p : Pattern} {texts : List (List Char)}

theorem read?_interleave_exact (hnames : p.hasPlainNames = true) (h : p.slashes = .exact)
    (hparts : Part.Segmented p.parts) (hone : OnePath (Part.converters p.parts))
    (htexts : List.Forall₂ Converter.Accepts (Part.converters p.parts) texts) :
    ∃ slash, p.read? (String.ofList (Part.interleave p.parts texts).flatten) =
      some ⟨texts.map String.ofList, slash⟩ := by
  have hdivides := divides_pieces_iff.2 ⟨texts, htexts, rfl, rfl⟩
  have hread := captureTexts_interleave htexts.length_eq.symm [] []
  simp only [captureTexts, List.append_nil] at hread
  rw [read?_exact hnames h, String.toList_ofList,
    firstSplit_eq_of_fallsApart (fallsApart_exact hparts hone) hdivides takesSlash_pieces,
    Option.map_some, hread]
  exact ⟨_, rfl⟩

theorem read?_interleave_optional (hnames : p.hasPlainNames = true) (h : p.slashes = .optional)
    (hparts : Part.Segmented p.parts) (hend : Part.EndInOneSlash p.parts)
    (hone : OnePath (Part.converters p.parts))
    (htexts : List.Forall₂ Converter.Accepts (Part.converters p.parts) texts)
    (hplain : ∀ t ∈ texts, t ≠ [] ∧ t.getLast? ≠ some '/') :
    p.read? (String.ofList (Part.interleave p.parts texts).flatten) =
      some ⟨texts.map String.ofList, true⟩ := by
  have hlen := htexts.length_eq.symm
  have hbefore := getLast?_dropSlashes hparts hend hlen hplain
  rw [← converters_dropSlashes] at htexts hlen
  have hslash : Divides [.optionalSlash] [['/']] ['/'] := by
    refine divides_cons_iff.2 ⟨['/'], [], [], rfl, rfl, ?_, divides_nil_iff.2 ⟨rfl, rfl⟩⟩
    exact Or.inr rfl
  have hdivides := divides_append (divides_pieces_iff.2 ⟨texts, htexts, rfl, rfl⟩) hslash
  have htakes : TakesSlash ((dropSlashes p.parts).map Part.piece ++ [.optionalSlash])
      (Part.interleave (dropSlashes p.parts) texts ++ [['/']]) :=
    List.rel_append takesSlash_pieces (.cons (fun _ => rfl) .nil)
  have hread := captureTexts_interleave hlen [.optionalSlash] [['/']]
  simp only [captureTexts, List.append_nil] at hread
  rw [flatten_dropSlashes hparts hend (by rw [hlen, converters_dropSlashes]),
    read?_eq_firstSplit hnames, String.toList_ofList, pieces_of_optional h, body_of_optional h,
    firstSplit_eq_of_fallsApart (fallsApart_optional hparts hend hone) hdivides htakes,
    Option.bind_some, hread]
  simp only [readingAt, h, List.getLast?_concat, Option.getD_some, List.length_append,
    List.length_singleton, Nat.add_sub_cancel, List.take_left, hbefore, ↓reduceIte]
  simp

end Pattern

end UrlRouting
