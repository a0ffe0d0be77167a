import UrlRouting.Proofs.Pattern.Compile
import UrlRouting.Proofs.Pattern.Division

/-
  Which paths a pattern matches, and with which texts of its variables.
  `Matches` says it without a matcher: the path is the literal text of the pattern with a text that
  its converter accepts in the place of every variable. A division of the path among the pieces is
  such a list of texts with the literal text between (`divides_pieces_iff`), and the order of
  divisions is that of the texts; so an exact pattern reads a path just when it matches with some
  texts, and says the first of them (`read?_exact_eq_first`).
-/

namespace UrlRouting

namespace Part

/-- The converters of the captures, in order. -/
def converters (parts : List Part) : List Converter := (parts.filterMap capture?).map Prod.snd

/-- The texts of the parts when the captures have these, in order. -/
def interleave : List Part → List (List Char) → List (List Char)
  | [], _ => []
  | .literal text :: parts, texts => text.toList :: interleave parts texts
  | .capture _ _ :: parts, t :: texts => t :: interleave parts texts
  | .capture _ _ :: parts, [] => [] :: interleave parts []

@[simp] theorem converters_nil : converters [] = [] := rfl

@[simp] theorem converters_literal (text : String) (parts : List Part) :
    converters (.literal text :: parts) = converters parts := rfl

@[simp] theorem converters_capture (name : String) (c : Converter) (parts : List Part) :
    converters (.capture name c :: parts) = c :: converters parts := rfl

theorem flatten_interleave_literal (text : String) (parts : List Part)
    (texts : List (List Char)) :
    (interleave (.literal text :: parts) texts).flatten =
      text.toList ++ (interleave parts texts).flatten := rfl

theorem flatten_interleave_capture (name : String) (c : Converter) (parts : List Part)
    (t : List Char) (texts : List (List Char)) :
    (interleave (.capture name c :: parts) (t :: texts)).flatten =
      t ++ (interleave parts texts).flatten := rfl

end Part

/-- Whether the path is the literal text of the pattern with these texts for its variables, each of
which its converter accepts. -/
def Pattern.Matches (p : Pattern) (texts : List (List Char)) (path : List Char) : Prop :=
  List.Forall₂ Converter.Accepts (Part.converters p.parts) texts ∧
    path = (Part.interleave p.parts texts).flatten

theorem Pattern.converters_body (p : Pattern) :
    Part.converters p.body = Part.converters p.parts :=
  congrArg (List.map Prod.snd) p.captures_body

/-! ## Divisions and the texts of captures -/

theorem divides_pieces_iff {parts : List Part} {division : List (List Char)} {path : List Char} :
    Divides (parts.map Part.piece) division path ↔
      ∃ texts, List.Forall₂ Converter.Accepts (Part.converters parts) texts ∧
        division = Part.interleave parts texts ∧ path = (Part.interleave parts texts).flatten := by
  induction parts generalizing division path with
  | nil =>
    rw [List.map_nil, divides_nil_iff]
    constructor
    · rintro ⟨rfl, rfl⟩
      exact ⟨[], .nil, rfl, rfl⟩
    · rintro ⟨texts, -, rfl, rfl⟩
      exact ⟨rfl, rfl⟩
  | cons q parts ih =>
    rw [List.map_cons, divides_cons_iff]
    cases q with
    | literal text =>
      constructor
      · rintro ⟨t, ts, rest, rfl, rfl, rfl, hts⟩
        obtain ⟨texts, htexts, rfl, rfl⟩ := ih.1 hts
        exact ⟨texts, htexts, rfl, rfl⟩
      · rintro ⟨texts, htexts, rfl, rfl⟩
        exact ⟨_, _, _, rfl, rfl, rfl, ih.2 ⟨texts, htexts, rfl, rfl⟩⟩
    | capture name c =>
      constructor
      · rintro ⟨t, ts, rest, rfl, rfl, ht, hts⟩
        obtain ⟨texts, htexts, rfl, rfl⟩ := ih.1 hts
        exact ⟨t :: texts, .cons ht htexts, rfl, rfl⟩
      · rintro ⟨_, htexts, rfl, rfl⟩
        obtain ⟨t, texts, ht, hmore, rfl⟩ := List.forall₂_cons_left_iff.1 htexts
        exact ⟨t, _, _, rfl, rfl, ht, ih.2 ⟨texts, hmore, rfl, rfl⟩⟩

/-- From a division the texts of the captures are read off as they were put in. -/
theorem captureTexts_interleave {parts : List Part} {texts : List (List Char)}
    (h : texts.length = (Part.converters parts).length) (pieces : List Piece)
    (division : List (List Char)) :
    Pattern.captureTexts (parts.map Part.piece ++ pieces)
        (Part.interleave parts texts ++ division) =
      texts ++ Pattern.captureTexts pieces division := by
  induction parts generalizing texts with
  | nil =>
    obtain rfl := List.eq_nil_of_length_eq_zero h
    rfl
  | cons q parts ih =>
    cases q with
    | literal text => exact ih h
    | capture name c =>
      cases texts with
      | nil => cases h
      | cons t texts => exact congrArg (t :: ·) (ih (Nat.succ.inj h))

theorem interleave_inj {parts : List Part} {ss ts : List (List Char)}
    (hs : ss.length = (Part.converters parts).length)
    (ht : ts.length = (Part.converters parts).length)
    (h : Part.interleave parts ss = Part.interleave parts ts) : ss = ts := by
  have hss := captureTexts_interleave hs [] []
  have hts := captureTexts_interleave ht [] []
  rw [h, hts] at hss
  simpa [Pattern.captureTexts] using hss.symm

theorem precedes_of_interleave {parts : List Part} {ss ts : List (List Char)}
    (hs : ss.length = (Part.converters parts).length)
    (ht : ts.length = (Part.converters parts).length)
    (h : Precedes Piece.Prefers (parts.map Part.piece) (Part.interleave parts ss)
      (Part.interleave parts ts)) :
    Precedes Converter.Prefers (Part.converters parts) ss ts := by
  induction parts generalizing ss ts with
  | nil => cases h
  | cons q parts ih =>
    cases q with
    | literal text =>
      cases h with
      | here hno => exact hno.elim
      | later hlater => exact ih hs ht hlater
    | capture name c =>
      cases ss with
      | nil => cases hs
      | cons s ss =>
        cases ts with
        | nil => cases ht
        | cons t ts =>
          cases h with
          | here hprefers => exact .here hprefers
          | later hlater => exact .later (ih (Nat.succ.inj hs) (Nat.succ.inj ht) hlater)

/-! ## Exact patterns -/

namespace Pattern

variable {p : Pattern}

/-- With plain names a path is read by the first division among the pieces. -/
theorem read?_eq_firstSplit (hnames : p.hasPlainNames = true) (path : String) :
    p.read? path = (firstSplit p.pieces path.toList).bind fun division =>
      p.readingAt ((captureTexts p.pieces division).map String.ofList) path.toList
        (path.toList.length - (division.getLast?.getD []).length, path.toList.length) := by
  unfold read?
  rw [if_pos hnames]
  unfold divide?
  rw [divide_eq_firstSplit]

theorem read?_exact (hnames : p.hasPlainNames = true) (h : p.slashes = .exact) (path : String) :
    p.read? path = (firstSplit (p.parts.map Part.piece) path.toList).map fun division =>
      ⟨(captureTexts (p.parts.map Part.piece) division).map String.ofList,
        path.toList.getLast? = some '/'⟩ := by
  rw [read?_eq_firstSplit hnames, pieces_of_exact h, body_of_exact h, Option.map_eq_bind]
  refine congrArg _ ?_
  funext division
  simp only [readingAt, h]
  rfl

theorem exists_texts_of_read? (hnames : p.hasPlainNames = true) (h : p.slashes = .exact)
    {path : String} {reading : PathReading} (hread : p.read? path = some reading) :
    ∃ texts, reading = ⟨texts.map String.ofList, path.toList.getLast? = some '/'⟩ ∧
      p.Matches texts path.toList ∧
      firstSplit (p.parts.map Part.piece) path.toList = some (Part.interleave p.parts texts) := by
  rw [read?_exact hnames h] at hread
  obtain ⟨division, hsplit, rfl⟩ := Option.map_eq_some_iff.1 hread
  obtain ⟨texts, haccepts, rfl, hpath⟩ := divides_pieces_iff.1 (divides_of_firstSplit hsplit)
  have htexts := captureTexts_interleave haccepts.length_eq.symm [] []
  simp only [captureTexts, List.append_nil] at htexts
  rw [htexts]
  exact ⟨texts, rfl, ⟨haccepts, hpath⟩, hsplit⟩

/-- The exact pattern of a template reads a path just when it matches with some texts, and then it
says the first list of texts of all with which it matches. -/
theorem read?_exact_eq_first {template : String} {catalogue : Catalogue} {segments : List Segment}
    (hparse : Template.parse template = .ok segments)
    (hp : ofSegments catalogue .exact segments = .ok p) (path : String) :
    ((p.read? path).isSome = true ↔ ∃ texts, p.Matches texts path.toList) ∧
      ∀ reading, p.read? path = some reading →
        p.Matches (reading.texts.map String.toList) path.toList ∧
          (∀ texts, p.Matches texts path.toList → reading.texts.map String.toList = texts ∨
            Precedes Converter.Prefers (Part.converters p.parts)
              (reading.texts.map String.toList) texts) ∧
          reading.trailingSlash = decide (path.toList.getLast? = some '/') := by
  have hnames := hasPlainNames_of_parse hparse hp
  have hexact := (ofSegments_eq_ok_iff.1 hp).2.1
  refine ⟨⟨?_, ?_⟩, ?_⟩
  · intro hsome
    obtain ⟨reading, hread⟩ := Option.isSome_iff_exists.1 hsome
    obtain ⟨texts, -, hmatch, -⟩ := exists_texts_of_read? hnames hexact hread
    exact ⟨texts, hmatch⟩
  · rintro ⟨texts, haccepts, hpath⟩
    obtain ⟨division, hsplit, -⟩ :=
      firstSplit_of_divides (divides_pieces_iff.2 ⟨texts, haccepts, rfl, hpath⟩)
    rw [read?_exact hnames hexact, hsplit]
    rfl
  · intro reading hread
    obtain ⟨first, rfl, hfirst, hsplit⟩ := exists_texts_of_read? hnames hexact hread
    have hback : (first.map String.ofList).map String.toList = first := by
      rw [List.map_map]
      exact List.map_id'' (fun t => String.toList_ofList) first
    rw [hback]
    refine ⟨hfirst, ?_, rfl⟩
    rintro texts ⟨haccepts, hpath⟩
    obtain ⟨division, hsplit', horder⟩ :=
      firstSplit_of_divides (divides_pieces_iff.2 ⟨texts, haccepts, rfl, hpath⟩)
    obtain rfl := Option.some.inj (hsplit.symm.trans hsplit')
    have hlen := hfirst.1.length_eq.symm
    have hlen' := haccepts.length_eq.symm
    exact horder.imp (interleave_inj hlen hlen') (precedes_of_interleave hlen hlen')

/-- The segments of `/<any(a,ab):x><y>-<path:z>`: two variables touch, and one of the items is how
the other begins. -/
def overlappingSegments : List Segment :=
  [.literal "/", .placeholder ⟨"any", .ofClause "a,ab".toList, "x"⟩, .literal "",
    .placeholder ⟨"default", {}, "y"⟩, .literal "-", .placeholder ⟨"path", {}, "z"⟩, .literal ""]

def overlapping : Pattern where
  parts := [.literal "/", .capture "x" (.any ["a", "ab"]), .literal "", .capture "y" (.string {}),
    .literal "-", .capture "z" .path, .literal ""]
  slashes := .exact

theorem read?_exact_eq_first_overlapping :
    overlapping.Matches ["a".toList, "bc-d".toList, "e".toList] "/abc-d-e".toList ∧
      ∀ texts, overlapping.Matches texts "/abc-d-e".toList →
        ["a".toList, "bc-d".toList, "e".toList] = texts ∨
          Precedes Converter.Prefers (Part.converters overlapping.parts)
            ["a".toList, "bc-d".toList, "e".toList] texts := by
  have hparse : Template.parse "/<any(a,ab):x><y>-<path:z>" = .ok overlappingSegments := by
    decide +kernel
  have hp : ofSegments Catalogue.standard .exact overlappingSegments = .ok overlapping := by
    decide +kernel
  have hread : overlapping.read? "/abc-d-e" = some ⟨["a", "bc-d", "e"], false⟩ := by decide +kernel
  obtain ⟨hmatch, hfirst, -⟩ := (read?_exact_eq_first hparse hp "/abc-d-e").2 _ hread
  exact ⟨hmatch, hfirst⟩

end Pattern

end UrlRouting
