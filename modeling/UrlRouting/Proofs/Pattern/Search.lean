import UrlRouting.Proofs.Converter.Tree
import UrlRouting.Proofs.Pattern.Matching

/-
  Holding a path against the pieces of a pattern is searching it for the expression.
  The expression is a list of fields, one for each piece, between the ends of the text. Its stops
  are those of the divisions (`Field.spans_of_ends`), so that it is found just when there is a
  division, with the spans of the first one; a label then gives back the text of its piece, since
  no two groups have the same one (`spanText_marks`). `read?_eq_search?` puts both together.
-/

namespace UrlRouting

open Expression

/-- A piece of a pattern with the label of its group, if it is one. -/
structure Field where
  label : Option (List Char)
  piece : Piece

def Piece.tree : Piece → Expression
  | literal text => .literal text
  | capture c => c.tree
  | optionalSlash => .times 0 (some 1) true (.literal ['/'])

def Piece.IsProper : Piece → Prop
  | capture c => c.IsProper
  | _ => True

namespace Field

def tree (f : Field) : Expression :=
  match f.label with
  | none => f.piece.tree
  | some label => .group (some label) f.piece.tree

/-- The span of a text from `pos` on, if the field has a label. -/
def mark (f : Field) (pos length : Nat) : List (List Char × Nat × Nat) :=
  (f.label.map fun label => (label, pos, pos + length)).toList

/-- The spans of the fields with these texts, the first of which begins at `pos`; the latest come
first, and `spans` last. -/
def marks : List Field → List (List Char) → (pos : Nat) → (spans : List (List Char × Nat × Nat)) →
    List (List Char × Nat × Nat)
  | f :: fields, t :: texts, pos, spans =>
    marks fields texts (pos + t.length) (f.mark pos t.length ++ spans)
  | _, _, _, spans => spans

end Field

def Part.field : Part → Field
  | literal text => ⟨none, .literal text.toList⟩
  | capture name c => ⟨some name.toList, .capture c⟩

/-- The fields of a pattern. -/
def Pattern.fields (p : Pattern) : List Field :=
  match p.slashes with
  | .exact => p.body.map Part.field
  | .optional => p.body.map Part.field ++ [⟨some slashLabel, .optionalSlash⟩]

/-! ## Pieces and fields -/

theorem Piece.takes_tree {p : Piece} (h : p.IsProper) : Takes p.tree p.lengths := by
  cases p with
  | literal text => exact takes_literal text
  | capture c => exact Converter.takes_tree h
  | optionalSlash =>
    have htimes : Takes optionalSlash.tree _ :=
      takes_times true (fun m _ => Nat.zero_le m) (ends_literal_singleton '/')
    refine htimes.congr ?_
    intro text
    cases text with
    | nil => rfl
    | cons c text =>
      by_cases hc : c = '/'
      · subst hc
        have hmin : Nat.min (runLength (· = '/') ('/' :: text)) 1 = 1 :=
          Nat.min_eq_right (by simp [runLength])
        simp only [Option.map_some, Option.getD_some, hmin]
        rfl
      · have hrun : runLength (· = '/') (c :: text) = 0 := by
          simp [runLength, hc]
        simp [hrun, lengths, hc, ordered, upward]

namespace Field

theorem findSome?_ends {f : Field} (h : f.piece.IsProper) (text : List Char) (s : Stop)
    {β : Type} (k : Stop → Option β) :
    (ends text.toArray f.tree s).findSome? k = (f.piece.lengths (text.drop s.pos)).findSome?
      fun n => k ⟨s.pos + n, f.mark s.pos n ++ s.spans⟩ := by
  obtain ⟨label, piece⟩ := f
  cases label with
  | none => exact (Piece.takes_tree h text s).2 k
  | some label =>
    show ((ends text.toArray piece.tree s).map _).findSome? k = _
    rw [List.findSome?_map, (Piece.takes_tree h text s).2]
    rfl

theorem spans_of_ends {fields : List Field} (h : ∀ f ∈ fields, f.piece.IsProper)
    (text : List Char) (s : Stop) :
    (ends text.toArray (concat (fields.map tree ++ [.look .textEnd])) s).head?.map Stop.spans =
      (firstSplit (fields.map piece) (text.drop s.pos)).map fun division =>
        marks fields division s.pos s.spans := by
  induction fields generalizing s with
  | nil =>
    show (ends text.toArray (.look .textEnd) s).head?.map Stop.spans = _
    have hend : text.toArray[s.pos]? = (text.drop s.pos).head? := by
      rw [List.head?_drop, List.getElem?_toArray]
    rw [ends, hend]
    cases text.drop s.pos <;> rfl
  | cons f fields ih =>
    obtain ⟨hf, hfields⟩ := List.forall_mem_cons.1 h
    show (ends text.toArray (append f.tree
      (concat (fields.map tree ++ [.look .textEnd]))) s).head?.map Stop.spans = _
    rw [head?_ends_append, findSome?_ends hf, List.map_findSome?, List.map_cons, firstSplit,
      List.map_findSome?]
    apply findSome?_eq_of_forall_mem
    intro n hn
    have hle := Piece.le_length_of_mem_lengths hn
    show Option.map _ (List.head? _) = Option.map _ (Option.map _ _)
    have hmarks : ∀ division,
        marks (f :: fields) ((text.drop s.pos).take n :: division) s.pos s.spans =
          marks fields division (s.pos + n) (f.mark s.pos n ++ s.spans) := by
      intro division
      rw [marks, List.length_take_of_le hle]
    rw [ih hfields, Option.map_map, List.drop_drop]
    exact congrArg (Option.map · _) (funext fun division => (hmarks division).symm)

/-! ## Labels -/

theorem lookup_marks {label : List Char} {fields : List Field}
    (h : label ∉ fields.filterMap Field.label) (division : List (List Char)) (pos : Nat)
    (spans : List (List Char × Nat × Nat)) :
    (marks fields division pos spans).lookup label = spans.lookup label := by
  induction fields generalizing division pos spans with
  | nil => rfl
  | cons f fields ih =>
    cases division with
    | nil => rfl
    | cons t division =>
      obtain ⟨own, piece⟩ := f
      cases own with
      | none => exact ih h division _ _
      | some own =>
        obtain ⟨hne, hlater⟩ := not_or.1 (fun hmem => h (List.mem_cons.2 hmem))
        rw [marks, ih hlater]
        show List.lookup label ((own, _) :: spans) = _
        rw [List.lookup_cons, beq_false_of_ne hne]

theorem marks_append {fields : List Field} {division : List (List Char)}
    (h : division.length = fields.length) (others : List Field) (texts : List (List Char))
    (pos : Nat) (spans : List (List Char × Nat × Nat)) :
    marks (fields ++ others) (division ++ texts) pos spans =
      marks others texts (pos + division.flatten.length) (marks fields division pos spans) := by
  induction fields generalizing division pos spans with
  | nil =>
    obtain rfl := List.eq_nil_of_length_eq_zero h
    rfl
  | cons f fields ih =>
    cases division with
    | nil => cases h
    | cons t division =>
      rw [List.cons_append, List.cons_append, marks, ih (Nat.succ.inj h), List.flatten_cons,
        List.length_append, Nat.add_assoc]
      rfl

end Field

theorem spanText_marks {parts : List Part} {division : List (List Char)} {before after : List Char}
    (hlen : division.length = parts.length)
    (hnodup : (parts.filterMap fun q => q.field.label).Nodup)
    (spans : List (List Char × Nat × Nat)) :
    (parts.filterMap Part.capture?).map (fun q =>
        spanText (before ++ division.flatten ++ after)
          (Field.marks (parts.map Part.field) division before.length spans) q.1.toList) =
      Pattern.captureTexts (parts.map Part.piece) division := by
  induction parts generalizing division before spans with
  | nil => rfl
  | cons q parts ih =>
    cases division with
    | nil => cases hlen
    | cons t division =>
      have hpath : before ++ (t :: division).flatten ++ after =
          before ++ t ++ division.flatten ++ after := by
        rw [List.flatten_cons, ← List.append_assoc]
      have hpos : before.length + t.length = (before ++ t).length := List.length_append.symm
      rw [List.map_cons, Field.marks, hpath, hpos]
      cases q with
      | literal text => exact ih (Nat.succ.inj hlen) hnodup _
      | capture name c =>
        obtain ⟨hnew, hnodup⟩ := List.nodup_cons.1 hnodup
        have hcaptures : (Part.capture name c :: parts).filterMap Part.capture? =
            (name, c) :: parts.filterMap Part.capture? := rfl
        have hlookup : (Field.marks (parts.map Part.field) division (before ++ t).length
            ((Part.capture name c).field.mark before.length t.length ++ spans)).lookup name.toList =
              some (before.length, before.length + t.length) := by
          rw [Field.lookup_marks]
          · exact List.lookup_cons_self
          · rw [List.filterMap_map]
            exact hnew
        have hspan : spanText (before ++ t ++ division.flatten ++ after)
            (Field.marks (parts.map Part.field) division (before ++ t).length
              ((Part.capture name c).field.mark before.length t.length ++ spans)) name.toList =
            t := by
          unfold spanText
          rw [hlookup]
          show ((before ++ t ++ division.flatten ++ after).take (before.length + t.length)).drop
            before.length = t
          rw [hpos, List.append_assoc (before ++ t), List.take_left, List.drop_left]
        rw [hcaptures, List.map_cons, ih (Nat.succ.inj hlen) hnodup, hspan]
        rfl

namespace Pattern

variable {p : Pattern}

theorem tree_eq (p : Pattern) :
    p.tree = concat (.look .textStart :: (p.fields.map Field.tree ++ [.look .textEnd])) := by
  have hbody : p.body.map Part.tree = (p.body.map Part.field).map Field.tree := by
    rw [List.map_map]
    apply List.map_congr_left
    intro q _
    cases q <;> rfl
  unfold tree fields
  cases p.slashes with
  | exact => simp [hbody]
  | optional => simp [hbody]; rfl

theorem pieces_eq (p : Pattern) : p.fields.map Field.piece = p.pieces := by
  have hbody : (p.body.map Part.field).map Field.piece = p.body.map Part.piece := by
    rw [List.map_map]
    apply List.map_congr_left
    intro q _
    cases q <;> rfl
  unfold fields pieces
  cases p.slashes with
  | exact => exact hbody
  | optional => rw [List.map_append, hbody]; rfl

end Pattern

/-- An expression that begins with the start of the text is found there or nowhere. -/
theorem search?_append_textStart (e : Expression) (text : List Char) :
    Expression.search? (append (.look .textStart) e) text =
      (ends text.toArray e ⟨0, []⟩).head?.map Stop.spans := by
  have hstart : (ends text.toArray (append (.look .textStart) e) ⟨0, []⟩).head? =
      (ends text.toArray e ⟨0, []⟩).head? := by
    rw [head?_ends_append]
    exact List.findSome?_singleton
  have hlater : ∀ n ∈ List.range text.length,
      (ends text.toArray (append (.look .textStart) e) ⟨n + 1, []⟩).head? = none := by
    intro n hn
    rw [head?_ends_append]
    have hlt := List.mem_range.1 hn
    have hbefore : text.toArray[n + 1 - 1]? = some text[n] := by
      rw [Nat.add_sub_cancel, List.getElem?_toArray, List.getElem?_eq_getElem]
    rw [ends, if_neg (Nat.succ_ne_zero n), hbefore]
    rfl
  unfold Expression.search?
  rw [List.range_succ_eq_map, List.findSome?_cons, hstart, List.findSome?_map]
  cases (ends text.toArray e ⟨0, []⟩).head? with
  | some t => rfl
  | none =>
    apply List.findSome?_eq_none_iff.2
    intro n hn
    show Option.map _ (List.head? _) = none
    rw [hlater n hn]
    rfl

theorem captureTexts_append {pieces : List Piece} {division : List (List Char)}
    (h : division.length = pieces.length) (others : List Piece) (texts : List (List Char)) :
    Pattern.captureTexts (pieces ++ others) (division ++ texts) =
      Pattern.captureTexts pieces division ++ Pattern.captureTexts others texts := by
  induction pieces generalizing division with
  | nil =>
    obtain rfl := List.eq_nil_of_length_eq_zero h
    rfl
  | cons q pieces ih =>
    cases division with
    | nil => cases h
    | cons t division =>
      have hmore := ih (Nat.succ.inj h)
      cases q with
      | literal text => exact hmore
      | capture c => exact congrArg (t :: ·) hmore
      | optionalSlash => exact hmore

namespace Pattern

variable {p : Pattern}

theorem labels_body (p : Pattern) :
    p.body.filterMap (fun q => q.field.label) = p.variables.map String.toList := by
  have hlabel : (fun q : Part => q.field.label) =
      fun q => q.capture?.map fun c => c.1.toList := by
    funext q
    cases q <;> rfl
  show _ = (p.captures.map Prod.fst).map String.toList
  rw [← captures_body, List.map_map, List.map_filterMap, hlabel]
  rfl

theorem nodup_labels_body (h : p.labels.Nodup) :
    (p.body.filterMap fun q => q.field.label).Nodup := by
  rw [labels_body]
  unfold labels at h
  cases hslashes : p.slashes with
  | exact =>
    rw [hslashes] at h
    exact h
  | optional =>
    rw [hslashes] at h
    exact (List.nodup_append.1 h).1

theorem isProper_of_mem_fields (h : ∀ c ∈ Part.converters p.parts, c.IsProper) :
    ∀ f ∈ p.fields, f.piece.IsProper := by
  have hbody : ∀ f ∈ p.body.map Part.field, f.piece.IsProper := by
    intro f hf
    obtain ⟨q, hq, rfl⟩ := List.mem_map.1 hf
    cases q with
    | literal text => trivial
    | capture name c =>
      have hcapture : (name, c) ∈ p.captures := by
        rw [← captures_body]
        exact List.mem_filterMap.2 ⟨_, hq, rfl⟩
      exact h c (List.mem_map.2 ⟨_, hcapture, rfl⟩)
  intro f hf
  unfold fields at hf
  cases hslashes : p.slashes with
  | exact =>
    rw [hslashes] at hf
    exact hbody f hf
  | optional =>
    rw [hslashes] at hf
    rcases List.mem_append.1 hf with hf | hf
    · exact hbody f hf
    · obtain rfl := List.mem_singleton.1 hf
      trivial

/-- Where the expression of a pattern is found, its groups have the texts of the first division. -/
theorem spans_of_search? (h : ∀ c ∈ Part.converters p.parts, c.IsProper) (path : List Char) :
    p.tree.search? path = (firstSplit p.pieces path).map fun division =>
      Field.marks p.fields division 0 [] := by
  rw [tree_eq, ← pieces_eq]
  show Expression.search? (append (.look .textStart)
    (concat (p.fields.map Field.tree ++ [.look .textEnd]))) path = _
  rw [search?_append_textStart, Field.spans_of_ends (isProper_of_mem_fields h)]
  rfl

/-- The last of the groups is that of the slash, and what stands before it is the rest of the
path. -/
theorem marks_optional (h : p.slashes = .optional) {division : List (List Char)} {path : List Char}
    (hdivides : Divides p.pieces division path) :
    ∃ front slash, division = front ++ [slash] ∧ front.length = p.body.length ∧
      path = front.flatten ++ slash ∧
      Field.marks p.fields division 0 [] =
        (slashLabel, front.flatten.length, path.length) ::
          Field.marks (p.body.map Part.field) front 0 [] := by
  have hfields : p.fields = p.body.map Part.field ++ [⟨some slashLabel, .optionalSlash⟩] := by
    simp only [fields, h]
  obtain ⟨haccepts, rfl⟩ := hdivides
  have hlen := haccepts.length_eq
  rw [pieces_of_optional h, List.length_append, List.length_map, List.length_singleton] at hlen
  obtain ⟨front, slash, rfl⟩ : ∃ front slash, division = front ++ [slash] := by
    refine ⟨division.dropLast, division.getLast ?_, (List.dropLast_append_getLast _).symm⟩
    rintro rfl
    cases hlen
  have hfront : front.length = p.body.length := by
    rw [List.length_append, List.length_singleton] at hlen
    omega
  have hpath : (front ++ [slash]).flatten = front.flatten ++ slash := by simp
  refine ⟨front, slash, rfl, hfront, hpath, ?_⟩
  rw [hfields, Field.marks_append (by rw [List.length_map, hfront]), Nat.zero_add, hpath,
    List.length_append]
  rfl

/-- The groups of the variables have the texts that the division gives to the captures. -/
theorem spanText_of_divides (hlabels : p.labels.Nodup) {division : List (List Char)}
    {path : List Char} (hdivides : Divides p.pieces division path) :
    (p.captures.map fun q => spanText path (Field.marks p.fields division 0 []) q.1.toList) =
      captureTexts p.pieces division := by
  have hbody := nodup_labels_body hlabels
  rw [← captures_body]
  cases hslashes : p.slashes with
  | exact =>
    have hpieces := pieces_of_exact hslashes
    have hfields : p.fields = p.body.map Part.field := by simp only [fields, hslashes]
    obtain ⟨haccepts, rfl⟩ := hdivides
    have hlen : division.length = p.body.length := by
      rw [← haccepts.length_eq, hpieces, List.length_map]
    have hspans := @spanText_marks _ _ [] [] hlen hbody []
    rw [List.append_nil] at hspans
    rw [hfields, hpieces]
    exact hspans
  | optional =>
    obtain ⟨front, slash, rfl, hfront, rfl, hmarks⟩ := marks_optional hslashes hdivides
    have hspans := @spanText_marks _ _ [] slash hfront hbody []
    rw [hmarks, pieces_of_optional hslashes,
      captureTexts_append (by rw [List.length_map, hfront])]
    show _ = captureTexts (p.body.map Part.piece) front ++ []
    rw [List.append_nil, ← hspans]
    apply List.map_congr_left
    intro q hq
    have hne : q.1.toList ≠ slashLabel := by
      have hname : q.1.toList ∈ p.variables.map String.toList := by
        rw [captures_body] at hq
        exact List.mem_map.2 ⟨q.1, List.mem_map.2 ⟨q, hq, rfl⟩, rfl⟩
      unfold labels at hlabels
      rw [hslashes] at hlabels
      exact (List.nodup_append.1 hlabels).2.2 _ hname _ (List.mem_singleton.2 rfl)
    unfold spanText
    rw [List.lookup_cons, beq_false_of_ne hne]
    rfl

theorem search?_tree (hproper : ∀ c ∈ Part.converters p.parts, c.IsProper)
    (hlabels : p.labels.Nodup) (path : List Char) : p.search? p.tree path = p.divide? path := by
  have htexts : ∀ spans,
      (p.variables.map fun name => String.ofList (spanText path spans name.toList)) =
        (p.captures.map fun q => spanText path spans q.1.toList).map String.ofList := by
    intro spans
    show (p.captures.map Prod.fst).map _ = _
    rw [List.map_map, List.map_map]
    rfl
  unfold search? divide?
  rw [spans_of_search? hproper, divide_eq_firstSplit]
  cases hsplit : firstSplit p.pieces path with
  | none => rfl
  | some division =>
    have hdivides := divides_of_firstSplit hsplit
    simp only [Option.map_some, Option.bind_some, htexts, spanText_of_divides hlabels hdivides]
    cases hslashes : p.slashes with
    | exact => simp only [readingAt, hslashes]
    | optional =>
      obtain ⟨front, slash, rfl, -, rfl, hmarks⟩ := marks_optional hslashes hdivides
      rw [hmarks]
      simp [readingAt, hslashes]

theorem isProper_of_ofSegments {catalogue : Catalogue} (hcatalogue : catalogue.IsProper)
    {slashes : SlashPolicy} {segments : List Segment}
    (h : ofSegments catalogue slashes segments = .ok p) :
    ∀ c ∈ Part.converters p.parts, c.IsProper := by
  have hparts := (ofSegments_eq_ok_iff.1 h).1
  clear h
  generalize p.parts = parts at hparts
  induction hparts with
  | nil => exact List.forall_mem_nil _
  | cons hq _ ih =>
    rcases Segment.toPart_eq_ok_iff.1 hq with ⟨text, -, rfl⟩ | ⟨v, declare, c, -, hget, hc, rfl⟩
    · exact ih
    · exact List.forall_mem_cons.2 ⟨hcatalogue _ declare hget _ c hc, ih⟩

/-- Holding a path against the pieces of a pattern is searching it for the expression. -/
theorem read?_eq_search? {catalogue : Catalogue} (hcatalogue : catalogue.IsProper)
    {slashes : SlashPolicy} {segments : List Segment}
    (h : ofSegments catalogue slashes segments = .ok p) (path : String) :
    p.read? path = p.tree?.bind fun e => p.search? e path.toList := by
  have hmatchable := (ofSegments_eq_ok_iff.1 h).2.2
  unfold read?
  split
  next hnames =>
    unfold isMatchable at hmatchable
    unfold tree? at hmatchable ⊢
    rw [if_pos hnames] at hmatchable ⊢
    split at hmatchable
    next hlabels =>
      rw [if_pos hlabels, Option.bind_some]
      have hnodup : p.labels.Nodup := of_decide_eq_true (Bool.and_eq_true_iff.1 hlabels).2
      exact (search?_tree (isProper_of_ofSegments hcatalogue h) hnodup path.toList).symm
    · cases hmatchable
  · rfl

end Pattern

end UrlRouting
