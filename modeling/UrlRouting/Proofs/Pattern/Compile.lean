import Mathlib.Data.List.Forall2
import UrlRouting.Pattern.Reading
import UrlRouting.Proofs.Template.Segments

/-
  What the pattern of some segments is made of.
  Every segment gives one part (`forall₂_toPart_of_ofSegments`): literal text stands as it is, a
  placeholder becomes a capture of its name. So the variables of the pattern of a template are those
  of the template, and its expression is closed by none of their names.
-/

namespace UrlRouting

namespace Segment

theorem toPart_eq_ok_iff {catalogue : Catalogue} {s : Segment} {q : Part} :
    s.toPart catalogue = .ok q ↔ (∃ text, s = .literal text ∧ q = .literal text) ∨
      ∃ v declare c, s = .placeholder v ∧ catalogue.get? v.converter = some declare ∧
        declare v.arguments = .ok c ∧ q = .capture v.name c := by
  cases s with
  | literal text => simp [toPart, eq_comm]
  | placeholder v =>
    unfold toPart
    cases hg : catalogue.get? v.converter with
    | none => simp [hg]
    | some declare =>
      cases hd : declare v.arguments with
      | error cause => simp [hg, hd]
      | ok c => simp [hg, hd, eq_comm]

theorem mapM_toPart_eq_ok_iff {catalogue : Catalogue} {segments : List Segment}
    {parts : List Part} :
    segments.mapM (toPart catalogue) = .ok parts ↔
      List.Forall₂ (fun s q => s.toPart catalogue = .ok q) segments parts := by
  induction segments generalizing parts with
  | nil =>
    rw [List.mapM_nil, List.forall₂_nil_left_iff]
    exact ⟨fun h => (Except.ok.inj h).symm, fun h => congrArg Except.ok h.symm⟩
  | cons s segments ih =>
    rw [List.mapM_cons, List.forall₂_cons_left_iff]
    constructor
    · intro h
      obtain ⟨q, hq, h1⟩ := Template.exists_of_bind_eq_ok h
      obtain ⟨qs, hqs, h2⟩ := Template.exists_of_bind_eq_ok h1
      exact ⟨q, qs, hq, ih.1 hqs, (Except.ok.inj h2).symm⟩
    · rintro ⟨q, qs, hq, hqs, rfl⟩
      rw [hq, ih.2 hqs]
      rfl

end Segment

namespace Pattern

theorem ofSegments_eq_ok_iff {catalogue : Catalogue} {slashes : SlashPolicy}
    {segments : List Segment} {p : Pattern} :
    ofSegments catalogue slashes segments = .ok p ↔
      List.Forall₂ (fun s q => s.toPart catalogue = .ok q) segments p.parts ∧
        p.slashes = slashes ∧ p.isMatchable = true := by
  rw [← Segment.mapM_toPart_eq_ok_iff]
  unfold ofSegments
  constructor
  · intro h
    obtain ⟨parts, hparts, h1⟩ := Template.exists_of_bind_eq_ok h
    simp only at h1
    split at h1
    next hmatchable =>
      obtain rfl := Except.ok.inj h1
      exact ⟨hparts, rfl, hmatchable⟩
    · cases h1
  · rintro ⟨hparts, rfl, hmatchable⟩
    rw [hparts]
    show (if p.isMatchable then Except.ok p else _) = _
    rw [if_pos hmatchable]

/-! ## Pieces -/

section

variable {p : Pattern}

theorem body_of_exact (h : p.slashes = .exact) : p.body = p.parts := by
  simp only [body, h]

theorem body_of_optional (h : p.slashes = .optional) : p.body = dropSlashes p.parts := by
  simp only [body, h]

theorem pieces_of_exact (h : p.slashes = .exact) : p.pieces = p.body.map Part.piece := by
  simp only [pieces, h]

theorem pieces_of_optional (h : p.slashes = .optional) :
    p.pieces = p.body.map Part.piece ++ [.optionalSlash] := by
  simp only [pieces, h]

end

/-! ## Variables -/

end Pattern

/-- No variable is lost with the slashes at the end. -/
theorem captures_dropSlashes (parts : List Part) :
    (dropSlashes parts).filterMap Part.capture? = parts.filterMap Part.capture? := by
  induction parts with
  | nil => rfl
  | cons q parts ih =>
    cases q with
    | literal text =>
      show _ = parts.filterMap Part.capture?
      rw [← ih]
      cases hmore : dropSlashes parts with
      | nil =>
        simp only [dropSlashes, hmore]
        split <;> rfl
      | cons r rest =>
        simp only [dropSlashes, hmore]
        rfl
    | capture name c => exact congrArg ((name, c) :: ·) ih

namespace Pattern

theorem captures_body (p : Pattern) : p.body.filterMap Part.capture? = p.captures := by
  unfold body captures
  cases p.slashes with
  | exact => rfl
  | optional => exact captures_dropSlashes p.parts

theorem variables_of_forall₂_toPart {catalogue : Catalogue} {segments : List Segment}
    {parts : List Part}
    (h : List.Forall₂ (fun s q => s.toPart catalogue = .ok q) segments parts) :
    (parts.filterMap Part.capture?).map Prod.fst = Template.names segments := by
  induction h with
  | nil => rfl
  | cons hq _ ih =>
    rcases Segment.toPart_eq_ok_iff.1 hq with ⟨text, rfl, rfl⟩ | ⟨v, declare, c, rfl, -, -, rfl⟩
    · exact ih
    · exact congrArg (v.name :: ·) ih

theorem variables_of_ofSegments {catalogue : Catalogue} {slashes : SlashPolicy}
    {segments : List Segment} {p : Pattern} (h : ofSegments catalogue slashes segments = .ok p) :
    p.variables = Template.names segments :=
  variables_of_forall₂_toPart (ofSegments_eq_ok_iff.1 h).1

variable {template : String} {catalogue : Catalogue} {slashes : SlashPolicy}
  {segments : List Segment} {p : Pattern}

theorem nodup_variables (hparse : Template.parse template = .ok segments)
    (h : ofSegments catalogue slashes segments = .ok p) : p.variables.Nodup := by
  rw [variables_of_ofSegments h]
  exact (Template.nodup_names_of_split (Template.parse_eq_ok_iff.1 hparse).2).1

theorem not_mem_of_isVariableName {name : String} (h : Template.IsVariableName name) :
    '>' ∉ name.toList := by
  intro hmem
  have hchar := h.2 _ hmem
  revert hchar
  decide

/-- No variable of a template is named with the character that closes a label. -/
theorem hasPlainNames_of_parse (hparse : Template.parse template = .ok segments)
    (h : ofSegments catalogue slashes segments = .ok p) : p.hasPlainNames = true := by
  have hsplit := (Template.parse_eq_ok_iff.1 hparse).2
  unfold hasPlainNames
  rw [variables_of_ofSegments h, List.all_eq_true]
  intro name hname
  have hplain := not_mem_of_isVariableName (Template.isVariableName_of_split hsplit name hname)
  simpa using hplain

end Pattern

end UrlRouting
