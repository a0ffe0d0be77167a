import UrlRouting.Proofs.Pattern.OpenSlash
import UrlRouting.Proofs.Pattern.Replacement

/-
  Patterns of templates that end in one slash.
  The slash is the end of the last literal text, and before it stands more literal text, a variable
  or nothing (`Part.LastSlash`). With the slash taken off, the parts make up the same texts without
  it (`LastSlash.flatten_interleave`), and they leave a slash at the end of a path alone if their
  variables do (`LastSlash.leaveSlash`).
-/

namespace UrlRouting

open Template (EndsInOneSlash)

theorem interleave_append_literal (parts : List Part) (text : String) (texts : List (List Char)) :
    Part.interleave (parts ++ [.literal text]) texts =
      Part.interleave parts texts ++ [text.toList] := by
  induction parts generalizing texts with
  | nil => rfl
  | cons q parts ih =>
    cases q with
    | literal other => exact congrArg (other.toList :: ·) (ih texts)
    | capture name c =>
      cases texts with
      | nil => exact congrArg ([] :: ·) (ih [])
      | cons t texts => exact congrArg (t :: ·) (ih texts)

/-! ## The last part -/

/-- Parts that end in one slash, with the literal text `front` right before it, and before that
nothing or a variable. -/
structure Part.LastSlash (parts before : List Part) (front : List Char) : Prop where
  eq_append : parts = before ++ [.literal (String.ofList (front ++ ['/']))]
  before_capture : before = [] ∨ ∃ init name c, before = init ++ [.capture name c]
  front_ne : front.getLast? ≠ some '/'

namespace Pattern

/-- The literal text at the end of a template is the last part of its pattern. -/
theorem exists_parts_of_segments {catalogue : Catalogue} {slashes : SlashPolicy}
    {before : List Segment} {text : String} {p : Pattern}
    (h : ofSegments catalogue slashes (before ++ [.literal text]) = .ok p) :
    ∃ parts, p.parts = parts ++ [.literal text] ∧
      List.Forall₂ (fun s q => s.toPart catalogue = .ok q) before parts := by
  obtain ⟨parts, lasts, heq, hparts, hlasts⟩ :=
    exists_append_of_forall₂ (ofSegments_eq_ok_iff.1 h).1
  obtain ⟨q, rest, hq, hrest, rfl⟩ := List.forall₂_cons_left_iff.1 hlasts
  obtain rfl := List.forall₂_nil_left_iff.1 hrest
  obtain rfl := Except.ok.inj hq
  exact ⟨parts, heq, hparts⟩

theorem exists_lastSlash {template : String} {catalogue : Catalogue} {slashes : SlashPolicy}
    {segments : List Segment} {p : Pattern} (hparse : Template.parse template = .ok segments)
    (hp : ofSegments catalogue slashes segments = .ok p)
    (hend : EndsInOneSlash template.toList) :
    ∃ before front, Part.LastSlash p.parts before front := by
  obtain ⟨before, last, rfl, hbefore, front, rfl, hfront⟩ :=
    Template.last_endsInOneSlash (Template.parse_eq_ok_iff.1 hparse).2 hend
  obtain ⟨parts, hparts, htoparts⟩ := exists_parts_of_segments hp
  refine ⟨parts, front, hparts, ?_, hfront⟩
  rcases hbefore with rfl | ⟨v, hv⟩
  · exact .inl (List.forall₂_nil_left_iff.1 htoparts)
  · right
    obtain ⟨init, rfl⟩ := List.getLast?_eq_some_iff.1 hv
    obtain ⟨ds, es, rfl, -, hes⟩ := exists_append_of_forall₂ htoparts
    obtain ⟨q, rest, hq, hrest, rfl⟩ := List.forall₂_cons_left_iff.1 hes
    obtain rfl := List.forall₂_nil_left_iff.1 hrest
    rcases Segment.toPart_eq_ok_iff.1 hq with ⟨text, hv, -⟩ | ⟨v, declare, c, -, -, -, rfl⟩
    · cases hv
    · exact ⟨ds, v.name, c, rfl⟩

end Pattern

/-! ## Without the slash -/

namespace Part.LastSlash

variable {parts before : List Part} {front : List Char}

theorem dropSlashes_eq (h : LastSlash parts before front) :
    dropSlashes parts =
      before ++ if front.isEmpty then [] else [.literal (String.ofList front)] := by
  have hlast : dropSlashes [.literal (String.ofList (front ++ ['/']))] = _ :=
    dropSlashes_last String.toList_ofList h.front_ne
  rw [h.eq_append]
  rcases h.before_capture with rfl | ⟨init, name, c, rfl⟩
  · exact hlast
  · rw [List.append_assoc, List.singleton_append, dropSlashes_append_capture, hlast,
      List.append_assoc, List.singleton_append]

theorem flatten_interleave (h : LastSlash parts before front) (texts : List (List Char)) :
    (interleave parts texts).flatten = (interleave (dropSlashes parts) texts).flatten ++ ['/'] := by
  rw [h.dropSlashes_eq, h.eq_append, interleave_append_literal, List.flatten_append,
    List.flatten_singleton, String.toList_ofList]
  cases front with
  | nil => simp
  | cons c front =>
    simp only [List.isEmpty_cons, Bool.false_eq_true, ↓reduceIte, interleave_append_literal]
    simp

/-- Literal text that does not end in a slash, and no part at all, do not take one; so it is for the
last variable to leave it. -/
theorem leaveSlash (h : LastSlash parts before front)
    (hleaves : ∀ c ∈ converters parts, c.LeavesSlash) (text : List Char) :
    LeaveSlash ((dropSlashes parts).map piece) (text ++ ['/']) := by
  rw [h.dropSlashes_eq]
  cases hfront : front.isEmpty with
  | false =>
    left
    intro d hd
    rw [if_neg Bool.false_ne_true, List.map_append] at hd
    obtain ⟨ds, es, s, t, -, htext, -, hes⟩ := divides_append_iff.1 hd
    obtain ⟨-, ht⟩ := divides_singleton_iff.1 hes
    obtain rfl : t = front := by rwa [piece, String.toList_ofList] at ht
    have hlast := congrArg List.getLast? htext
    rw [List.getLast?_concat, List.getLast?_append_of_ne_nil _ (by simpa using hfront)] at hlast
    exact h.front_ne hlast.symm
  | true =>
    rw [if_pos rfl, List.append_nil]
    rcases h.before_capture with rfl | ⟨init, name, c, rfl⟩
    · left
      intro d hd
      exact List.concat_ne_nil '/' text (by simpa using (divides_nil_iff.1 hd).2)
    · refine .inr ⟨init.map piece, c, by simp [piece], hleaves c ?_⟩
      rw [h.eq_append]
      simp [converters, capture?]

end Part.LastSlash

end UrlRouting
