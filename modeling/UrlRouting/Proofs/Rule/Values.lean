import Mathlib.Data.List.Perm.Subperm
import UrlRouting.Proofs.Pattern.Matching
import UrlRouting.Rule.Basic

/-
  Between the texts that variables have in a path and the values of a rule.
  `convert?_eq_some_iff` says what converting texts makes: values for exactly the variables, each
  what its text reads as. `build_eq_ok_iff` says when building succeeds and with which path: the
  values are for variables only, and each capture has one, which is written. Where there is a value
  for every variable, building can fail on writing one of them only (`unwritable_of_build`).
-/

namespace UrlRouting.Pattern

/-- Whether the text reads as the value under the name of the capture. -/
def ReadsCapture (values : Values) (capture : String × Converter) (text : List Char) : Prop :=
  ∃ v, values.get? capture.1 = some v ∧ capture.2.read (String.ofList text) = .ok v

/-- Whether the value under the name of the capture is written as the text. -/
def WritesCapture (values : Values) (capture : String × Converter) (text : List Char) : Prop :=
  ∃ v, values.get? capture.1 = some v ∧ capture.2.write v = .ok (String.ofList text)

/-- Whether there is a value for every variable of the pattern, and for nothing else. -/
def Covers (p : Pattern) (values : Values) : Prop :=
  ∀ name, values.contains name = true ↔ name ∈ p.variables

theorem exists_texts_of_forall {R : String × Converter → List Char → Prop}
    {captures : List (String × Converter)} (h : ∀ capture ∈ captures, ∃ text, R capture text) :
    ∃ texts, List.Forall₂ R captures texts := by
  induction captures with
  | nil => exact ⟨[], .nil⟩
  | cons capture captures ih =>
    obtain ⟨hfirst, hmore⟩ := List.forall_mem_cons.1 h
    obtain ⟨text, htext⟩ := hfirst
    obtain ⟨texts, htexts⟩ := ih hmore
    exact ⟨text :: texts, .cons htext htexts⟩

theorem exists_text_of_mem {R : String × Converter → List Char → Prop}
    {captures : List (String × Converter)} {texts : List (List Char)}
    (h : List.Forall₂ R captures texts) {capture : String × Converter}
    (hmem : capture ∈ captures) : ∃ text, R capture text := by
  induction h with
  | nil => cases hmem
  | cons hfirst _ ih =>
    rcases List.mem_cons.1 hmem with rfl | hmem
    · exact ⟨_, hfirst⟩
    · exact ih hmem

/-! ## Converting -/

/-- Converting puts under the name of each capture what its text reads as, and leaves the rest. -/
theorem convert?_from_eq_some_iff {captures : List (String × Converter)}
    {texts : List (List Char)} (hnodup : (captures.map Prod.fst).Nodup)
    (hlen : captures.length = texts.length) (start result : Values) :
    convert? captures (texts.map String.ofList) start = some result ↔
      List.Forall₂ (ReadsCapture result) captures texts ∧
        ∀ name, name ∉ captures.map Prod.fst → result.get? name = start.get? name := by
  induction captures generalizing texts start with
  | nil =>
    obtain rfl := List.eq_nil_of_length_eq_zero hlen.symm
    constructor
    · intro h
      obtain rfl := Option.some.inj h
      exact ⟨.nil, fun _ _ => rfl⟩
    · intro h
      exact congrArg some (NameMap.ext fun name => (h.2 name List.not_mem_nil).symm)
  | cons capture captures ih =>
    obtain ⟨name, c⟩ := capture
    obtain ⟨hnew, hnodup⟩ := List.nodup_cons.1 hnodup
    cases texts with
    | nil => cases hlen
    | cons t texts =>
      rw [List.map_cons, convert?, List.forall₂_cons]
      cases hread : c.read (String.ofList t) with
      | error cause =>
        constructor
        · intro h
          cases h
        · rintro ⟨⟨⟨v, -, hv⟩, -⟩, -⟩
          cases hread.symm.trans hv
      | ok value =>
        have hrest := ih hnodup (Nat.succ.inj hlen) (start.insert name value)
        constructor
        · intro h
          obtain ⟨hreads, hget⟩ := hrest.1 h
          have hname := hget name hnew
          rw [NameMap.get?_insert, if_pos rfl] at hname
          refine ⟨⟨⟨value, hname, hread⟩, hreads⟩, ?_⟩
          intro other hother
          obtain ⟨hne, hlater⟩ := not_or.1 (mt List.mem_cons.2 hother)
          rw [hget other hlater, NameMap.get?_insert, if_neg (Ne.symm hne)]
        · rintro ⟨⟨⟨v, hv, hreadv⟩, hreads⟩, hget⟩
          obtain rfl := Except.ok.inj (hread.symm.trans hreadv)
          refine hrest.2 ⟨hreads, ?_⟩
          intro other hlater
          rw [NameMap.get?_insert]
          split
          next heq =>
            subst heq
            exact hv
          next hne =>
            refine hget other fun hmem => ?_
            exact (List.mem_cons.1 hmem).elim (fun heq => hne heq.symm) hlater

variable {p : Pattern} {values : Values}

/-- The values that texts convert to are for exactly the variables, each what its text reads as. -/
theorem convert?_eq_some_iff (hnodup : p.variables.Nodup) {texts : List (List Char)}
    (hlen : p.captures.length = texts.length) :
    convert? p.captures (texts.map String.ofList) .empty = some values ↔
      List.Forall₂ (ReadsCapture values) p.captures texts ∧ p.Covers values := by
  rw [convert?_from_eq_some_iff hnodup hlen]
  refine and_congr_right fun hreads => ?_
  have hpresent : ∀ name ∈ p.variables, values.contains name = true := by
    intro name hname
    obtain ⟨capture, hcapture, rfl⟩ := List.mem_map.1 hname
    obtain ⟨text, v, hv, -⟩ := exists_text_of_mem hreads hcapture
    exact Option.isSome_iff_exists.2 ⟨v, hv⟩
  constructor
  · intro hget name
    refine ⟨fun hcontains => ?_, hpresent name⟩
    by_contra hname
    have hnone := hget name hname
    rw [NameMap.contains, hnone] at hcontains
    cases hcontains
  · intro hcovers name hname
    have habsent := mt (hcovers name).1 hname
    rw [NameMap.contains, Bool.not_eq_true, Option.isSome_eq_false_iff,
      Option.isNone_iff_eq_none] at habsent
    exact habsent

/-! ## Building -/

theorem map_eq_ok_iff {ε α β : Type} {x : Except ε α} {f : α → β} {b : β} :
    x.map f = .ok b ↔ ∃ a, x = .ok a ∧ f a = b := by
  cases x <;> simp [Except.map]

theorem assemble_eq_ok_iff {parts : List Part} {text : List Char} :
    assemble values parts = .ok text ↔
      ∃ texts, List.Forall₂ (WritesCapture values) (parts.filterMap Part.capture?) texts ∧
        text = (Part.interleave parts texts).flatten := by
  induction parts generalizing text with
  | nil =>
    constructor
    · intro h
      exact ⟨[], .nil, (Except.ok.inj h).symm⟩
    · rintro ⟨texts, -, rfl⟩
      rfl
  | cons q parts ih =>
    cases q with
    | literal literal =>
      rw [assemble, map_eq_ok_iff]
      constructor
      · rintro ⟨rest, hrest, rfl⟩
        obtain ⟨texts, htexts, rfl⟩ := ih.1 hrest
        exact ⟨texts, htexts, rfl⟩
      · rintro ⟨texts, htexts, rfl⟩
        exact ⟨_, ih.2 ⟨texts, htexts, rfl⟩, rfl⟩
    | capture name c =>
      rw [assemble]
      constructor
      · intro h
        split at h
        · cases h
        next v hv =>
          split at h
          · cases h
          next t ht =>
            obtain ⟨rest, hrest, rfl⟩ := map_eq_ok_iff.1 h
            obtain ⟨texts, htexts, rfl⟩ := ih.1 hrest
            refine ⟨t.toList :: texts, .cons ⟨v, hv, ?_⟩ htexts, rfl⟩
            rw [ht, String.ofList_toList]
      · rintro ⟨_, htexts, rfl⟩
        obtain ⟨t, texts, ⟨v, hv, ht⟩, hmore, rfl⟩ := List.forall₂_cons_left_iff.1 htexts
        simp only at hv ht
        simp only [hv, ht]
        refine map_eq_ok_iff.2 ⟨_, ih.2 ⟨texts, hmore, rfl⟩, ?_⟩
        rw [String.toList_ofList, Part.flatten_interleave_capture]

theorem find?_names_eq_none_iff :
    values.names.find? (· ∉ p.variables) = none ↔ ∀ name ∈ values.names, name ∈ p.variables := by
  rw [List.find?_eq_none]
  simp

/-- When a path is built: every value is for a variable, and every capture has a value, which is
written. The path is the literal text with the written texts in their places. -/
theorem build_eq_ok_iff {path : String} :
    p.build values = .ok path ↔
      (∀ name ∈ values.names, name ∈ p.variables) ∧
        ∃ texts, List.Forall₂ (WritesCapture values) p.captures texts ∧
          path = String.ofList (Part.interleave p.parts texts).flatten := by
  unfold build
  rw [← find?_names_eq_none_iff]
  cases hfind : values.names.find? (· ∉ p.variables) with
  | some name => simp
  | none =>
    simp only [true_and, map_eq_ok_iff]
    constructor
    · rintro ⟨text, htext, rfl⟩
      obtain ⟨texts, htexts, rfl⟩ := assemble_eq_ok_iff.1 htext
      exact ⟨texts, htexts, rfl⟩
    · rintro ⟨texts, htexts, rfl⟩
      exact ⟨_, assemble_eq_ok_iff.2 ⟨texts, htexts, rfl⟩, rfl⟩

end UrlRouting.Pattern
