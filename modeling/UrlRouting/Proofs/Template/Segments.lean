import Mathlib.Data.List.Basic
import UrlRouting.Proofs.Template.Placeholder

/-
  What reading a template goes through.
  `Split` says how a text falls into literal text and placeholders, and `segments_eq_ok_iff` that
  reading succeeds exactly where the text falls apart in that way. From it, by induction: the names
  of the variables are names and pairwise distinct, and the text ends in its last literal, with the
  `>` of a placeholder before it if there is one.
-/

namespace UrlRouting.Template

open Text

/-! ## Segments -/

/-- The names of the variables, in order. -/
def names (segments : List Segment) : List String :=
  segments.filterMap fun s => s.placeholder?.map Placeholder.name

@[simp] theorem names_literal (text : String) (segments : List Segment) :
    names (.literal text :: segments) = names segments := rfl

@[simp] theorem names_placeholder (p : Placeholder) (segments : List Segment) :
    names (.placeholder p :: segments) = p.name :: names segments := rfl

@[simp] theorem names_nil : names [] = [] := rfl

/-- How a text falls into segments; `seen` are names that may not stand again. -/
inductive Split : (seen : List String) → (text : List Char) → List Segment → Prop where
  | last {seen : List String} {text : List Char} (hlit : '<' ∉ text) :
      Split seen text [.literal (String.ofList text)]
  | more {seen : List String} {literal inner rest : List Char} {p : Placeholder}
      {segments : List Segment} (hlit : '<' ∉ literal) (hp : placeholder inner = .ok (p, rest))
      (hfresh : p.name ∉ seen) (hrest : Split (p.name :: seen) rest segments) :
      Split seen (literal ++ '<' :: inner)
        (.literal (String.ofList literal) :: .placeholder p :: segments)

theorem split_of_segments {whole : List Char} {seen : List String} {text : List Char}
    {segs : List Segment} (h : segments whole seen text = .ok segs) : Split seen text segs := by
  induction hn : text.length using Nat.strongRecOn generalizing seen text segs with
  | ind n ih =>
    rw [segments] at h
    have hsplit : text.takeWhile (· ≠ '<') ++ text.dropWhile (· ≠ '<') = text :=
      List.takeWhile_append_dropWhile
    split at h
    next ho =>
      obtain rfl := Except.ok.inj h
      rw [ho, List.append_nil] at hsplit
      have hnone := not_mem_takeWhile_ne '<' text
      rw [hsplit] at hnone ⊢
      exact .last hnone
    next opening inner ho =>
      have hopening := List.head?_dropWhile_not (fun c => decide (c ≠ '<')) text
      rw [ho] at hopening hsplit
      obtain rfl : opening = '<' := by simpa using hopening
      split at h
      · cases h
      next p rest hp =>
        split at h
        · cases h
        next hfresh =>
          cases hmore : segments whole (p.name :: seen) rest with
          | error e =>
            rw [hmore] at h
            cases h
          | ok more =>
            rw [hmore] at h
            obtain rfl := Except.ok.inj h
            have hrest := length_of_placeholder hp
            have hlen := congrArg List.length hsplit
            rw [List.length_append, List.length_cons] at hlen
            have hvariable := Split.more (not_mem_takeWhile_ne '<' text) hp hfresh
              (ih _ (by omega) hmore rfl)
            rw [hsplit] at hvariable
            exact hvariable

theorem segments_of_split {whole : List Char} {seen : List String} {text : List Char}
    {segs : List Segment} (h : Split seen text segs) : segments whole seen text = .ok segs := by
  induction h with
  | @last seen text hlit =>
    have hall := decide_ne_of_not_mem hlit
    have hdrop : text.dropWhile (· ≠ '<') = [] := List.dropWhile_eq_nil_iff.2 hall
    rw [segments]
    split
    · rw [List.takeWhile_eq_self_iff.2 hall]
    next opening inner ho =>
      rw [hdrop] at ho
      cases ho
  | @more seen literal inner rest p segs hlit hp hfresh hrest ih =>
    rw [segments]
    split
    next ho =>
      rw [dropWhile_ne_append hlit] at ho
      cases ho
    next opening inner' ho =>
      rw [dropWhile_ne_append hlit] at ho
      obtain ⟨rfl, rfl⟩ := List.cons.inj ho
      split
      next fault hp' =>
        rw [hp] at hp'
        cases hp'
      next q rest' hp' =>
        rw [hp] at hp'
        obtain ⟨rfl, rfl⟩ := Prod.mk.inj (Except.ok.inj hp')
        rw [if_neg hfresh, ih, takeWhile_ne_append hlit]
        rfl

/-- Where a placeholder opens, it decides how the reading goes on. -/
theorem segments_append_cons {whole : List Char} {seen : List String} {literal inner : List Char}
    (hlit : '<' ∉ literal) :
    segments whole seen (literal ++ '<' :: inner) =
      match placeholder inner with
      | .error fault => .error (fault.toError whole ('<' :: inner))
      | .ok (p, rest) =>
        if p.name ∈ seen then .error (.duplicateVariable p.name)
        else (segments whole (p.name :: seen) rest).map fun more =>
          .literal (String.ofList literal) :: .placeholder p :: more := by
  rw [segments]
  split
  next ho =>
    rw [dropWhile_ne_append hlit] at ho
    cases ho
  next opening inner' ho =>
    rw [dropWhile_ne_append hlit] at ho
    obtain ⟨rfl, rfl⟩ := List.cons.inj ho
    rw [takeWhile_ne_append hlit]
    split
    next fault hp => rw [hp]
    next p rest hp => rw [hp]

/-- Reading succeeds on the texts that split, and only on them. -/
theorem segments_eq_ok_iff {whole : List Char} {seen : List String} {text : List Char}
    {segs : List Segment} : segments whole seen text = .ok segs ↔ Split seen text segs :=
  ⟨split_of_segments, segments_of_split⟩

theorem parse_eq_ok_iff {template : String} {segs : List Segment} :
    parse template = .ok segs ↔
      template.toList.head? = some '/' ∧ Split [] template.toList segs := by
  unfold parse
  by_cases hslash : template.toList.head? = some '/'
  · simp only [hslash, ↓reduceIte, true_and]
    exact segments_eq_ok_iff
  · simp [hslash]

/-! ## What is read -/

theorem isVariableName_of_split {seen : List String} {text : List Char} {segs : List Segment}
    (h : Split seen text segs) : ∀ name ∈ names segs, IsVariableName name := by
  induction h with
  | last => simp
  | more _ hp _ _ ih =>
    intro name hname
    rw [names_literal, names_placeholder] at hname
    rcases List.mem_cons.1 hname with rfl | hname
    · exact (placeholder_eq_ok hp).2
    · exact ih name hname

/-- A name stands once, and not where it may not stand again. -/
theorem nodup_names_of_split {seen : List String} {text : List Char} {segs : List Segment}
    (h : Split seen text segs) : (names segs).Nodup ∧ ∀ name ∈ names segs, name ∉ seen := by
  induction h with
  | last => simp
  | more _ _ hfresh _ ih =>
    obtain ⟨hnodup, hseen⟩ := ih
    rw [names_literal, names_placeholder]
    refine ⟨List.nodup_cons.2 ⟨fun hagain => ?_, hnodup⟩, ?_⟩
    · exact hseen _ hagain List.mem_cons_self
    · intro name hname
      rcases List.mem_cons.1 hname with rfl | hname
      · exact hfresh
      · exact fun hs => hseen name hname (List.mem_cons_of_mem _ hs)

/-- The segments end in literal text, which is what the text ends in; before it stands nothing or a
placeholder. -/
theorem ends_of_split {seen : List String} {text : List Char} {segs : List Segment}
    (h : Split seen text segs) :
    ∃ before last, segs = before ++ [.literal (String.ofList last)] ∧
      (before = [] ∧ text = last ∨
        (∃ p, before.getLast? = some (.placeholder p)) ∧ ∃ front, text = front ++ '>' :: last) := by
  induction h with
  | last => exact ⟨[], _, rfl, .inl ⟨rfl, rfl⟩⟩
  | @more seen literal inner rest p segs _ hp _ _ ih =>
    obtain ⟨⟨read, hinner⟩, -⟩ := placeholder_eq_ok hp
    obtain ⟨before, last, hsegs, hends⟩ := ih
    refine ⟨_ :: _ :: before, last, by rw [hsegs]; rfl, .inr ?_⟩
    rw [hinner]
    rcases hends with ⟨rfl, rfl⟩ | ⟨⟨q, hq⟩, front, rfl⟩
    · exact ⟨⟨p, rfl⟩, literal ++ '<' :: read, by simp⟩
    · refine ⟨⟨q, ?_⟩, literal ++ '<' :: read ++ '>' :: front, by simp⟩
      simp only [List.getLast?_cons, hq, Option.getD_some]

/-- Where a template ends in a slash its last literal text does. -/
theorem last_endsInSlash {seen : List String} {text : List Char} {segs : List Segment}
    (h : Split seen text segs) (hend : text.getLast? = some '/') :
    ∃ before last, segs = before ++ [.literal (String.ofList last)] ∧
      last.getLast? = some '/' := by
  obtain ⟨before, last, hsegs, ⟨-, rfl⟩ | ⟨-, front, rfl⟩⟩ := ends_of_split h
  · exact ⟨before, text, hsegs, hend⟩
  · refine ⟨before, last, hsegs, ?_⟩
    rw [List.getLast?_append, List.getLast?_cons] at hend
    cases hlast : last.getLast? with
    | none => simp [hlast] at hend
    | some c => simpa [hlast] using hend

/-- Whether a text ends in a slash, and in one only. -/
def EndsInOneSlash (text : List Char) : Prop :=
  ∃ front, text = front ++ ['/'] ∧ front.getLast? ≠ some '/'

theorem endsInOneSlash_of_append {front last : List Char} (hne : last ≠ [])
    (h : EndsInOneSlash (front ++ last)) : EndsInOneSlash last := by
  obtain ⟨whole, happend, hwhole⟩ := h
  obtain ⟨init, c, rfl⟩ := (List.eq_nil_or_concat' last).resolve_left hne
  rw [← List.append_assoc] at happend
  obtain ⟨rfl, hc⟩ := List.append_inj' happend rfl
  refine ⟨init, congrArg (init ++ ·) hc, ?_⟩
  intro hagain
  apply hwhole
  rw [List.getLast?_append, hagain, Option.some_or]

/-- Where a template ends in one slash its last literal text does. -/
theorem last_endsInOneSlash {seen : List String} {text : List Char} {segs : List Segment}
    (h : Split seen text segs) (hend : EndsInOneSlash text) :
    ∃ before last, segs = before ++ [.literal (String.ofList last)] ∧
      (before = [] ∨ ∃ p, before.getLast? = some (.placeholder p)) ∧ EndsInOneSlash last := by
  obtain ⟨before, last, hsegs, ⟨hbefore, rfl⟩ | ⟨hbefore, front, rfl⟩⟩ := ends_of_split h
  · exact ⟨before, text, hsegs, .inl hbefore, hend⟩
  · refine ⟨before, last, hsegs, .inr hbefore, ?_⟩
    rw [← List.singleton_append, ← List.append_assoc] at hend
    refine endsInOneSlash_of_append ?_ hend
    rintro rfl
    obtain ⟨whole, happend, -⟩ := hend
    have hlast := congrArg List.getLast? happend
    simp at hlast

end UrlRouting.Template
