import UrlRouting.Proofs.Template.Scanner

/-
  Where a text goes wrong that is no template.
  A placeholder is read up to the first fault in it, and what was read by then is how a placeholder
  may begin (`describes_of_placeholder`). The placeholders before it were good, and so the text
  before it is a template by itself: by induction on the text, an error is about the first bad
  placeholder (`isOfFirstBad_of_segments`).
-/

namespace UrlRouting.Template

open Text

/-- Whether a placeholder may begin in this way behind its `<`, and has more to come. -/
def IsOpening (read : List Char) : Prop :=
  ∃ tag : Tag, tag.IsSpelled ∧ ∃ more, more ≠ [] ∧ '<' :: (read ++ more) = tag.text

/-- What an error says of a text in which a bad placeholder opens behind `before` and goes on with
`inner`; the variables before it have these names. -/
def Describes (before inner : List Char) (names : List String) : TemplateError → Prop
  | .missingLeadingSlash => False
  | .unterminatedPlaceholder index => IsOpening inner ∧ index = byteLength before
  | .unexpected index found =>
    ∃ read rest, inner = read ++ found :: rest ∧ IsOpening read ∧
      index = byteLength (before ++ '<' :: read)
  | .unterminatedArguments index =>
    ∃ converter clause, inner = converter ++ '(' :: clause ∧
      IsConverterName (String.ofList converter) ∧ OnlyQuoted ')' none clause ∧
      index = byteLength (before ++ '<' :: converter)
  | .badVariableName name =>
    ∃ tag rest, inner = Tag.inner tag ++ '>' :: rest ∧ tag.IsSpelled ∧ tag.name = name ∧
      startsWithLetter name = false
  | .duplicateVariable name =>
    ∃ tag rest, inner = Tag.inner tag ++ '>' :: rest ∧ tag.IsProper ∧ tag.name = name ∧ name ∈ names

theorem Describes.mono {before inner : List Char} {names names' : List String} {e : TemplateError}
    (h : Describes before inner names e) (hmore : ∀ name ∈ names, name ∈ names') :
    Describes before inner names' e := by
  cases e with
  | duplicateVariable name =>
    obtain ⟨tag, rest, hinner, htag, hname, hmem⟩ := h
    exact ⟨tag, rest, hinner, htag, hname, hmore name hmem⟩
  | _ => exact h

/-- Whether no placeholder can be read behind a `<`, or only one with the name of one before it. -/
def IsBad (inner : List Char) (names : List String) : Prop :=
  ∀ p rest, placeholder inner = .ok (p, rest) → p.name ∈ names

/-! ## Faults in placeholders -/

/-- A name that may end any placeholder. -/
theorem isConverterName_underscore : IsConverterName "_" := by decide

theorem isOpening_of_inner {tag : Tag} (h : tag.IsSpelled) {read more : List Char}
    (hinner : tag.inner = read ++ more) : IsOpening read := by
  refine ⟨tag, h, more ++ ['>'], by simp, ?_⟩
  rw [Tag.text, hinner, List.append_assoc]

/-- What is left from the character on that may not follow, or from the end on. -/
def Fault.left? : Fault → Option (List Char)
  | .unexpected found rest => some (found :: rest)
  | .ended => some []
  | .openArguments _ | .badName _ => none

theorem left?_of_identifier {text : List Char} {fault : Fault}
    (h : identifier text = .error fault) : fault.left? = some text := by
  cases text with
  | nil =>
    obtain rfl := Except.error.inj h
    rfl
  | cons c rest =>
    rw [identifier] at h
    split at h
    · cases h
    · obtain rfl := Except.error.inj h
      rfl

theorem left?_of_mark {c : Char} {text : List Char} {fault : Fault}
    (h : mark c text = .error fault) : fault.left? = some text := by
  cases text with
  | nil =>
    obtain rfl := Except.error.inj h
    rfl
  | cons d rest =>
    rw [mark] at h
    split at h
    · cases h
    · obtain rfl := Except.error.inj h
      rfl

section

variable {before inner : List Char} {names : List String} {fault : Fault}

/-- A reader that stops where a placeholder has more to come tells where it stops. -/
theorem describes_of_left? {tag : Tag} {read more left : List Char} (htag : tag.IsSpelled)
    (hread : tag.inner = read ++ more) (hleft : fault.left? = some left)
    (hinner : inner = read ++ left) :
    Describes before inner names (fault.toError (before ++ '<' :: inner) ('<' :: inner)) := by
  have hopening := isOpening_of_inner htag hread
  subst hinner
  cases fault with
  | unexpected found rest =>
    obtain rfl := Option.some.inj hleft
    exact ⟨read, rest, rfl, hopening, Scanner.offset_of_suffix (by simp)⟩
  | ended =>
    obtain rfl := Option.some.inj hleft
    rw [List.append_nil]
    exact ⟨hopening, offset_append before _⟩
  | openArguments clause => cases hleft
  | badName name => cases hleft

/-- A fault behind the first name: arguments that do not end, or no name behind a colon. -/
theorem describes_of_declaration {first rest : List Char}
    (hfirst : IsConverterName (String.ofList first)) (h : declaration first rest = .error fault) :
    Describes before (first ++ rest) names
      (fault.toError (before ++ '<' :: (first ++ rest)) ('<' :: (first ++ rest))) := by
  unfold declaration at h
  split at h
  next clause =>
    split at h
    next hbreak =>
      obtain rfl := Except.error.inj h
      refine ⟨first, clause, rfl, hfirst, breakOutside?_eq_none_iff.1 hbreak, ?_⟩
      exact Scanner.offset_of_suffix (by simp)
    next raw after hbreak =>
      obtain ⟨rfl, hclause⟩ := breakOutside?_eq_some_iff.1 hbreak
      have hspelled : (Tag.called (String.ofList first) (String.ofList raw) "_").IsSpelled := by
        refine ⟨hfirst, ?_, isConverterName_underscore⟩
        unfold IsClause
        rwa [String.toList_ofList]
      have htag : (Tag.called (String.ofList first) (String.ofList raw) "_").inner =
          first ++ '(' :: (raw ++ [')']) ++ [':', '_'] := by simp [Tag.inner]
      rcases exists_or_of_bind_eq_error h with hcolon | ⟨named, hcolon, hbehind⟩
      · exact describes_of_left? hspelled htag (left?_of_mark hcolon) (by simp)
      · obtain rfl := mark_eq_ok hcolon
        rw [List.append_cons _ ':'] at htag
        rcases exists_or_of_bind_eq_error hbehind with hname | ⟨_, _, hread⟩
        · exact describes_of_left? hspelled htag (left?_of_identifier hname) (by simp)
        · cases hread
  next named =>
    have hspelled : (Tag.typed (String.ofList first) "_").IsSpelled :=
      ⟨hfirst, isConverterName_underscore⟩
    have htag : (Tag.typed (String.ofList first) "_").inner = first ++ [':'] ++ ['_'] := by
      simp [Tag.inner]
    rcases exists_or_of_bind_eq_error h with hname | ⟨_, _, hread⟩
    · exact describes_of_left? hspelled htag (left?_of_identifier hname) (by simp)
    · cases hread
  · cases h

/-- What the error says of the placeholder in which the fault is, one case for each reader. -/
theorem describes_of_placeholder (h : placeholder inner = .error fault) :
    Describes before inner names (fault.toError (before ++ '<' :: inner) ('<' :: inner)) := by
  rcases exists_or_of_bind_eq_error h with hfirst | ⟨⟨first, rest⟩, hfirst, hbehind⟩
  · have hspelled : (Tag.bare "_").IsSpelled := isConverterName_underscore
    exact describes_of_left? hspelled (List.nil_append _).symm (left?_of_identifier hfirst) rfl
  obtain ⟨rfl, hname, -⟩ := identifier_eq_ok_iff.1 hfirst
  rcases exists_or_of_bind_eq_error hbehind with hdeclared | ⟨⟨p, left⟩, hdeclared, hclosing⟩
  · exact describes_of_declaration hname hdeclared
  obtain ⟨tag, hspelled, htag, rfl, rfl⟩ := exists_spelled_of_declaration hname hdeclared
  have hinner : first ++ (tag.declared ++ left) = tag.inner ++ left := by
    rw [tag.inner_eq, htag, String.toList_ofList, List.append_assoc]
  rcases exists_or_of_bind_eq_error hclosing with hmark | ⟨rest, hmark, hletter⟩
  · exact describes_of_left? hspelled (List.append_nil _).symm (left?_of_mark hmark) hinner
  · obtain rfl := mark_eq_ok hmark
    split at hletter
    · cases hletter
    next hno =>
      obtain rfl := Except.error.inj hletter
      refine ⟨tag, rest, hinner, hspelled, tag.name_placeholder.symm, ?_⟩
      simpa using hno

end

/-! ## Errors of templates -/

section

variable {front literal text : List Char} {seen : List String} {e : TemplateError}

/-- Whether the error is about the first bad placeholder of a text behind `front`; `seen` are the
names of the variables there. -/
def IsOfFirstBad (front : List Char) (seen : List String) (text : List Char) (e : TemplateError) :
    Prop :=
  ∃ before inner segs, text = before ++ '<' :: inner ∧ Split seen before segs ∧
    IsBad inner (names segs ++ seen) ∧ Describes (front ++ before) inner (names segs ++ seen) e

/-- If the first placeholder is bad, the error is about it. -/
theorem isOfFirstBad_of_isBad {inner : List Char} (hlit : '<' ∉ literal) (hbad : IsBad inner seen)
    (hdescribes : Describes (front ++ literal) inner seen e) :
    IsOfFirstBad front seen (literal ++ '<' :: inner) e :=
  ⟨literal, inner, _, rfl, .last hlit, hbad, hdescribes⟩

/-- If it is good, the error is about the first bad one in what is left. -/
theorem IsOfFirstBad.behind {tag : Tag} {left : List Char} (hlit : '<' ∉ literal)
    (htag : tag.IsProper) (hfresh : tag.name ∉ seen)
    (h : IsOfFirstBad (front ++ (literal ++ '<' :: (tag.inner ++ ['>']))) (tag.name :: seen) left
      e) :
    IsOfFirstBad front seen (literal ++ '<' :: (tag.inner ++ '>' :: left)) e := by
  obtain ⟨before, inner, segs, rfl, hsplit, hbad, hdescribes⟩ := h
  rw [← tag.name_placeholder] at hfresh hsplit
  have hread : placeholder (tag.inner ++ '>' :: before) = .ok (tag.placeholder, before) :=
    placeholder_eq_ok_iff.2 ⟨tag, htag, rfl, rfl⟩
  have hnames : ∀ name ∈ names segs ++ tag.name :: seen,
      name ∈ names (.literal (String.ofList literal) :: .placeholder tag.placeholder :: segs) ++
        seen := by
    intro name hname
    rw [names_literal, names_placeholder, tag.name_placeholder]
    exact List.perm_middle.mem_iff.1 hname
  have hbefore : front ++ (literal ++ '<' :: (tag.inner ++ ['>'])) ++ before =
      front ++ (literal ++ '<' :: (tag.inner ++ '>' :: before)) := by simp
  rw [hbefore] at hdescribes
  exact ⟨_, inner, _, by simp, .more hlit hread hfresh hsplit,
    fun p rest hp => hnames _ (hbad p rest hp), hdescribes.mono hnames⟩

/-- Reading stops in the first bad placeholder; by induction on the length of the text, of which
every good placeholder leaves a shorter one. -/
theorem isOfFirstBad_of_segments (h : segments (front ++ text) seen text = .error e) :
    IsOfFirstBad front seen text e := by
  induction hn : text.length using Nat.strongRecOn generalizing front text seen with
  | ind n ih =>
    by_cases hmem : '<' ∈ text
    · obtain ⟨literal, inner, rfl, hlit⟩ := List.eq_append_cons_of_mem hmem
      rw [segments_append_cons hlit] at h
      cases hp : placeholder inner with
      | error fault =>
        rw [hp] at h
        obtain rfl := Except.error.inj h
        refine isOfFirstBad_of_isBad hlit (fun p rest hread => ?_) ?_
        · rw [hp] at hread
          cases hread
        · rw [← List.append_assoc]
          exact describes_of_placeholder hp
      | ok read =>
        obtain ⟨p, left⟩ := read
        obtain ⟨tag, htag, rfl, rfl⟩ := placeholder_eq_ok_iff.1 hp
        rw [hp] at h
        dsimp only at h
        rw [tag.name_placeholder] at h
        split at h
        next hseen =>
          obtain rfl := Except.error.inj h
          refine isOfFirstBad_of_isBad hlit (fun p rest hread => ?_)
            ⟨tag, left, rfl, htag, rfl, hseen⟩
          rw [hp] at hread
          obtain ⟨rfl, -⟩ := Prod.mk.inj (Except.ok.inj hread)
          rwa [tag.name_placeholder]
        next hfresh =>
          have hshort : left.length < n := by
            rw [← hn]
            simp
            omega
          have hleft : front ++ (literal ++ '<' :: (tag.inner ++ '>' :: left)) =
              (front ++ (literal ++ '<' :: (tag.inner ++ ['>']))) ++ left := by simp
          rw [hleft] at h
          exact (ih left.length hshort (map_eq_error_iff.1 h) rfl).behind hlit htag hfresh
    · rw [segments_of_split (.last hmem)] at h
      cases h

end

/-- Reading byte by byte gives what reading by characters gives, without a cut at a bad place. An
error of a text that begins with a slash is about its first bad placeholder: what stands before that
one is a template, and the error describes it. -/
theorem describes_of_parse_error (template : String) :
    Scanner.parse template.toList = (parse template).mapError Scanner.Stop.rejected ∧
      ∀ e, parse template = .error e → e ≠ .missingLeadingSlash →
        ∃ before inner segs, template.toList = before ++ '<' :: inner ∧
          parse (String.ofList before) = .ok segs ∧ IsBad inner (names segs) ∧
          Describes before inner (names segs) e := by
  refine ⟨Scanner.parse_eq template, fun e herror hslash => ?_⟩
  unfold parse at herror
  dsimp only at herror
  split at herror
  next hhead =>
    have hwhole : segments ([] ++ template.toList) [] template.toList = .error e := herror
    obtain ⟨before, inner, segs, htext, hsplit, hbad, hdescribes⟩ := isOfFirstBad_of_segments hwhole
    rw [List.append_nil] at hbad hdescribes
    refine ⟨before, inner, segs, htext, parse_eq_ok_iff.2 ?_, hbad, hdescribes⟩
    rw [String.toList_ofList]
    refine ⟨?_, hsplit⟩
    cases before with
    | nil =>
      rw [htext] at hhead
      cases hhead
    | cons c before =>
      rw [htext] at hhead
      exact hhead
  · obtain rfl := Except.error.inj herror
    exact absurd rfl hslash

/-- The quotation that is open hides the parenthesis, and characters of two bytes stand before and
behind the place of the error. -/
theorem parse_openQuotation :
    parse "/é<a>/<b('ü)>" = .error (.unterminatedArguments 9) := by
  have htext : "/é<a>/<b('ü)>".toList = ['/', 'é'] ++ '<' :: "a>/<b('ü)>".toList := by decide
  have hfirst : placeholder "a>/<b('ü)>".toList =
      .ok (⟨Catalogue.defaultName, {}, "a"⟩, ['/'] ++ '<' :: "b('ü)>".toList) := by rfl
  have hsecond : placeholder "b('ü)>".toList = .error (.openArguments "'ü)>".toList) := by rfl
  unfold parse
  dsimp only
  rw [htext, segments_append_cons (by decide), hfirst]
  dsimp only
  rw [segments_append_cons (by decide), hsecond]
  rfl

theorem describes_of_parse_error_openQuotation :
    parse "/é<a>/<b('ü)>" = .error (.unterminatedArguments 9) ∧
      ∃ before inner segs, "/é<a>/<b('ü)>".toList = before ++ '<' :: inner ∧
        parse (String.ofList before) = .ok segs ∧ IsBad inner (names segs) ∧
        Describes before inner (names segs) (.unterminatedArguments 9) :=
  ⟨parse_openQuotation,
    (describes_of_parse_error "/é<a>/<b('ü)>").2 _ parse_openQuotation (by decide)⟩

end UrlRouting.Template
