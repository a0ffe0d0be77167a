import UrlRouting.Proofs.RouteTable.Building
import UrlRouting.Proofs.Text.Percent

/-
  URLs with scheme, host and anchor.
  A URL is the path of the same query between its lead and its trail (`url_eq`), so it is refused
  just where the path is. The path may have number signs of its own, but an encoded anchor has none;
  so the last one of the URL stands before the anchor (`splitLast?_url`), and what is behind it is
  read back.
-/

namespace UrlRouting

/-! ## The last of some characters -/

namespace Text

/-- The text before the last such character, and the text behind it. -/
def splitLast? (c : Char) : List Char → Option (List Char × List Char)
  | [] => none
  | d :: rest =>
    match splitLast? c rest with
    | some (before, after) => some (d :: before, after)
    | none => if d = c then some ([], rest) else none

theorem splitLast?_eq_none_iff {c : Char} {text : List Char} :
    splitLast? c text = none ↔ c ∉ text := by
  induction text with
  | nil => simp [splitLast?]
  | cons d rest ih =>
    rw [List.mem_cons, not_or, ← ih, splitLast?]
    cases splitLast? c rest with
    | none => simp [eq_comm]
    | some parts => simp

theorem splitLast?_append {c : Char} {after : List Char} (h : c ∉ after) (before : List Char) :
    splitLast? c (before ++ c :: after) = some (before, after) := by
  induction before with
  | nil =>
    rw [List.nil_append, splitLast?, splitLast?_eq_none_iff.2 h]
    exact if_pos rfl
  | cons d before ih => rw [List.cons_append, splitLast?, ih]

theorem eq_append_of_splitLast? {c : Char} {text before after : List Char}
    (h : splitLast? c text = some (before, after)) : text = before ++ c :: after ∧ c ∉ after := by
  induction text generalizing before with
  | nil => cases h
  | cons d rest ih =>
    rw [splitLast?] at h
    cases hrest : splitLast? c rest with
    | none =>
      rw [hrest] at h
      obtain ⟨rfl, he⟩ := Option.ite_none_right_eq_some.1 h
      obtain ⟨rfl, rfl⟩ : [] = before ∧ rest = after := by simpa using he
      exact ⟨rfl, splitLast?_eq_none_iff.1 hrest⟩
    | some parts =>
      rw [hrest] at h
      obtain ⟨rfl, rfl⟩ : d :: parts.1 = before ∧ parts.2 = after := by simpa using h
      obtain ⟨hsplit, hnot⟩ := ih hrest
      exact ⟨congrArg (d :: ·) hsplit, hnot⟩

/-- A text falls apart at the last such character and nowhere else. -/
theorem splitLast?_eq_some_iff {c : Char} {text before after : List Char} :
    splitLast? c text = some (before, after) ↔ text = before ++ c :: after ∧ c ∉ after := by
  refine ⟨eq_append_of_splitLast?, ?_⟩
  rintro ⟨rfl, h⟩
  exact splitLast?_append h before

end Text

/-- The query for the path alone. -/
def PathQuery.internal (query : PathQuery) : PathQuery :=
  { query with scheme := none, isExternal := false }

namespace Resolver

open Text (IsFragment encodeFragment percentDecode splitLast?)

/-! ## The parts of a URL -/

/-- What stands behind a built path. -/
def trail : Option String → String
  | some anchor => "#" ++ encodeFragment anchor
  | none => ""

theorem path_internal (r : Resolver) (query : PathQuery) :
    r.path query.internal = r.table.build query.endpoint query.values query.method := by
  unfold path
  cases hbuild : r.table.build query.internal.endpoint query.internal.values
      query.internal.method with
  | error e => exact hbuild.symm
  | ok path => exact hbuild.symm

/-- A URL is the path alone, between its lead and its trail. -/
theorem url_eq {r : Resolver} {query : PathQuery}
    (h : query.scheme = none ∨ query.isExternal = true) (anchor : Option String) :
    r.url query anchor =
      (r.path query.internal).map fun path => r.lead query ++ path ++ trail anchor := by
  have hallowed : ¬ (query.scheme.isSome && !query.isExternal) = true := by
    rcases h with h | h <;> simp [h]
  unfold url
  rw [if_neg hallowed, path_eq, path_internal]
  cases r.table.build query.endpoint query.values query.method with
  | error e => rfl
  | ok path =>
    cases anchor with
    | none => exact congrArg Except.ok String.append_empty.symm
    | some anchor => exact congrArg Except.ok String.append_assoc

theorem splitLast?_url (plain anchor : String) :
    splitLast? '#' (plain ++ trail (some anchor)).toList =
      some (plain.toList, (encodeFragment anchor).toList) := by
  have hlacks := (Text.isFragment_encodeFragment anchor).numberSign_not_mem
  refine Text.splitLast?_eq_some_iff.2 ⟨?_, hlacks⟩
  simp [trail]

theorem trail_inj {anchor other : Option String} (h : trail anchor = trail other) :
    anchor = other := by
  have hne : ∀ text, trail none ≠ trail (some text) := by
    intro text h
    have hlist := congrArg String.toList h
    simp [trail] at hlist
  cases anchor with
  | none =>
    cases other with
    | none => rfl
    | some other => exact absurd h (hne other)
  | some anchor =>
    cases other with
    | none => exact absurd h.symm (hne anchor)
    | some other =>
      have hencoded : encodeFragment anchor = encodeFragment other :=
        (String.append_right_inj "#").1 h
      rw [Text.encodeFragment_inj hencoded]

/-! ## Taking a URL apart -/

/-- Where no scheme is given, or the URL is to be external, a URL is refused just where the path
alone is, with the same error. Otherwise it is that path, behind scheme and host if it is to be
external and, if there is an anchor, before a number sign and the anchor in letters, digits, five
other characters and triples. The last number sign of such a URL is the one before the anchor, and
the text behind it stands for the bytes of the anchor; so no two anchors give the same URL. -/
theorem url_of_path {r : Resolver} {query : PathQuery}
    (h : query.scheme = none ∨ query.isExternal = true) :
    (∀ anchor e, r.url query anchor = .error e ↔ r.path query.internal = .error e) ∧
    ∀ path, r.path query.internal = .ok path → ∃ plain,
      plain = (if query.isExternal then query.scheme.getD r.scheme ++ "://" ++ r.host ++ path
        else path) ∧
      r.url query none = .ok plain ∧
      (∀ anchor, ∃ encoded, r.url query (some anchor) = .ok (plain ++ "#" ++ encoded) ∧
        IsFragment encoded.toList ∧
        splitLast? '#' (plain ++ "#" ++ encoded).toList = some (plain.toList, encoded.toList) ∧
        (percentDecode encoded.toList).toByteArray = anchor.toUTF8) ∧
      ∀ anchor other, r.url query anchor = r.url query other → anchor = other := by
  refine ⟨?_, ?_⟩
  · intro anchor e
    rw [url_eq h]
    cases r.path query.internal <;> simp [Except.map]
  · intro path hpath
    have hurl : ∀ anchor, r.url query anchor = .ok (r.lead query ++ path ++ trail anchor) := by
      intro anchor
      rw [url_eq h, hpath]
      rfl
    refine ⟨r.lead query ++ path, ?_, ?_, ?_, ?_⟩
    · unfold lead origin
      split
      · rfl
      · exact String.empty_append
    · rw [hurl]
      exact congrArg Except.ok String.append_empty
    · intro anchor
      have htrail : r.lead query ++ path ++ "#" ++ encodeFragment anchor =
          r.lead query ++ path ++ trail (some anchor) := String.append_assoc
      refine ⟨encodeFragment anchor, ?_, Text.isFragment_encodeFragment anchor, ?_,
        Text.percentDecode_encodeFragment anchor⟩
      · rw [hurl, htrail]
      · rw [htrail]
        exact splitLast?_url _ anchor
    · intro anchor other heq
      rw [hurl, hurl] at heq
      exact trail_inj ((String.append_right_inj _).1 (Except.ok.inj heq))

/-- A page of the endpoint that takes words, with a number sign in its path. -/
def taggedQuery : PathQuery where
  endpoint := "write"
  values := .ofList [("page", .str "c#")]
  scheme := some "https"
  isExternal := true

theorem url_of_path_taggedQuery :
    (taggedQuery.scheme = none ∨ taggedQuery.isExternal = true) ∧
      sampleResolver.path taggedQuery.internal = .ok "/docs/c#/" ∧
      sampleResolver.url taggedQuery (some "50% é#1") =
        .ok "https://example.org/docs/c#/#50%25%20%C3%A9%231" ∧
      splitLast? '#' "https://example.org/docs/c#/#50%25%20%C3%A9%231".toList =
        some ("https://example.org/docs/c#/".toList, "50%25%20%C3%A9%231".toList) ∧
      (percentDecode "50%25%20%C3%A9%231".toList).toByteArray = "50% é#1".toUTF8 ∧
      ∀ other, sampleResolver.url taggedQuery (some "50% é#1") =
        sampleResolver.url taggedQuery other → some "50% é#1" = other := by
  have hexternal : taggedQuery.scheme = none ∨ taggedQuery.isExternal = true := .inr rfl
  have hpath : sampleResolver.path taggedQuery.internal = .ok "/docs/c#/" := by decide +kernel
  have hurl : sampleResolver.url taggedQuery (some "50% é#1") =
      .ok "https://example.org/docs/c#/#50%25%20%C3%A9%231" := by decide +kernel
  obtain ⟨plain, rfl, -, hanchored, hinj⟩ := (url_of_path hexternal).2 _ hpath
  obtain ⟨encoded, hencoded, -, hsplit, hdecoded⟩ := hanchored "50% é#1"
  obtain rfl : encoded = "50%25%20%C3%A9%231" :=
    (String.append_right_inj "https://example.org/docs/c#/#").1
      (Except.ok.inj (hencoded.symm.trans hurl))
  exact ⟨hexternal, hpath, hurl, hsplit, hdecoded, fun other => hinj _ other⟩

end Resolver

end UrlRouting
