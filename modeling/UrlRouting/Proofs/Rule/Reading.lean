import UrlRouting.Proofs.Pattern.LastSlash
import UrlRouting.Proofs.Rule.Binding
import UrlRouting.Proofs.Rule.Values

/-
  What a compiled rule says to a path, and which paths it builds.
  Reading is `exists_texts_of_read?` and `read?_of_texts`: the texts that the pattern finds, what
  they convert to, and a redirect just where the slash at the end is open and missing. Building is
  `exists_texts_of_build`: the pattern's parts with the written values in the places of the
  variables. A branch builds paths that end in a slash only, so it never asks for a redirect to a
  path that needs another.
-/

namespace UrlRouting

namespace Rule

variable {r : Rule} {p : Pattern}

namespace Compiled

/-! ## Patterns of compiled rules -/

theorem pattern_eq (h : r.Compiled p) : r.pattern = .ok p := by
  obtain ⟨table, catalogue, hbinding, -⟩ := h
  exact pattern_of_binding hbinding

theorem exists_segments (h : r.Compiled p) :
    ∃ catalogue segments, Template.parse r.template = .ok segments ∧
      Pattern.ofSegments catalogue r.slashPolicy segments = .ok p := by
  obtain ⟨table, catalogue, -, hp⟩ := h
  obtain ⟨segments, hparse, hsegments⟩ := patternWith_eq_ok_iff.1 hp
  exact ⟨catalogue, segments, hparse, hsegments⟩

theorem hasPlainNames (h : r.Compiled p) : p.hasPlainNames = true := by
  obtain ⟨catalogue, segments, hparse, hsegments⟩ := h.exists_segments
  exact Pattern.hasPlainNames_of_parse hparse hsegments

theorem nodup_variables (h : r.Compiled p) : p.variables.Nodup := by
  obtain ⟨catalogue, segments, hparse, hsegments⟩ := h.exists_segments
  exact Pattern.nodup_variables hparse hsegments

theorem slashes_eq (h : r.Compiled p) : p.slashes = r.slashPolicy := by
  obtain ⟨catalogue, segments, hparse, hsegments⟩ := h.exists_segments
  exact (Pattern.ofSegments_eq_ok_iff.1 hsegments).2.1

/-- The pattern of a branch ends in a slash. -/
theorem exists_last_of_isBranch (h : r.Compiled p) (hbranch : r.isBranch = true) :
    ∃ parts text, p.parts = parts ++ [.literal text] ∧ text.toList.getLast? = some '/' := by
  obtain ⟨catalogue, segments, hparse, hsegments⟩ := h.exists_segments
  obtain ⟨before, last, rfl, hlast⟩ := Template.last_endsInSlash
    (Template.parse_eq_ok_iff.1 hparse).2 (of_decide_eq_true hbranch)
  obtain ⟨parts, hparts, -⟩ := Pattern.exists_parts_of_segments hsegments
  exact ⟨parts, String.ofList last, hparts, by rw [String.toList_ofList]; exact hlast⟩

theorem flatten_interleave_body (h : r.Compiled p) (hopen : r.slashPolicy = .optional)
    (hend : Template.EndsInOneSlash r.template.toList) (texts : List (List Char)) :
    (Part.interleave p.parts texts).flatten =
      (Part.interleave p.body texts).flatten ++ ['/'] := by
  obtain ⟨catalogue, segments, hparse, hsegments⟩ := h.exists_segments
  obtain ⟨before, front, hlast⟩ := Pattern.exists_lastSlash hparse hsegments hend
  rw [Pattern.body_of_optional (h.slashes_eq.trans hopen)]
  exact hlast.flatten_interleave texts

end Compiled

/-! ## Reading -/

theorem needsRedirect_eq (r : Rule) (slash : Bool) :
    (r.strictSlashes && r.isBranch && !slash) = (r.slashPolicy = .optional && !slash) := by
  rw [Bool.and_comm r.strictSlashes]
  unfold slashPolicy
  cases r.isBranch && r.strictSlashes <;> rfl

/-- What a rule reads: texts that the converters accept, values that they convert to, and a
redirect just where the slash is open and missing. -/
theorem exists_texts_of_read? (h : r.Compiled p) {path : String} {m : RuleReading}
    (hread : r.read? path = .ok (some m)) :
    ∃ texts, p.read? path = some ⟨texts.map String.ofList, path.toList.getLast? = some '/'⟩ ∧
      List.Forall₂ Converter.Accepts (Part.converters p.parts) texts ∧
      List.Forall₂ (Pattern.ReadsCapture m.values) p.captures texts ∧ p.Covers m.values ∧
      (m.needsRedirect = true ↔
        r.slashPolicy = .optional ∧ path.toList.getLast? ≠ some '/') := by
  obtain ⟨table, catalogue, hbinding, -⟩ := id h
  rw [read?_of_binding hbinding, Except.ok.injEq, Option.bind_eq_some_iff] at hread
  obtain ⟨reading, hp, hm⟩ := hread
  obtain ⟨values, hvalues, rfl⟩ := Option.map_eq_some_iff.1 hm
  obtain ⟨texts, htexts, rfl⟩ := Pattern.exists_texts_of_read?_any h.hasPlainNames hp
  have hlen : p.captures.length = texts.length := by
    rw [← htexts.length_eq]
    exact (List.length_map Prod.snd).symm
  obtain ⟨hreads, hcovers⟩ := (Pattern.convert?_eq_some_iff h.nodup_variables hlen).1 hvalues
  refine ⟨texts, hp, htexts, hreads, hcovers, ?_⟩
  show (r.strictSlashes && r.isBranch && !(decide (path.toList.getLast? = some '/'))) = true ↔ _
  rw [needsRedirect_eq]
  simp

/-- Texts that a pattern finds and that convert to values for the variables are read as these. -/
theorem read?_of_texts (h : r.Compiled p) {path : String} {texts : List (List Char)}
    {slash : Bool} {values : Values} (hp : p.read? path = some ⟨texts.map String.ofList, slash⟩)
    (hreads : List.Forall₂ (Pattern.ReadsCapture values) p.captures texts)
    (hcovers : p.Covers values) :
    r.read? path = .ok (some ⟨values, r.slashPolicy = .optional && !slash⟩) := by
  obtain ⟨table, catalogue, hbinding, -⟩ := id h
  have hvalues := (Pattern.convert?_eq_some_iff h.nodup_variables hreads.length_eq).2
    ⟨hreads, hcovers⟩
  rw [read?_of_binding hbinding, hp, Option.bind_some, hvalues, Option.map_some, needsRedirect_eq]

/-! ## Building -/

theorem exists_texts_of_build (h : r.Compiled p) {values : Values} {path : String}
    (hbuild : r.build values = .ok path) :
    ∃ texts, List.Forall₂ (Pattern.WritesCapture values) p.captures texts ∧
      path = String.ofList (Part.interleave p.parts texts).flatten := by
  obtain ⟨table, catalogue, hbinding, -⟩ := h
  rw [build_of_binding hbinding] at hbuild
  cases hp : p.build values with
  | error fault =>
    rw [hp] at hbuild
    cases hbuild
  | ok built =>
    rw [hp] at hbuild
    obtain rfl := Except.ok.inj hbuild
    exact (Pattern.build_eq_ok_iff.1 hp).2

/-- A branch builds no path that does not end in a slash. -/
theorem endsInSlash_of_build (h : r.Compiled p) (hbranch : r.isBranch = true) {values : Values}
    {path : String} (hbuild : r.build values = .ok path) : path.toList.getLast? = some '/' := by
  obtain ⟨texts, -, rfl⟩ := exists_texts_of_build h hbuild
  obtain ⟨parts, text, hparts, hlast⟩ := h.exists_last_of_isBranch hbranch
  rw [String.toList_ofList, hparts, interleave_append_literal, List.flatten_append,
    List.flatten_singleton, List.getLast?_append, hlast, Option.some_or]

end Rule

end UrlRouting
