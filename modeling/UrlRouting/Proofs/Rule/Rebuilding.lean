import UrlRouting.Proofs.Converter.Rewriting
import UrlRouting.Proofs.Rule.Reading

/-
  Paths that are built from what was read.
  A rule that has read a path has a value for every variable, and each of these values is written
  unless it is a float beyond the finite ones (`exists_build_iff_of_read?`). Where all values are
  the texts that were read, what is built is the path again, with the slash that it may have missed
  (`build_of_isText`).
-/

namespace UrlRouting

open Template (EndsInOneSlash)

/-- Whether there is no float beyond the finite ones among the values. -/
def Values.AreFinite (values : Values) : Prop :=
  ∀ name v, values.get? name = some v → v.IsFinite

namespace Pattern

variable {values : Values} {captures : List (String × Converter)} {texts : List (List Char)}

/-- Of values that were read, all are written just when all are finite. -/
theorem exists_writes_iff_of_reads
    (haccepts : List.Forall₂ Converter.Accepts (captures.map Prod.snd) texts)
    (hreads : List.Forall₂ (ReadsCapture values) captures texts) :
    (∃ written, List.Forall₂ (WritesCapture values) captures written) ↔
      ∀ capture ∈ captures, ∀ v, values.get? capture.1 = some v → v.IsFinite := by
  have hwrites : ∀ capture ∈ captures, ∃ v, values.get? capture.1 = some v ∧
      ((∃ written, capture.2.write v = .ok written) ↔ v.IsFinite) := by
    rw [List.forall₂_map_left_iff] at haccepts
    intro capture hcapture
    have hboth := hreads.mp (fun _ _ h1 h2 => And.intro h1 h2) haccepts
    obtain ⟨text, ⟨v, hv, hread⟩, htext⟩ := exists_text_of_mem hboth hcapture
    exact ⟨v, hv, Converter.exists_write_iff_of_read htext hread⟩
  constructor
  · rintro ⟨written, hwritten⟩ capture hcapture v hv
    obtain ⟨text, w, hw, hwrite⟩ := exists_text_of_mem hwritten hcapture
    obtain ⟨v', hv', hiff⟩ := hwrites capture hcapture
    obtain rfl := Option.some.inj (hv.symm.trans hw)
    obtain rfl := Option.some.inj (hv.symm.trans hv')
    exact hiff.1 ⟨_, hwrite⟩
  · intro hfinite
    refine exists_texts_of_forall fun capture hcapture => ?_
    obtain ⟨v, hv, hiff⟩ := hwrites capture hcapture
    obtain ⟨written, hwritten⟩ := hiff.2 (hfinite capture hcapture v hv)
    exact ⟨written.toList, v, hv, by rw [String.ofList_toList]; exact hwritten⟩

end Pattern

namespace Rule

/-- From what a rule has read it builds a path just when all values are finite. -/
theorem exists_build_iff_of_read? {r : Rule} {p : Pattern} (h : r.Compiled p) {path : String}
    {m : RuleReading} (hread : r.read? path = .ok (some m)) :
    (∃ built, r.build m.values = .ok built) ↔ m.values.AreFinite := by
  obtain ⟨texts, -, haccepts, hreads, hcovers, -⟩ := exists_texts_of_read? h hread
  have hnames : ∀ name v, m.values.get? name = some v →
      ∃ capture ∈ p.captures, capture.1 = name := by
    intro name v hv
    exact List.mem_map.1 ((hcovers name).1 (Option.isSome_iff_exists.2 ⟨v, hv⟩))
  have hwrites := Pattern.exists_writes_iff_of_reads haccepts hreads
  constructor
  · rintro ⟨built, hbuild⟩ name v hv
    obtain ⟨written, hwritten, -⟩ := exists_texts_of_build h hbuild
    obtain ⟨capture, hcapture, rfl⟩ := hnames name v hv
    exact hwrites.1 ⟨written, hwritten⟩ capture hcapture v hv
  · intro hfinite
    obtain ⟨written, hwritten⟩ := hwrites.2 fun capture _ v hv => hfinite capture.1 v hv
    obtain ⟨table, catalogue, hbinding, -⟩ := id h
    have hvariables : ∀ name ∈ m.values.names, name ∈ p.variables :=
      fun name hname => (hcovers name).1 (NameMap.mem_names.1 hname)
    rw [build_of_binding hbinding,
      Pattern.build_eq_ok_iff.2 ⟨hvariables, written, hwritten, rfl⟩]
    exact ⟨_, rfl⟩

end Rule

/-! ## Variables of text -/

namespace Converter

/-- Whether the value of a variable is the text that it has in the path. -/
def IsText : Converter → Prop
  | string _ | any _ | path => True
  | int _ | float _ | uuid => False

theorem write_of_isText {c : Converter} (hc : c.IsText) {text : List Char} {v : Value}
    (hread : c.read (String.ofList text) = .ok v) : c.write v = .ok (String.ofList text) := by
  cases c with
  | int _ => exact hc.elim
  | float _ => exact hc.elim
  | uuid => exact hc.elim
  | _ =>
    obtain rfl := Except.ok.inj hread
    rfl

end Converter

namespace Pattern

theorem writes_of_isText {values : Values} {captures : List (String × Converter)}
    {texts : List (List Char)} (htext : ∀ capture ∈ captures, capture.2.IsText)
    (hreads : List.Forall₂ (ReadsCapture values) captures texts) :
    List.Forall₂ (WritesCapture values) captures texts := by
  induction hreads with
  | nil => exact .nil
  | cons hfirst _ ih =>
    obtain ⟨hc, hmore⟩ := List.forall_mem_cons.1 htext
    obtain ⟨v, hv, hread⟩ := hfirst
    exact .cons ⟨v, hv, Converter.write_of_isText hc hread⟩ (ih hmore)

end Pattern

namespace Rule

variable {r : Rule} {p : Pattern}

/-- The path that a rule has read, with the slash that it misses, is made up of the parts and the
texts that were found for the variables. -/
theorem exists_texts_of_path (h : r.Compiled p)
    (hend : r.slashPolicy = .optional → EndsInOneSlash r.template.toList) {path : String}
    {m : RuleReading} (hread : r.read? path = .ok (some m)) :
    ∃ texts, List.Forall₂ (Pattern.ReadsCapture m.values) p.captures texts ∧
      path.toList ++ (if m.needsRedirect then ['/'] else []) =
        (Part.interleave p.parts texts).flatten := by
  obtain ⟨texts, hp, -, hreads, -, hredirect⟩ := exists_texts_of_read? h hread
  refine ⟨texts, hreads, ?_⟩
  rw [Pattern.path_of_read? h.hasPlainNames hp, h.slashes_eq]
  cases hpolicy : r.slashPolicy with
  | exact =>
    rw [Pattern.body_of_exact (h.slashes_eq.trans hpolicy)]
    simp [hredirect, hpolicy]
  | optional =>
    rw [h.flatten_interleave_body hpolicy (hend hpolicy)]
    by_cases hslash : path.toList.getLast? = some '/' <;> simp [hredirect, hpolicy, hslash]

/-- From values that are texts a rule builds the path in which it found them, with the slash at its
end where it was missing. -/
theorem build_of_isText (h : r.Compiled p)
    (hend : r.slashPolicy = .optional → EndsInOneSlash r.template.toList)
    (htext : ∀ c ∈ Part.converters p.parts, c.IsText) {path : String} {m : RuleReading}
    (hread : r.read? path = .ok (some m)) :
    r.build m.values = .ok (if m.needsRedirect then path ++ "/" else path) := by
  obtain ⟨texts, hreads, hpath⟩ := exists_texts_of_path h hend hread
  obtain ⟨-, -, -, -, hcovers, -⟩ := exists_texts_of_read? h hread
  have hwrites := Pattern.writes_of_isText
    (fun capture hcapture => htext _ (List.mem_map_of_mem hcapture)) hreads
  have hnames : ∀ name ∈ m.values.names, name ∈ p.variables :=
    fun name hname => (hcovers name).1 (NameMap.mem_names.1 hname)
  obtain ⟨table, catalogue, hbinding, -⟩ := id h
  rw [build_of_binding hbinding, Pattern.build_eq_ok_iff.2 ⟨hnames, texts, hwrites, rfl⟩, ← hpath]
  cases m.needsRedirect <;> simp [String.ofList_append] <;> rfl

end Rule

end UrlRouting
