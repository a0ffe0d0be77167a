import UrlRouting.Proofs.Converter.Rewriting
import UrlRouting.Proofs.RouteTable.Redirect

/-
  What a caller may rely on in the values of an answer.
  `Converter.Yields` says of each kind which values its variables can have. It holds of what is read
  from a text that the converter accepts (`yields_of_read`): half of it is said by the accepted
  texts and half by reading, which knows the bounds of numbers. A rule pairs its variables with the
  texts in order, so it holds of the value under the name of each variable (`yields_of_read?`), and
  so of an answer of a table (`values_of_answer`).
-/

namespace UrlRouting

/-! ## Values of a converter -/

namespace Converter

/-- The values that a variable can have in a path. -/
def Yields : Converter → Value → Prop
  | string b, .str s => '/' ∉ s.toList ∧ b.Allows s.toList.length
  | any items, .str s => s ∈ items
  | path, .str s => s.toList ≠ [] ∧ s.toList.head? ≠ some '/'
  | int b, .int n => 0 ≤ n.toInt ∧ (∀ min, b.min = some min → min ≤ n) ∧
      (∀ max, b.max = some max → n ≤ max) ∧
      ∀ width, b.digits = some width → n.toInt < 10 ^ width
  | float b, .float x => (∀ min, b.min = some min → ¬ x < min) ∧
      ∀ max, b.max = some max → ¬ max < x
  | uuid, .uuid _ => True
  | _, _ => False

theorem yields_int {b : IntBounds} {n : Int64} {text : List Char}
    (hdigits : Decimal.isDigits text = true) (hvalue : n.toInt = Decimal.value text)
    (hin : b.excludes n = false) (hwidth : ∀ width, b.digits = some width → text.length ≤ width) :
    (int b).Yields (.int n) := by
  obtain ⟨hmin, hmax⟩ := IntBounds.excludes_eq_false_iff.1 hin
  refine ⟨hvalue ▸ Int.natCast_nonneg _, hmin, hmax, ?_⟩
  intro width hb
  have hlt := Decimal.value_lt (Decimal.isDigits_iff.1 hdigits).2
  have hle : 10 ^ text.length ≤ 10 ^ width := Nat.pow_le_pow_right (by decide) (hwidth width hb)
  rw [hvalue]
  exact_mod_cast Nat.lt_of_lt_of_le hlt hle

theorem yields_float {b : FloatBounds} {x : Float} (hin : b.excludes x = false) :
    (float b).Yields (.float x) := by
  obtain ⟨hmin, hmax⟩ := Bool.or_eq_false_iff.1 hin
  refine ⟨?_, ?_⟩
  · intro min hb
    rwa [hb, Option.any_some, decide_eq_false_iff_not] at hmin
  · intro max hb
    rwa [hb, Option.any_some, decide_eq_false_iff_not] at hmax

/-- What is read from an accepted text has the kind of the converter and keeps its bounds. -/
theorem yields_of_read {c : Converter} {text : List Char} {v : Value} (haccepts : c.Accepts text)
    (hread : c.read (String.ofList text) = .ok v) : c.Yields v := by
  cases c with
  | string b =>
    obtain rfl := Except.ok.inj hread
    show '/' ∉ (String.ofList text).toList ∧ b.Allows (String.ofList text).toList.length
    rwa [String.toList_ofList]
  | any items =>
    obtain rfl := Except.ok.inj hread
    exact haccepts
  | path =>
    obtain rfl := Except.ok.inj hread
    obtain ⟨first, rest, rfl, hfirst, -⟩ := haccepts
    show (String.ofList (first :: rest)).toList ≠ [] ∧
      (String.ofList (first :: rest)).toList.head? ≠ some '/'
    rw [String.toList_ofList]
    exact ⟨List.cons_ne_nil first rest, fun heq => hfirst (Option.some.inj heq)⟩
  | int b =>
    obtain ⟨n, rfl, hvalue, hin, hwidth⟩ := (IntBounds.read_eq_ok_iff haccepts).1 hread
    exact yields_int haccepts hvalue hin hwidth
  | float b =>
    obtain ⟨x, rfl, -, hin⟩ := FloatBounds.read_eq_ok hread
    exact yields_float hin
  | uuid =>
    obtain ⟨u, rfl⟩ := Uuid.readText_eq_ok hread
    trivial

end Converter

/-! ## Values of a rule -/

theorem Pattern.yields_of_reads {captures : List (String × Converter)} {texts : List (List Char)}
    {values : Values}
    (haccepts : List.Forall₂ Converter.Accepts (captures.map Prod.snd) texts)
    (hreads : List.Forall₂ (ReadsCapture values) captures texts) :
    ∀ capture ∈ captures, ∃ v, values.get? capture.1 = some v ∧ capture.2.Yields v := by
  induction hreads with
  | nil => exact List.forall_mem_nil _
  | cons hread _ ih =>
    obtain ⟨haccepts, hmore⟩ := List.forall₂_cons.1 haccepts
    obtain ⟨v, hv, hread⟩ := hread
    exact List.forall_mem_cons.2 ⟨⟨v, hv, Converter.yields_of_read haccepts hread⟩, ih hmore⟩

/-- A rule reads a value for every variable and for nothing else, and each is one that the converter
of its variable can yield. -/
theorem Rule.yields_of_read? {r : Rule} {p : Pattern} (h : r.Compiled p) {path : String}
    {m : RuleReading} (hread : r.read? path = .ok (some m)) :
    p.Covers m.values ∧
      ∀ capture ∈ p.captures, ∃ v, m.values.get? capture.1 = some v ∧ capture.2.Yields v := by
  obtain ⟨texts, -, haccepts, hreads, hcovers, -⟩ := exists_texts_of_read? h hread
  exact ⟨hcovers, Pattern.yields_of_reads haccepts hreads⟩

/-! ## Values of an answer -/

namespace RouteTable

variable {t : RouteTable}

/-- The values of an answer are for the variables of its rule, which the table has under the number
of the answer, and each is one that the converter of its variable can yield. -/
theorem values_of_answer (h : t.Reachable) {request : Request} {a : Answer}
    (hanswer : t.answer request = .ok a) :
    t.rule? a.number = some a.rule ∧
      ∃ p, a.rule.Compiled p ∧ p.Covers a.values ∧
        ∀ name c, (name, c) ∈ p.captures → ∃ v, a.values.get? name = some v ∧ c.Yields v := by
  obtain ⟨front, back, horder, hread, -⟩ := answer_eq_ok hanswer
  have he : (a.number, a.rule) ∈ t.inMatchOrder :=
    horder ▸ List.mem_append_right front List.mem_cons_self
  obtain ⟨p, hp⟩ := exists_compiled_of_inMatchOrder h he
  obtain ⟨hcovers, hyields⟩ := Rule.yields_of_read? hp hread
  refine ⟨(mem_inMatchOrder h.consistent).1 he, p, hp, hcovers, ?_⟩
  intro name c hcapture
  exact hyields (name, c) hcapture

/-- A rule with a year of four digits, a month and a kind, as its table keeps it. -/
def dateRule : Rule where
  template := "/<int(fixed_digits=4):year>-<int(min=1, max=12):month>/<any(raw, html):kind>"
  endpoint := "date"
  methods := .ofList [.get, .head]
  binding := some ⟨⟨1⟩, {
    parts := [.literal "/", .capture "year" (.int { digits := some 4 }), .literal "-",
      .capture "month" (.int { min := some 1, max := some 12 }), .literal "/",
      .capture "kind" (.any ["raw", "html"]), .literal ""]
    slashes := .exact }⟩

theorem values_of_answer_date :
    ∃ t : RouteTable, t.Reachable ∧ ∃ a, t.answer ⟨.get, "/0024-07/raw"⟩ = .ok a ∧
      ∃ year month kind, a.values.get? "year" = some year ∧
        (Converter.int { digits := some 4 }).Yields year ∧ a.values.get? "month" = some month ∧
        (Converter.int { min := some 1, max := some 12 }).Yields month ∧
        a.values.get? "kind" = some kind ∧ (Converter.any ["raw", "html"]).Yields kind := by
  let t : RouteTable := run { id := ⟨1⟩ }
    [.add { template := dateRule.template, endpoint := "date", methods := .ofList [.get] }]
  let a : Answer := ⟨⟨0⟩, dateRule, .ofList [("year", .int 24), ("month", .int 7),
    ("kind", .str "raw")]⟩
  have hreach : t.Reachable := ⟨⟨1⟩, {}, { id := ⟨1⟩ }, _, rfl, rfl⟩
  have ha : t.answer ⟨.get, "/0024-07/raw"⟩ = .ok a := by decide +kernel
  obtain ⟨-, p, hp, -, hyields⟩ := values_of_answer hreach ha
  obtain rfl := Except.ok.inj hp.pattern_eq
  obtain ⟨year, hyear, hyear'⟩ := hyields "year" (.int { digits := some 4 }) (by decide)
  obtain ⟨month, hmonth, hmonth'⟩ :=
    hyields "month" (.int { min := some 1, max := some 12 }) (by decide)
  obtain ⟨kind, hkind, hkind'⟩ := hyields "kind" (.any ["raw", "html"]) (by decide)
  exact ⟨t, hreach, a, ha, year, month, kind, hyear, hyear', hmonth, hmonth', hkind, hkind'⟩

end RouteTable

end UrlRouting
