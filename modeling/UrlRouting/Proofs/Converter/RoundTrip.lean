import UrlRouting.Converter.Conversion
import UrlRouting.Proofs.Converter.Language

/-
  What a converter writes it reads back.
  `Domain` holds of the values that a variable of this converter is meant to have, and
  `exists_text_of_domain` is the round trip: such a value is written, its text is one that the
  converter accepts and reads as that value, and it does not end in a slash.
-/

namespace UrlRouting

theorem IntBounds.excludes_eq_false_iff {b : IntBounds} {n : Int64} :
    b.excludes n = false ↔
      (∀ min, b.min = some min → min ≤ n) ∧ ∀ max, b.max = some max → n ≤ max := by
  unfold excludes
  rw [Bool.or_eq_false_iff]
  refine and_congr ?_ ?_
  · cases b.min <;> simp
  · cases b.max <;> simp

/-! ## Domains -/

namespace Converter

/-- The values that a variable is meant to have: those whose text the converter would accept, none
of them with an empty text, none of the numbers negative or wider than the declared width, and no
path with a slash at one of its ends. -/
def Domain : Converter → Value → Prop
  | string b, .str s => s.toList ≠ [] ∧ '/' ∉ s.toList ∧ b.Allows s.toList.length
  | any items, .str s => s.toList ≠ [] ∧ s ∈ items
  | path, .str s => s.toList ≠ [] ∧ s.toList.head? ≠ some '/' ∧ s.toList.getLast? ≠ some '/' ∧
      '\n' ∉ s.toList
  | int b, .int n => 0 ≤ n.toInt ∧ (∀ min, b.min = some min → min ≤ n) ∧
      (∀ max, b.max = some max → n ≤ max) ∧
      ∀ width, b.digits = some width →
        (Decimal.digits n.toInt.natAbs).length ≤ width ∧ width ≤ 65535
  | uuid, .uuid _ => True
  | _, _ => False

/-- What a written text has to be for the path that it stands in to be read back. -/
def Renders (c : Converter) (v : Value) (text : List Char) : Prop :=
  c.write v = .ok (String.ofList text) ∧ c.read (String.ofList text) = .ok v ∧ c.Accepts text ∧
    text ≠ [] ∧ text.getLast? ≠ some '/'

theorem getLast?_ne_of_not_mem {c : Char} {text : List Char} (h : c ∉ text) :
    text.getLast? ≠ some c :=
  fun hlast => h (List.mem_of_getLast? hlast)

theorem not_mem_of_isHyphenated {text : List Char} (h : Uuid.IsHyphenated text) :
    '/' ∉ text := by
  have hgroup : ∀ n group, Uuid.IsGroup n group → '/' ∉ group := by
    intro n group hgroup hmem
    have hdigit := hgroup.2 _ hmem
    revert hdigit
    decide
  obtain ⟨a, b, c, d, e, rfl, ha, hb, hc, hd, he⟩ := h
  simp [hgroup _ _ ha, hgroup _ _ hb, hgroup _ _ hc, hgroup _ _ hd, hgroup _ _ he]

/-- Text is written and read as it stands. -/
theorem renders_of_accepts {c : Converter} {s : String} (hwrite : c.write (.str s) = .ok s)
    (hread : c.read s = .ok (.str s)) (haccepts : c.Accepts s.toList) (hne : s.toList ≠ [])
    (hlast : s.toList.getLast? ≠ some '/') : c.Renders (.str s) s.toList := by
  unfold Renders
  rw [String.ofList_toList]
  exact ⟨hwrite, hread, haccepts, hne, hlast⟩

theorem renders_string {b : LengthBounds} {s : String} (h : (string b).Domain (.str s)) :
    (string b).Renders (.str s) s.toList := by
  obtain ⟨hne, hslash, hlen⟩ := h
  exact renders_of_accepts rfl rfl ⟨hslash, hlen⟩ hne (getLast?_ne_of_not_mem hslash)

theorem renders_any {items : List String} {s : String}
    (hitems : ∀ item ∈ items, '/' ∉ item.toList) (h : (any items).Domain (.str s)) :
    (any items).Renders (.str s) s.toList := by
  obtain ⟨hne, hmem⟩ := h
  refine renders_of_accepts rfl rfl ?_ hne (getLast?_ne_of_not_mem (hitems s hmem))
  show String.ofList s.toList ∈ items
  rw [String.ofList_toList]
  exact hmem

theorem renders_path {s : String} (h : path.Domain (.str s)) :
    path.Renders (.str s) s.toList := by
  obtain ⟨hne, hhead, hlast, hline⟩ := h
  refine renders_of_accepts rfl rfl ?_ hne hlast
  cases htext : s.toList with
  | nil => exact absurd htext hne
  | cons c rest =>
    rw [htext] at hhead hline
    refine ⟨c, rest, rfl, ?_, fun hmem => hline (List.mem_cons_of_mem c hmem)⟩
    rintro rfl
    exact hhead rfl

/-- A number that is not negative, within the bounds and not too wide reads back from its digits. -/
theorem renders_int_of_within {b : IntBounds} {n : Int64} (hpos : 0 ≤ n.toInt)
    (hin : b.excludes n = false)
    (hwidth : ∀ width, b.digits = some width → (Decimal.digits n.toInt.natAbs).length ≤ width) :
    ∃ text, (int b).Renders (.int n) text := by
  -- without a declared width no zeros are put in front
  obtain ⟨zeros, hzeros, hfits⟩ : ∃ zeros,
      b.write (.int n) = .ok (String.ofList
        (List.replicate zeros '0' ++ Decimal.digits n.toInt.natAbs)) ∧
      ∀ width, b.digits = some width →
        (List.replicate zeros '0' ++ Decimal.digits n.toInt.natAbs).length ≤ width := by
    unfold IntBounds.write
    cases hd : b.digits with
    | none =>
      refine ⟨0, ?_, by simp⟩
      simp only [IntBounds.number?, Decimal.intText, Decimal.ofInt_of_nonneg hpos,
        List.replicate_zero, List.nil_append]
    | some width =>
      refine ⟨width - (Decimal.digits n.toInt.natAbs).length, ?_, ?_⟩
      · simp only [IntBounds.number?, Decimal.padded_of_nonneg hpos]
      · intro width' hwidth'
        obtain rfl := Option.some.inj hwidth'
        have hle := hwidth width hd
        rw [List.length_append, List.length_replicate]
        omega
  have hdigits := Decimal.isDigits_padding zeros n.toInt.natAbs
  obtain ⟨hne, hall⟩ := Decimal.isDigits_iff.1 hdigits
  refine ⟨_, hzeros, ?_, hdigits, List.ne_nil_of_length_pos hne, ?_⟩
  · have htoo : b.isTooLong (String.ofList
        (List.replicate zeros '0' ++ Decimal.digits n.toInt.natAbs)) = false := by
      unfold IntBounds.isTooLong
      rw [String.toList_ofList, Decimal.byteLength_of_isDigits hall]
      cases hd : b.digits with
      | none => rfl
      | some width => simpa using hfits width hd
    show b.read _ = _
    unfold IntBounds.read
    rw [htoo, String.toList_ofList, Decimal.int64?_padding hpos]
    simp [hin]
  · apply getLast?_ne_of_not_mem
    intro hslash
    cases hall _ hslash

theorem renders_int {b : IntBounds} {n : Int64} (h : (int b).Domain (.int n)) :
    ∃ text, (int b).Renders (.int n) text := by
  obtain ⟨hpos, hmin, hmax, hwidth⟩ := h
  have hin := IntBounds.excludes_eq_false_iff.2 ⟨hmin, hmax⟩
  exact renders_int_of_within hpos hin fun width hd => (hwidth width hd).1

end Converter

/-! ## Identifiers -/

namespace Uuid

/-- The bare form is not taken for one of the others: no digit opens a brace or the URN mark. -/
theorem parse?_of_ofHyphenated? {text : List Char} {u : Uuid} (h : ofHyphenated? text = some u) :
    parse? text = some u := by
  have hdigits : "0123456789ABCDEFabcdef".toList.all
      (fun c => decide (c ≠ '{' ∧ c.toLower ≠ 'u')) = true := by decide
  obtain ⟨a, b, c, d, e, htext, ⟨hlen, hall⟩, -⟩ :=
    isSome_ofHyphenated?_iff.1 (Option.isSome_iff_exists.2 ⟨u, h⟩)
  cases a with
  | nil => cases hlen
  | cons first a =>
    have hfirst := hall first List.mem_cons_self
    obtain ⟨hbrace, hurn⟩ := of_decide_eq_true (List.all_eq_true.1 hdigits first
      (of_decide_eq_true hfirst))
    have hhead : text.head? ≠ some '{' := by
      rw [htext]
      exact fun heq => hbrace (Option.some.inj heq)
    have hmark : (text.take urn.length).map Char.toLower ≠ urn := by
      rw [htext]
      intro heq
      exact hurn (List.cons.inj heq).1
    unfold parse?
    rw [if_neg hhead, if_neg hmark, h, Option.some_or]

end Uuid

namespace Converter

theorem renders_uuid (u : Uuid) :
    uuid.Renders (.uuid u) (Uuid.write Uuid.hyphenated u.digits) := by
  have hread := Uuid.ofHyphenated?_write u
  have haccepts := Uuid.isSome_ofHyphenated?_iff.1 (Option.isSome_iff_exists.2 ⟨u, hread⟩)
  refine ⟨rfl, ?_, haccepts, ?_, getLast?_ne_of_not_mem (not_mem_of_isHyphenated haccepts)⟩
  · show Uuid.readText _ = _
    unfold Uuid.readText
    rw [String.toList_ofList, Uuid.parse?_of_ofHyphenated? hread]
  · intro hnil
    have hlen := Uuid.length_of_isHyphenated haccepts
    rw [hnil] at hlen
    cases hlen

/-! ## All converters -/

/-- A converter that keeps within a segment of a path, and reads all that it writes. -/
def IsPlain : Converter → Prop
  | string _ | int _ | uuid => True
  | any items => ∀ item ∈ items, '/' ∉ item.toList
  | path | float _ => False

theorem not_mem_of_isPlain {c : Converter} {text : List Char} (hplain : c.IsPlain)
    (h : c.Accepts text) : '/' ∉ text := by
  cases c with
  | string b => exact h.1
  | any items =>
    have hslash := hplain _ h
    rwa [String.toList_ofList] at hslash
  | path => exact hplain.elim
  | int _ =>
    intro hmem
    cases (Decimal.isDigits_iff.1 h).2 _ hmem
  | float _ => exact hplain.elim
  | uuid => exact not_mem_of_isHyphenated h

theorem not_mem_of_float {b : FloatBounds} {text : List Char} (h : (float b).Accepts text) :
    '/' ∉ text := by
  obtain ⟨whole, part, rfl, hwhole, hpart⟩ := h
  have hdigits : ∀ digits, Decimal.isDigits digits = true → '/' ∉ digits := by
    intro digits h hmem
    cases (Decimal.isDigits_iff.1 h).2 _ hmem
  intro hmem
  rcases List.mem_append.1 hmem with hmem | hmem
  · exact hdigits whole hwhole hmem
  · rcases List.mem_cons.1 hmem with heq | hmem
    · cases heq
    · exact hdigits part hpart hmem

/-- A value of the domain is written as a text that reads back. -/
theorem exists_text_of_domain {c : Converter} {v : Value} (hc : c = path ∨ c.IsPlain)
    (h : c.Domain v) : ∃ text, c.Renders v text := by
  rcases hc with rfl | hplain
  · cases v with
    | str s => exact ⟨_, renders_path h⟩
    | _ => exact h.elim
  · cases c with
    | string b =>
      cases v with
      | str s => exact ⟨_, renders_string h⟩
      | _ => exact h.elim
    | any items =>
      cases v with
      | str s => exact ⟨_, renders_any hplain h⟩
      | _ => exact h.elim
    | path => exact hplain.elim
    | int b =>
      cases v with
      | int n => exact renders_int h
      | _ => exact h.elim
    | float b => exact hplain.elim
    | uuid =>
      cases v with
      | uuid u => exact ⟨_, renders_uuid u⟩
      | _ => exact h.elim

end Converter

end UrlRouting
