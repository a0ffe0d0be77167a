import UrlRouting.Converter.Catalogue
import UrlRouting.Template.Parser

/-
  What every declared converter has: bounds that are not crossed, and an item.
  Each of the six declarations refuses anything else, so that no template gets a converter from
  the standard catalogue that is not proper, nor from a catalogue to which proper declarations are
  added.
-/

namespace UrlRouting

/-- Whether the bounds are counts of 32 bits and not crossed. -/
structure LengthBounds.IsProper (b : LengthBounds) : Prop where
  uncrossed : ∀ max, b.max = some max → b.min ≤ max
  min_lt : b.min < 0x100000000
  max_lt : ∀ max, b.max = some max → max < 0x100000000
  exact_lt : ∀ exact, b.exact = some exact → exact < 0x100000000

/-- Whether the converter is one that arguments can declare. -/
def Converter.IsProper : Converter → Prop
  | string b => b.IsProper
  | any items => items ≠ []
  | _ => True

/-- Whether every converter that the declaration makes is proper. -/
def Declaration.IsProper (declare : Declaration) : Prop :=
  ∀ args c, declare args = .ok c → c.IsProper

def Catalogue.IsProper (catalogue : Catalogue) : Prop :=
  ∀ name declare, catalogue.get? name = some declare → Declaration.IsProper declare

/-! ## The six declarations -/

namespace Converter

theorem lt_of_countArgument {kind : Kind} {given : List (String × Argument)} {name : String}
    {count : Option Nat} (h : countArgument kind given name = .ok count) :
    ∀ n, count = some n → n < 0x100000000 := by
  obtain ⟨found, -, h⟩ := Template.exists_of_bind_eq_ok h
  cases found with
  | none =>
    obtain rfl := Except.ok.inj h
    intro n hn
    cases hn
  | some m =>
    simp only at h
    split at h
    next hrange =>
      obtain rfl := Except.ok.inj h
      intro n hn
      obtain rfl := Option.some.inj hn
      omega
    · cases h

theorem ofLengths_eq_ok_iff {b : LengthBounds} {c : Converter} :
    ofLengths b = .ok c ↔ c = .string b ∧ ∀ max, b.max = some max → b.min ≤ max := by
  unfold ofLengths
  cases hmax : b.max with
  | none => simp [eq_comm]
  | some max =>
    by_cases hle : max < b.min
    · simp [hle]
    · simp [hle, Nat.le_of_not_lt hle, eq_comm]

theorem isProper_of_ofItems {items : List String} {c : Converter} (h : ofItems items = .ok c) :
    c.IsProper := by
  unfold ofItems at h
  split at h
  · cases h
  next hitems =>
    obtain rfl := Except.ok.inj h
    rintro rfl
    exact hitems rfl

theorem isProper_declareString : Declaration.IsProper declareString := by
  intro args c h
  obtain ⟨given, -, h⟩ := Template.exists_of_bind_eq_ok h
  obtain ⟨min, hmin, h⟩ := Template.exists_of_bind_eq_ok h
  obtain ⟨max, hmax, h⟩ := Template.exists_of_bind_eq_ok h
  obtain ⟨exact, hexact, h⟩ := Template.exists_of_bind_eq_ok h
  obtain ⟨rfl, huncrossed⟩ := ofLengths_eq_ok_iff.1 h
  refine ⟨huncrossed, ?_, lt_of_countArgument hmax, lt_of_countArgument hexact⟩
  cases min with
  | none => show 1 < 0x100000000; decide
  | some n => exact lt_of_countArgument hmin n rfl

theorem isProper_declareAny : Declaration.IsProper declareAny := by
  intro args c h
  unfold declareAny at h
  split at h
  · cases h
  · exact isProper_of_ofItems h

theorem isProper_declareInt : Declaration.IsProper declareInt := by
  intro args c h
  obtain ⟨given, -, h⟩ := Template.exists_of_bind_eq_ok h
  obtain ⟨digits, -, h⟩ := Template.exists_of_bind_eq_ok h
  split at h
  · cases h
  obtain ⟨min, -, h⟩ := Template.exists_of_bind_eq_ok h
  obtain ⟨max, -, h⟩ := Template.exists_of_bind_eq_ok h
  split at h
  · split at h
    · cases h
    · obtain rfl := Except.ok.inj h
      trivial
  · obtain rfl := Except.ok.inj h
    trivial

theorem isProper_declareFloat : Declaration.IsProper declareFloat := by
  intro args c h
  obtain ⟨given, -, h⟩ := Template.exists_of_bind_eq_ok h
  obtain ⟨min, -, h⟩ := Template.exists_of_bind_eq_ok h
  obtain ⟨max, -, h⟩ := Template.exists_of_bind_eq_ok h
  split at h
  · split at h
    · cases h
    · obtain rfl := Except.ok.inj h
      trivial
  · obtain rfl := Except.ok.inj h
    trivial

theorem isProper_declarePath : Declaration.IsProper declarePath := by
  intro args c h
  obtain ⟨given, -, h⟩ := Template.exists_of_bind_eq_ok h
  obtain rfl := Except.ok.inj h
  trivial

theorem isProper_declareUuid : Declaration.IsProper declareUuid := by
  intro args c h
  obtain ⟨given, -, h⟩ := Template.exists_of_bind_eq_ok h
  obtain rfl := Except.ok.inj h
  trivial

end Converter

/-! ## Catalogues -/

namespace Catalogue

theorem isProper_empty : IsProper .empty := by
  intro name declare hget
  cases hget

theorem isProper_insert {catalogue : Catalogue} (h : catalogue.IsProper) (name : String)
    {declare : Declaration} (hdeclare : Declaration.IsProper declare) :
    IsProper (catalogue.insert name declare) := by
  intro other declare' hget
  rw [NameMap.get?_insert] at hget
  split at hget
  · obtain rfl := Option.some.inj hget
    exact hdeclare
  · exact h other declare' hget

theorem isProper_standard : standard.IsProper := by
  have hany := isProper_insert isProper_empty "any" Converter.isProper_declareAny
  have hdefault := isProper_insert hany defaultName Converter.isProper_declareString
  have hfloat := isProper_insert hdefault "float" Converter.isProper_declareFloat
  have hint := isProper_insert hfloat "int" Converter.isProper_declareInt
  have hpath := isProper_insert hint "path" Converter.isProper_declarePath
  have hstring := isProper_insert hpath "string" Converter.isProper_declareString
  exact isProper_insert hstring "uuid" Converter.isProper_declareUuid

end Catalogue

end UrlRouting
