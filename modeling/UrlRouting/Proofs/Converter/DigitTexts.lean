import UrlRouting.Proofs.Converter.RoundTrip

/-
  Whole numbers from texts of digits.
  Such a text is read as its value, however many zeros it begins with, or it is refused as too long
  or as out of range, and never as malformed (`read_of_isDigits`). Of the texts that are read as one
  number the one that is written for it is the canonical form: reading and writing lead to it, and
  leave it as it is.
-/

namespace UrlRouting.IntBounds

open Decimal (isDigits value)

variable {b : IntBounds} {text : List Char}

/-- Whether the declared width, if there is one, leaves room for so many digits. -/
def HasRoomFor (b : IntBounds) (length : Nat) : Prop :=
  ∀ width, b.digits = some width → length ≤ width

/-- Whether a number is within the bounds. -/
def Includes (b : IntBounds) (n : Int) : Prop :=
  (∀ min, b.min = some min → min.toInt ≤ n) ∧ ∀ max, b.max = some max → n ≤ max.toInt

/-- What is written of the number that a text is read as. -/
def rewrite (b : IntBounds) (text : String) : Except ConversionError String :=
  (b.read text).bind b.write

theorem includes_toInt_iff {n : Int64} : b.Includes n.toInt ↔ b.excludes n = false := by
  rw [excludes_eq_false_iff]
  simp only [Includes, Int64.le_iff_toInt_le]

/-! ## Reading -/

theorem isTooLong_eq_false_iff (hdigits : isDigits text = true) :
    b.isTooLong (String.ofList text) = false ↔ b.HasRoomFor text.length := by
  unfold isTooLong HasRoomFor
  rw [String.toList_ofList, Decimal.byteLength_of_isDigits (Decimal.isDigits_iff.1 hdigits).2]
  cases b.digits <;> simp

/-- What a text of digits is read as: its value, within the bounds and not too wide. -/
theorem read_eq_ok_iff (hdigits : isDigits text = true) {v : Value} :
    b.read (String.ofList text) = .ok v ↔
      ∃ n, v = .int n ∧ n.toInt = value text ∧ b.excludes n = false ∧
        b.HasRoomFor text.length := by
  unfold read
  rw [← isTooLong_eq_false_iff hdigits, String.toList_ofList, Decimal.int64?_of_isDigits hdigits]
  cases b.isTooLong (String.ofList text)
  case true => simp
  simp only [← Decimal.toInt64?_eq_some_iff, if_pos hdigits]
  cases Decimal.toInt64? (value text) with
  | none => simp
  | some n =>
    cases hin : b.excludes n with
    | true => simp [hin]
    | false => simpa [hin] using eq_comm

theorem read_of_tooLong (hdigits : isDigits text = true) {width : Nat}
    (hwidth : b.digits = some width) (hlong : width < text.length) :
    b.read (String.ofList text) = .error (.tooManyDigits (String.ofList text) width) := by
  have htoo : b.isTooLong (String.ofList text) = true := by
    rw [← Bool.not_eq_false, isTooLong_eq_false_iff hdigits]
    intro hroom
    exact Nat.not_le_of_lt hlong (hroom width hwidth)
  unfold read
  rw [if_pos htoo, hwidth]
  rfl

/-- With enough room only the range is left to be missed. -/
theorem read_of_outOfRange (hdigits : isDigits text = true) (hroom : b.HasRoomFor text.length)
    (hout : ∀ n : Int64, n.toInt = value text → b.excludes n = true) :
    b.read (String.ofList text) = .error (.outOfRange (String.ofList text)) := by
  have htoo := (isTooLong_eq_false_iff hdigits).2 hroom
  unfold read
  rw [htoo, String.toList_ofList, Decimal.int64?_of_isDigits hdigits, if_pos hdigits]
  cases hn : Decimal.toInt64? (value text) with
  | none => rfl
  | some n => simp [hout n (Decimal.toInt64?_eq_some_iff.1 hn)]

/-! ## Writing -/

/-- What is written of a number that was read is again a text of digits that is read as it. -/
theorem exists_text_of_read (hdigits : isDigits text = true) {n : Int64}
    (h : b.read (String.ofList text) = .ok (.int n)) :
    ∃ written, b.write (.int n) = .ok (String.ofList written) ∧ isDigits written = true ∧
      b.read (String.ofList written) = .ok (.int n) := by
  obtain ⟨_, hn, hvalue, hin, hroom⟩ := (read_eq_ok_iff hdigits).1 h
  obtain rfl := Value.int.inj hn
  have hpos : 0 ≤ n.toInt := hvalue ▸ Int.natCast_nonneg _
  obtain ⟨written, hwrite, hread, haccepts, -⟩ :=
    Converter.renders_int_of_within hpos hin fun width hd => by
      rw [hvalue]
      exact Nat.le_trans (Decimal.length_digits_value_le hdigits) (hroom width hd)
  exact ⟨written, hwrite, haccepts, hread⟩

theorem rewrite_eq_ok_iff {text written : String} :
    b.rewrite text = .ok written ↔ ∃ v, b.read text = .ok v ∧ b.write v = .ok written := by
  unfold rewrite
  cases b.read text with
  | error e => exact ⟨fun h => (nomatch h), fun ⟨_, h, _⟩ => (nomatch h)⟩
  | ok v => simp [Except.bind]

/-- What is written of a number is rewritten from the texts of digits that are read as it. -/
theorem rewrite_eq_written_iff {written : String} {n : Int64}
    (hwrite : b.write (.int n) = .ok written) (hback : b.read written = .ok (.int n))
    (hdigits : isDigits text = true) :
    b.rewrite (String.ofList text) = .ok written ↔
      b.read (String.ofList text) = .ok (.int n) := by
  rw [rewrite_eq_ok_iff]
  constructor
  · rintro ⟨v, hread, hv⟩
    obtain ⟨m, rfl, -⟩ := (read_eq_ok_iff hdigits).1 hread
    obtain ⟨other, hother, -, hagain⟩ := exists_text_of_read hdigits hread
    obtain rfl := Except.ok.inj (hother.symm.trans hv)
    rw [hread, ← hagain, hback]
  · intro hread
    exact ⟨_, hread, hwrite⟩

/-- What becomes of a text of digits. -/
structure ReadsDigits (b : IntBounds) (text : String) : Prop where
  /-- It is read where it is not longer than the declared width and its value is within 64 bits and
  the bounds. -/
  read_iff : (∃ n : Int64, n.toInt = value text.toList ∧ b.read text = .ok (.int n)) ↔
    b.HasRoomFor text.toList.length ∧ value text.toList ≤ 2 ^ 63 - 1 ∧
      b.Includes (value text.toList)
  value_eq : ∀ v, b.read text = .ok v → ∃ n : Int64, v = .int n ∧ n.toInt = value text.toList
  tooLong : ∀ width, b.digits = some width → width < text.toList.length →
    b.read text = .error (.tooManyDigits text width)
  /-- Whatever else it misses is the range, and it is never malformed. -/
  outOfRange : b.HasRoomFor text.toList.length →
    ¬ (value text.toList ≤ 2 ^ 63 - 1 ∧ b.Includes (value text.toList)) →
      b.read text = .error (.outOfRange text)
  /-- A number that was read is written as digits that are read as it, and all digits that are read
  as it are rewritten to these, and no others. The widths are those in which numbers are written. -/
  canonical : ∀ n, b.read text = .ok (.int n) →
    (∀ width, b.digits = some width → width ≤ maxWidth) →
    ∃ written, b.write (.int n) = .ok written ∧ isDigits written.toList = true ∧
      b.read written = .ok (.int n) ∧
      ∀ other : String, isDigits other.toList = true →
        (b.rewrite other = .ok written ↔ b.read other = .ok (.int n))

/-- A text of digits is read as its value, or refused as too long where it is and as out of range
where it is not. What is written of a number that was read is the canonical form of the texts of
digits that are read as it. -/
theorem read_of_isDigits (b : IntBounds) {text : String} (h : isDigits text.toList = true) :
    b.ReadsDigits text := by
  rw [← String.ofList_toList (s := text)]
  generalize text.toList = ds at h ⊢
  refine {
    read_iff := ?read_iff
    value_eq := ?value_eq
    tooLong := ?tooLong
    outOfRange := ?outOfRange
    canonical := ?canonical }
  case read_iff =>
    rw [String.toList_ofList, ← Decimal.exists_toInt_eq_natCast_iff]
    simp only [read_eq_ok_iff h, Value.int.injEq, exists_eq_left']
    constructor
    · rintro ⟨n, hn, -, hin, hroom⟩
      exact ⟨hroom, ⟨n, hn⟩, hn ▸ includes_toInt_iff.2 hin⟩
    · rintro ⟨hroom, ⟨n, hn⟩, hin⟩
      exact ⟨n, hn, hn, includes_toInt_iff.1 (hn ▸ hin), hroom⟩
  case value_eq =>
    rw [String.toList_ofList]
    intro v hread
    obtain ⟨n, hv, hn, -⟩ := (read_eq_ok_iff h).1 hread
    exact ⟨n, hv, hn⟩
  case tooLong =>
    rw [String.toList_ofList]
    intro width hwidth hlong
    exact read_of_tooLong h hwidth hlong
  case outOfRange =>
    rw [String.toList_ofList]
    intro hroom hrange
    refine read_of_outOfRange h hroom fun n hn => ?_
    rw [← Bool.not_eq_false, ← includes_toInt_iff, hn]
    exact fun hin => hrange ⟨Decimal.exists_toInt_eq_natCast_iff.1 ⟨n, hn⟩, hin⟩
  case canonical =>
    intro n hread _
    obtain ⟨written, hwrite, hdigits, hback⟩ := exists_text_of_read h hread
    refine ⟨_, hwrite, by rwa [String.toList_ofList], hback, fun other hother => ?_⟩
    have hiff := rewrite_eq_written_iff hwrite hback hother
    rwa [String.ofList_toList] at hiff

theorem read_of_isDigits_padded :
    isDigits "0042".toList = true ∧
      ({ digits := some 5, min := some 42 } : IntBounds).read "0042" = .ok (.int 42) ∧
      ({ digits := some 5, min := some 42 } : IntBounds).rewrite "0042" = .ok "00042" := by
  have hdigits : isDigits "0042".toList = true := by decide
  have hread : ({ digits := some 5, min := some 42 } : IntBounds).read "0042" = .ok (.int 42) := by
    decide +kernel
  have hwrite : ({ digits := some 5, min := some 42 } : IntBounds).write (.int 42) =
      .ok "00042" := by
    decide +kernel
  have hreads := read_of_isDigits { digits := some 5, min := some 42 } hdigits
  obtain ⟨written, hwritten, -, -, hrewrite⟩ := hreads.canonical 42 hread fun width hw =>
    Option.some.inj hw ▸ by decide
  obtain rfl := Except.ok.inj (hwritten.symm.trans hwrite)
  exact ⟨hdigits, hread, (hrewrite "0042" hdigits).2 hread⟩

end UrlRouting.IntBounds
