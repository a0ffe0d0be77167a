import UrlRouting.Proofs.Converter.DigitTexts
import UrlRouting.Proofs.Decimal.ReadBack

/-
  Texts that were read, written again.
  A converter reads more texts than it writes: digits behind zeros, fewer digits than the declared
  width, identifiers in capitals. `exists_write_iff_of_read` says which values it writes at all, and
  `reads_of_write` that what it writes of a value that it has read is accepted and reads as that
  value. Where the text is another one, it holds no slash (`eq_or_ne_nil_of_write`).
-/

namespace UrlRouting

/-! ## Floats and identifiers -/

theorem FloatBounds.read_eq_ok {b : FloatBounds} {text : List Char} {v : Value}
    (h : b.read (String.ofList text) = .ok v) :
    ∃ x, v = .float x ∧ Decimal.float? text = some x ∧ b.excludes x = false := by
  unfold read at h
  rw [String.toList_ofList] at h
  split at h
  · cases h
  next x hx =>
    split at h
    · cases h
    next hin => exact ⟨x, (Except.ok.inj h).symm, hx, Bool.not_eq_true _ ▸ hin⟩

theorem Uuid.readText_eq_ok {text : String} {v : Value} (h : readText text = .ok v) :
    ∃ u, v = .uuid u := by
  unfold readText at h
  split at h
  · cases h
  next u hu => exact ⟨u, (Except.ok.inj h).symm⟩

/-! ## Which values are written -/

/-- Whether a value is no float beyond the finite ones. -/
def Value.IsFinite : Value → Prop
  | .float x => x.isFinite = true
  | _ => True

namespace Converter

theorem exists_write_float_iff {x : Float} :
    (∃ written, FloatBounds.write (.float x) = .ok written) ↔ x.isFinite = true := by
  unfold FloatBounds.write FloatBounds.number?
  rw [Option.filter_some]
  cases x.isFinite <;> simp

/-- Of what it reads, a converter writes all that is finite, and nothing else. -/
theorem exists_write_iff_of_read {c : Converter} {text : List Char} {v : Value}
    (haccepts : c.Accepts text) (h : c.read (String.ofList text) = .ok v) :
    (∃ written, c.write v = .ok written) ↔ v.IsFinite := by
  cases c with
  | float b =>
    obtain ⟨x, rfl, -⟩ := FloatBounds.read_eq_ok h
    exact exists_write_float_iff
  | int b =>
    obtain ⟨n, rfl, -⟩ := (IntBounds.read_eq_ok_iff haccepts).1 h
    refine ⟨fun _ => trivial, fun _ => ?_⟩
    show ∃ written, b.write (.int n) = .ok written
    unfold IntBounds.write
    cases b.digits <;> exact ⟨_, rfl⟩
  | uuid =>
    obtain ⟨u, rfl⟩ := Uuid.readText_eq_ok h
    exact ⟨fun _ => trivial, fun _ => ⟨_, rfl⟩⟩
  | _ =>
    obtain rfl := Except.ok.inj h
    exact ⟨fun _ => trivial, fun _ => ⟨_, rfl⟩⟩

/-! ## What is written -/

theorem int_of_write {b : IntBounds} {text written : List Char} {v : Value}
    (haccepts : (int b).Accepts text) (hread : (int b).read (String.ofList text) = .ok v)
    (hwrite : (int b).write v = .ok (String.ofList written)) :
    (int b).Accepts written ∧ (int b).read (String.ofList written) = .ok v := by
  obtain ⟨n, rfl, -⟩ := (IntBounds.read_eq_ok_iff haccepts).1 hread
  obtain ⟨digits, hdigits, hmore, hback⟩ := IntBounds.exists_text_of_read haccepts hread
  obtain rfl := String.ofList_injective (Except.ok.inj (hdigits.symm.trans hwrite))
  exact ⟨hmore, hback⟩

theorem uuid_of_write {text written : List Char} {v : Value}
    (hread : uuid.read (String.ofList text) = .ok v)
    (hwrite : uuid.write v = .ok (String.ofList written)) :
    uuid.Accepts written ∧ uuid.read (String.ofList written) = .ok v := by
  obtain ⟨u, rfl⟩ := Uuid.readText_eq_ok hread
  obtain ⟨hdigits, hback, hmore, -⟩ := renders_uuid u
  obtain rfl := String.ofList_injective (Except.ok.inj (hdigits.symm.trans hwrite))
  exact ⟨hmore, hback⟩

theorem float_of_write {b : FloatBounds} {text written : List Char} {v : Value}
    (haccepts : (float b).Accepts text) (hread : (float b).read (String.ofList text) = .ok v)
    (hwrite : (float b).write v = .ok (String.ofList written)) :
    (float b).Accepts written ∧ (float b).read (String.ofList written) = .ok v := by
  obtain ⟨x, rfl, hx, hin⟩ := FloatBounds.read_eq_ok hread
  have hfinite := exists_write_float_iff.1 ⟨_, hwrite⟩
  have hwritten : (float b).write (.float x) = .ok (Decimal.pointed x) := by
    show FloatBounds.write (.float x) = _
    unfold FloatBounds.write FloatBounds.number?
    rw [Option.filter_some, if_pos hfinite]
  have htext := Except.ok.inj (hwritten.symm.trans hwrite)
  obtain ⟨whole, part, rfl, hwhole, hpart⟩ := haccepts
  obtain ⟨whole', part', hpointed, hwhole', hpart', hback⟩ :=
    Decimal.float?_pointed hwhole hpart hx hfinite
  rw [htext, String.toList_ofList] at hpointed
  subst hpointed
  refine ⟨⟨whole', part', rfl, hwhole', hpart'⟩, ?_⟩
  show b.read _ = _
  unfold FloatBounds.read
  rw [String.toList_ofList, hback]
  simp [hin]

/-- What a converter writes of a value that it has read, it accepts and reads as that value. -/
theorem reads_of_write {c : Converter} {text written : List Char} {v : Value}
    (haccepts : c.Accepts text) (hread : c.read (String.ofList text) = .ok v)
    (hwrite : c.write v = .ok (String.ofList written)) :
    c.Accepts written ∧ c.read (String.ofList written) = .ok v := by
  cases c with
  | int b => exact int_of_write haccepts hread hwrite
  | float b => exact float_of_write haccepts hread hwrite
  | uuid => exact uuid_of_write hread hwrite
  | _ =>
    obtain rfl := Except.ok.inj hread
    obtain rfl := String.ofList_injective (Except.ok.inj hwrite)
    exact ⟨haccepts, rfl⟩

/-- Text is written as it was read. Where something else is written, the texts are of one character
at least and hold no slash. -/
theorem eq_or_ne_nil_of_write {c : Converter} {text written : List Char} {v : Value}
    (hread : c.read (String.ofList text) = .ok v)
    (hwrite : c.write v = .ok (String.ofList written)) :
    written = text ∨ ∀ other, c.Accepts other → other ≠ [] ∧ '/' ∉ other := by
  cases c with
  | int b =>
    refine .inr fun other hother => ⟨?_, not_mem_of_isPlain (c := int b) trivial hother⟩
    rintro rfl
    cases hother
  | uuid =>
    refine .inr fun other hother => ⟨?_, not_mem_of_isPlain (c := uuid) trivial hother⟩
    rintro rfl
    cases Uuid.length_of_isHyphenated hother
  | float b =>
    refine .inr fun other hother => ⟨?_, not_mem_of_float hother⟩
    rintro rfl
    obtain ⟨whole, part, hnil, -⟩ := hother
    exact List.append_ne_nil_of_right_ne_nil whole (List.cons_ne_nil '.' part) hnil.symm
  | _ =>
    obtain rfl := Except.ok.inj hread
    exact .inl (String.ofList_injective (Except.ok.inj hwrite)).symm

end Converter

end UrlRouting
