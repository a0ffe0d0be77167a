import Mathlib.Data.List.Basic
import UrlRouting.Proofs.Text.Ascii
import UrlRouting.Text.Slice

/-
  What cuts succeed, and what a byte tells of its character.
  A cut succeeds just where the text is what is cut off followed by the rest, with as many bytes
  (`slice?_eq_some_iff`). A byte below 128 is a character by itself, and all bytes of the characters
  beyond are above; so a scan that looks for ASCII only finds it where characters begin.
-/

namespace UrlRouting.Text

/-! ## Bytes -/

theorem bytes_cons (c : Char) (rest : List Char) :
    bytes (c :: rest) = String.utf8EncodeChar c ++ bytes rest := List.flatMap_cons

theorem bytes_append (front rest : List Char) : bytes (front ++ rest) = bytes front ++ bytes rest :=
  List.flatMap_append

theorem length_bytes (text : List Char) : (bytes text).length = byteLength text := by
  induction text with
  | nil => rfl
  | cons c text ih =>
    rw [bytes_cons, List.length_append, String.length_utf8EncodeChar, ih, byteLength]

theorem drop_bytes (front rest : List Char) :
    (bytes (front ++ rest)).drop (byteLength front) = bytes rest := by
  rw [bytes_append, ← length_bytes, List.drop_left]

theorem getElem?_bytes (front rest : List Char) :
    (bytes (front ++ rest))[byteLength front]? = (bytes rest).head? := by
  rw [← List.head?_drop, drop_bytes]

/-! ## Characters of one byte -/

section

variable {c d : Char}

theorem utf8Size_of_ascii (h : c.toNat < 128) : c.utf8Size = 1 :=
  Char.utf8Size_eq_one_iff.2 (Nat.le_of_lt_succ h)

theorem bytes_cons_of_ascii (h : c.toNat < 128) (rest : List Char) :
    bytes (c :: rest) = c.toUInt8 :: bytes rest := by
  rw [bytes_cons, String.utf8EncodeChar_eq_singleton (utf8Size_of_ascii h)]
  rfl

theorem toNat_toUInt8 (h : c.toNat < 128) : c.toUInt8.toNat = c.toNat := by
  show c.val.toNat % 2 ^ 8 = c.toNat
  exact Nat.mod_eq_of_lt (Nat.lt_trans h (by decide))

theorem ofUInt8_toUInt8 (h : c.toNat < 128) : Char.ofUInt8 c.toUInt8 = c := by
  apply Char.toNat_inj.1
  show c.toUInt8.toNat = c.toNat
  exact toNat_toUInt8 h

theorem toUInt8_inj (hc : c.toNat < 128) (hd : d.toNat < 128) : c.toUInt8 = d.toUInt8 ↔ c = d := by
  refine ⟨fun h => ?_, fun h => congrArg _ h⟩
  rw [← ofUInt8_toUInt8 hc, h, ofUInt8_toUInt8 hd]

/-- No byte of another character is one of ASCII. -/
theorem le_of_mem_utf8EncodeChar (h : 128 ≤ c.toNat) {b : UInt8}
    (hb : b ∈ String.utf8EncodeChar c) : 128 ≤ b.toNat := by
  have hmore : ¬ c.val.toNat ≤ 127 := Nat.not_le.2 h
  unfold String.utf8EncodeChar at hb
  simp only [if_neg hmore] at hb
  -- every byte is a part of the code behind the mark of its place in the character
  split at hb
  · simp only [List.mem_cons, List.not_mem_nil, or_false] at hb
    rcases hb with rfl | rfl <;> rw [UInt8.toNat_ofNat'] <;> omega
  · split at hb
    · simp only [List.mem_cons, List.not_mem_nil, or_false] at hb
      rcases hb with rfl | rfl | rfl <;> rw [UInt8.toNat_ofNat'] <;> omega
    · simp only [List.mem_cons, List.not_mem_nil, or_false] at hb
      rcases hb with rfl | rfl | rfl | rfl <;> rw [UInt8.toNat_ofNat'] <;> omega

theorem exists_utf8EncodeChar (h : 128 ≤ c.toNat) :
    ∃ b more, String.utf8EncodeChar c = b :: more ∧ 128 ≤ b.toNat := by
  cases hbytes : String.utf8EncodeChar c with
  | nil =>
    have hlength := String.length_utf8EncodeChar c
    rw [hbytes] at hlength
    exact absurd hlength (Nat.ne_of_lt c.utf8Size_pos)
  | cons b more =>
    refine ⟨b, more, rfl, le_of_mem_utf8EncodeChar h ?_⟩
    rw [hbytes]
    exact List.mem_cons_self

/-- A byte of ASCII at the start of a text is its first character. -/
theorem head?_bytes_eq_iff (hd : d.toNat < 128) (text : List Char) :
    (bytes text).head? = some d.toUInt8 ↔ text.head? = some d := by
  cases text with
  | nil => exact ⟨nofun, nofun⟩
  | cons c rest =>
    by_cases hc : c.toNat < 128
    · rw [bytes_cons_of_ascii hc, List.head?_cons, List.head?_cons, Option.some.injEq,
        Option.some.injEq, toUInt8_inj hc hd]
    · obtain ⟨b, more, hbytes, hb⟩ := exists_utf8EncodeChar (Nat.le_of_not_lt hc)
      rw [bytes_cons, hbytes, List.cons_append, List.head?_cons, List.head?_cons,
        Option.some.injEq, Option.some.injEq]
      constructor
      · rintro rfl
        rw [toNat_toUInt8 hd] at hb
        omega
      · rintro rfl
        exact absurd hd hc

end

/-! ## Cuts -/

section

variable {text front middle rest : List Char} {n start stop : Nat}

theorem dropBytes?_cons {c : Char} (h : 0 < n) : dropBytes? (c :: text) n =
    if c.utf8Size ≤ n then dropBytes? text (n - c.utf8Size) else none := by
  obtain ⟨m, rfl⟩ := Nat.exists_eq_succ_of_ne_zero (Nat.ne_of_gt h)
  rfl

theorem takeBytes?_cons {c : Char} (h : 0 < n) : takeBytes? (c :: text) n =
    if c.utf8Size ≤ n then (takeBytes? text (n - c.utf8Size)).map (c :: ·) else none := by
  obtain ⟨m, rfl⟩ := Nat.exists_eq_succ_of_ne_zero (Nat.ne_of_gt h)
  rfl

theorem byteLength_cons_pos (c : Char) (text : List Char) : 0 < byteLength (c :: text) :=
  Nat.add_pos_left c.utf8Size_pos _

theorem dropBytes?_append (front rest : List Char) :
    dropBytes? (front ++ rest) (byteLength front) = some rest := by
  induction front with
  | nil => cases rest <;> rfl
  | cons c front ih =>
    rw [List.cons_append, dropBytes?_cons (byteLength_cons_pos c front), byteLength,
      if_pos (Nat.le_add_right _ _), Nat.add_sub_cancel_left, ih]

theorem append_of_dropBytes? (h : dropBytes? text n = some rest) :
    ∃ front, text = front ++ rest ∧ byteLength front = n := by
  induction text generalizing n with
  | nil =>
    cases n with
    | zero =>
      obtain rfl := Option.some.inj h
      exact ⟨[], rfl, rfl⟩
    | succ n => cases h
  | cons c text ih =>
    rcases Nat.eq_zero_or_pos n with rfl | hpos
    · obtain rfl := Option.some.inj h
      exact ⟨[], rfl, rfl⟩
    · rw [dropBytes?_cons hpos] at h
      split at h
      next hle =>
        obtain ⟨front, rfl, hlength⟩ := ih h
        exact ⟨c :: front, rfl, by rw [byteLength, hlength, Nat.add_sub_cancel' hle]⟩
      · cases h

theorem takeBytes?_append (front rest : List Char) :
    takeBytes? (front ++ rest) (byteLength front) = some front := by
  induction front with
  | nil => cases rest <;> rfl
  | cons c front ih =>
    rw [List.cons_append, takeBytes?_cons (byteLength_cons_pos c front), byteLength,
      if_pos (Nat.le_add_right _ _), Nat.add_sub_cancel_left, ih]
    rfl

theorem append_of_takeBytes? (h : takeBytes? text n = some front) :
    ∃ rest, text = front ++ rest ∧ byteLength front = n := by
  induction text generalizing n front with
  | nil =>
    cases n with
    | zero =>
      obtain rfl := Option.some.inj h
      exact ⟨[], rfl, rfl⟩
    | succ n => cases h
  | cons c text ih =>
    rcases Nat.eq_zero_or_pos n with rfl | hpos
    · obtain rfl := Option.some.inj h
      exact ⟨c :: text, rfl, rfl⟩
    · rw [takeBytes?_cons hpos] at h
      split at h
      next hle =>
        obtain ⟨more, hmore, rfl⟩ := Option.map_eq_some_iff.1 h
        obtain ⟨rest, rfl, hlength⟩ := ih hmore
        exact ⟨rest, rfl, by rw [byteLength, hlength, Nat.add_sub_cancel' hle]⟩
      · cases h

theorem slice?_append (front middle rest : List Char) :
    slice? (front ++ (middle ++ rest)) (byteLength front) (byteLength (front ++ middle)) =
      some middle := by
  rw [slice?, byteLength_append, if_pos (Nat.le_add_right _ _), dropBytes?_append, Option.bind_some,
    Nat.add_sub_cancel_left, takeBytes?_append]

/-- A text is cut between two places where it is a front, the part that is cut out and a rest, with
as many bytes as the places say. -/
theorem slice?_eq_some_iff :
    slice? text start stop = some middle ↔
      ∃ front rest, text = front ++ (middle ++ rest) ∧ byteLength front = start ∧
        byteLength (front ++ middle) = stop := by
  constructor
  · intro h
    unfold slice? at h
    split at h
    next hle =>
      obtain ⟨behind, hdrop, htake⟩ := Option.bind_eq_some_iff.1 h
      obtain ⟨front, rfl, hstart⟩ := append_of_dropBytes? hdrop
      obtain ⟨rest, rfl, hlength⟩ := append_of_takeBytes? htake
      refine ⟨front, rest, rfl, hstart, ?_⟩
      rw [byteLength_append, hstart, hlength, Nat.add_sub_cancel' hle]
    · cases h
  · rintro ⟨front, rest, rfl, rfl, rfl⟩
    exact slice?_append front middle rest

end

end UrlRouting.Text
