/-
  Places in a text, counted in bytes of its UTF-8 form.
  A reader that stands before `rest` in `text` stands at `offset text rest`.
-/

namespace UrlRouting.Text

/-- The number of bytes of the UTF-8 form. -/
def byteLength : List Char → Nat
  | [] => 0
  | c :: rest => c.utf8Size + byteLength rest

@[simp] theorem byteLength_append (s t : List Char) :
    byteLength (s ++ t) = byteLength s + byteLength t := by
  induction s with
  | nil => simp [byteLength]
  | cons c s ih => simp [byteLength, ih, Nat.add_assoc]

/-- The place in `text` where its last part `rest` begins. -/
def offset (text rest : List Char) : Nat := byteLength text - byteLength rest

theorem offset_append (s rest : List Char) : offset (s ++ rest) rest = byteLength s := by
  simp [offset]

end UrlRouting.Text
