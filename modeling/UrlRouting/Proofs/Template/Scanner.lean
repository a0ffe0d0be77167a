import UrlRouting.Proofs.Arguments.Scanner
import UrlRouting.Proofs.Template.Segments
import UrlRouting.Template.Scanner

/-
  Reading byte by byte is reading character by character.
  Wherever the scanner looks at a byte to decide, it stands before a character: what it takes for
  part of a name, for a quote or for a mark is ASCII, and the bytes of other characters pass through
  clauses in which nothing ends at them. So every reader of the scanner gives what the reader of characters
  gives, at the place where the rest of the text begins (`scanned`), and no cut fails (`parse_eq`).
-/

namespace UrlRouting.Template.Scanner

open Text

/-- What the scanner makes of what a reader of characters gives: faults are errors of the whole
template, and texts that are left are places. -/
def scanned {α β : Type} (whole opened : List Char) (f : α → β) : Except Fault α → Except Stop β
  | .ok a => .ok (f a)
  | .error fault => .error (.rejected (fault.toError whole opened))

/-- The place of the text that is left. -/
def placed {α : Type} (whole : List Char) (read : α × List Char) : α × Nat :=
  (read.1, offset whole read.2)

variable {whole opened rest : List Char}

theorem scanned_bind {α β γ δ : Type} {f : α → β} {g : β → Except Stop δ} {k : γ → δ}
    {x : Except Fault α} {next : α → Except Fault γ}
    (h : ∀ a, x = .ok a → g (f a) = scanned whole opened k (next a)) :
    scanned whole opened f x >>= g = scanned whole opened k (x >>= next) := by
  cases x with
  | error fault => rfl
  | ok a => exact h a rfl

/-! ## Bytes and characters -/

/-- The first byte of a character tells whether it can stand in a name. -/
theorem exists_bytes_cons (c : Char) (rest : List Char) :
    ∃ b more, bytes (c :: rest) = b :: more ∧ isNameByte b = isNameChar c ∧
      isNameStartByte b = isNameStart c ∧ (c.toNat < 128 → more = bytes rest) := by
  by_cases hc : c.toNat < 128
  · refine ⟨c.toUInt8, bytes rest, bytes_cons_of_ascii hc rest, ?_, ?_, fun _ => rfl⟩
    · rw [isNameByte, ofUInt8_toUInt8 hc]
    · rw [isNameStartByte, ofUInt8_toUInt8 hc]
  · obtain ⟨b, more, hbytes, hb⟩ := exists_utf8EncodeChar (Nat.le_of_not_lt hc)
    have hbyte : isNameChar (Char.ofUInt8 b) = false := by
      rw [← Bool.not_eq_true]
      intro hname
      have hsmall : b.toNat < 128 := toNat_lt_of_isNameChar hname
      omega
    have hchar : isNameChar c = false := by
      rw [← Bool.not_eq_true]
      exact fun hname => hc (toNat_lt_of_isNameChar hname)
    have hstart : ∀ d, isNameChar d = false → isNameStart d = false := by
      intro d hd
      rw [← Bool.not_eq_true] at hd ⊢
      exact fun hname => hd (isNameChar_of_isNameStart hname)
    refine ⟨b, more ++ bytes rest, ?_, hbyte.trans hchar.symm,
      (hstart _ hbyte).trans (hstart _ hchar).symm, fun hsmall => absurd hsmall hc⟩
    rw [bytes_cons, hbytes]
    rfl

/-! ## Places -/

theorem offset_of_suffix {front : List Char} (h : front ++ rest = whole) :
    offset whole rest = byteLength front := by
  rw [← h, offset_append]

theorem sliceFrom?_of_suffix (h : rest <:+ whole) :
    sliceFrom? whole (offset whole rest) = some rest := by
  obtain ⟨front, hfront⟩ := h
  rw [offset_of_suffix hfront, ← hfront]
  exact dropBytes?_append front rest

theorem bytesFrom_of_suffix (h : rest <:+ whole) :
    bytesFrom whole (offset whole rest) = bytes rest := by
  obtain ⟨front, hfront⟩ := h
  rw [offset_of_suffix hfront, ← hfront]
  exact drop_bytes front rest

theorem peek_of_suffix (h : rest <:+ whole) :
    peek whole (offset whole rest) = (bytes rest).head? := by
  obtain ⟨front, hfront⟩ := h
  rw [offset_of_suffix hfront, ← hfront]
  exact getElem?_bytes front rest

theorem peek_eq_iff (h : rest <:+ whole) {c : Char} (hc : c.toNat < 128) :
    peek whole (offset whole rest) = some c.toUInt8 ↔ rest.head? = some c := by
  rw [peek_of_suffix h, head?_bytes_eq_iff hc]

theorem offset_cons_of_ascii {c : Char} (hc : c.toNat < 128) (h : c :: rest <:+ whole) :
    offset whole rest = offset whole (c :: rest) + 1 := by
  obtain ⟨front, hfront⟩ := h
  have hmore : (front ++ [c]) ++ rest = whole := by rw [← hfront]; simp
  rw [offset_of_suffix hfront, offset_of_suffix hmore, byteLength_append, byteLength, byteLength,
    utf8Size_of_ascii hc]

theorem next_of_suffix {c : Char} (hc : c.toNat < 128) (h : c :: rest <:+ whole) :
    next whole (offset whole (c :: rest)) = offset whole rest := by
  unfold next
  rw [peek_of_suffix h, bytes_cons_of_ascii hc, offset_cons_of_ascii hc h]
  rfl

/-- What does not go on is a fault at the character that is met, or an end. -/
theorem unexpected_nil (opened : Nat) :
    unexpected whole opened (offset whole []) = .rejected (.unterminatedPlaceholder opened) := by
  rw [unexpected, sliceFrom?_of_suffix (List.nil_suffix)]

theorem unexpected_cons {c : Char} (h : c :: rest <:+ whole) (opened : Nat) :
    unexpected whole opened (offset whole (c :: rest)) =
      .rejected (.unexpected (offset whole (c :: rest)) c) := by
  rw [unexpected, sliceFrom?_of_suffix h]

/-! ## Readers -/

theorem consume_eq (h : rest <:+ whole) {c : Char} (hc : c.toNat < 128) :
    consume whole c.toUInt8 (offset whole opened) (offset whole rest) =
      scanned whole opened (offset whole) (mark c rest) := by
  unfold consume
  cases rest with
  | nil =>
    rw [if_neg (by rw [peek_eq_iff h hc]; nofun), unexpected_nil]
    rfl
  | cons d rest =>
    have hpeek := peek_eq_iff h hc
    rw [List.head?_cons, Option.some.injEq] at hpeek
    rw [mark]
    by_cases hd : d = c
    · rw [if_pos (hpeek.2 hd), if_pos hd, next_of_suffix (hd ▸ hc) h]
      rfl
    · rw [if_neg fun hbyte => hd (hpeek.1 hbyte), if_neg hd, unexpected_cons h]
      rfl

/-! ## Names -/

/-- Behind its first character a name goes on while its characters are those of names. -/
theorem nameEnd_of_lt {start place : Nat} (h : start < place) (rest : List Char) :
    nameEnd start place (bytes rest) = place + byteLength (rest.takeWhile isNameChar) := by
  induction rest generalizing place with
  | nil => rfl
  | cons c rest ih =>
    obtain ⟨b, more, hbytes, hbyte, -, hascii⟩ := exists_bytes_cons c rest
    rw [hbytes, nameEnd, if_neg (Nat.ne_of_gt h), hbyte]
    by_cases hc : isNameChar c = true
    · have hsmall := toNat_lt_of_isNameChar hc
      rw [if_pos hc, hascii hsmall, ih (by omega), List.takeWhile_cons_of_pos hc, byteLength,
        utf8Size_of_ascii hsmall, Nat.add_assoc]
    · rw [if_neg hc, List.takeWhile_cons_of_neg hc]
      rfl

/-- A name is what its first character and those behind it make up. -/
theorem nameEnd_start (start : Nat) (c : Char) (rest : List Char) :
    nameEnd start start (bytes (c :: rest)) =
      if isNameStart c then start + byteLength (c :: rest.takeWhile isNameChar) else start := by
  obtain ⟨b, more, hbytes, -, hbyte, hascii⟩ := exists_bytes_cons c rest
  rw [hbytes, nameEnd, if_pos rfl, hbyte]
  split
  next hc =>
    have hsmall := toNat_lt_of_isNameChar (isNameChar_of_isNameStart hc)
    rw [hascii hsmall, nameEnd_of_lt (by omega), byteLength, utf8Size_of_ascii hsmall,
      Nat.add_assoc]
  next => rfl

theorem identifier_eq (h : rest <:+ whole) :
    identifier whole (offset whole opened) (offset whole rest) =
      scanned whole opened (placed whole) (Template.identifier rest) := by
  unfold identifier
  dsimp only
  rw [bytesFrom_of_suffix h]
  cases rest with
  | nil =>
    have hnone : nameEnd (offset whole []) (offset whole []) (bytes []) = offset whole [] := rfl
    rw [hnone, if_pos rfl, unexpected_nil]
    rfl
  | cons c rest =>
    rw [nameEnd_start, Template.identifier]
    by_cases hc : isNameStart c = true
    · obtain ⟨front, hfront⟩ := h
      have hsplit :
          front ++ (c :: rest.takeWhile isNameChar ++ rest.dropWhile isNameChar) = whole := by
        rw [List.cons_append, List.takeWhile_append_dropWhile, hfront]
      have hstop : offset whole (rest.dropWhile isNameChar) =
          byteLength (front ++ c :: rest.takeWhile isNameChar) :=
        offset_of_suffix (by rw [List.append_assoc, hsplit])
      have hcut := slice?_append front (c :: rest.takeWhile isNameChar) (rest.dropWhile isNameChar)
      have hpos := byteLength_cons_pos c (rest.takeWhile isNameChar)
      rw [hsplit] at hcut
      rw [if_pos hc, if_pos hc, offset_of_suffix hfront, if_neg (by omega), ← byteLength_append,
        hcut, ← hstop]
      rfl
    · rw [if_neg hc, if_pos rfl, if_neg hc, unexpected_cons h]
      rfl

/-! ## Clauses -/

theorem byte_ne_of_le {b d : UInt8} (hb : 128 ≤ b.toNat) (hd : d.toNat < 128) : b ≠ d := by
  rintro rfl
  omega

theorem isQuoteByte_toUInt8 {c : Char} (hc : c.toNat < 128) :
    isQuoteByte c.toUInt8 = isQuote c := by
  unfold isQuoteByte isQuote
  simp only [toUInt8_inj hc (show Char.toNat '"' < 128 by decide),
    toUInt8_inj hc (show Char.toNat '\'' < 128 by decide)]

theorem toNat_lt_of_isQuote {c : Char} (h : isQuote c = true) : c.toNat < 128 := by
  rcases eq_of_isQuote h with rfl | rfl <;> decide

/-- In a clause the bytes of characters beyond ASCII are passed over. -/
theorem clauseEnd?_append {quote : Option UInt8} (hquote : ∀ q ∈ quote, q.toNat < 128)
    {front : List UInt8} (h : ∀ b ∈ front, 128 ≤ b.toNat) (place : Nat) (rest : List UInt8) :
    clauseEnd? quote place (front ++ rest) = clauseEnd? quote (place + front.length) rest := by
  induction front generalizing place with
  | nil => rfl
  | cons b front ih =>
    obtain ⟨hb, hmore⟩ := List.forall_mem_cons.1 h
    have hgoes : clauseEnd? quote place (b :: front ++ rest) =
        clauseEnd? quote (place + 1) (front ++ rest) := by
      rw [List.cons_append]
      cases quote with
      | some q =>
        rw [clauseEnd?, if_neg (byte_ne_of_le hb (hquote q rfl))]
      | none =>
        have hplain : isQuoteByte b = false := by
          unfold isQuoteByte
          rw [decide_eq_false (byte_ne_of_le hb (by decide)),
            decide_eq_false (byte_ne_of_le hb (by decide)), Bool.false_or]
        rw [clauseEnd?, hplain, if_neg Bool.false_ne_true, if_neg (byte_ne_of_le hb (by decide))]
    rw [hgoes, ih hmore, List.length_cons, Nat.add_assoc, Nat.add_comm 1]

theorem quoteAfter_of_not_ascii {quote : Option Char} {c : Char}
    (hquote : ∀ q ∈ quote, isQuote q = true) (hc : ¬ c.toNat < 128) :
    quoteAfter quote c = quote := by
  cases quote with
  | none => exact if_neg fun h => hc (toNat_lt_of_isQuote h)
  | some q =>
    refine if_neg ?_
    rintro rfl
    exact hc (toNat_lt_of_isQuote (hquote c rfl))

/-- A character that does not end the clause opens or closes a quotation, or does neither, as a
character and as bytes alike. -/
theorem clauseEnd?_cons {quote : Option Char} {c : Char} (hquote : ∀ q ∈ quote, isQuote q = true)
    (h : ¬ (quote = none ∧ c = ')')) (place : Nat) (rest : List Char) :
    clauseEnd? (quote.map Char.toUInt8) place (bytes (c :: rest)) =
      clauseEnd? ((quoteAfter quote c).map Char.toUInt8) (place + c.utf8Size) (bytes rest) := by
  by_cases hc : c.toNat < 128
  · rw [bytes_cons_of_ascii hc, utf8Size_of_ascii hc]
    cases quote with
    | some q =>
      have hq := toNat_lt_of_isQuote (hquote q rfl)
      rw [Option.map_some, clauseEnd?, quoteAfter]
      by_cases hclose : c = q
      · rw [if_pos ((toUInt8_inj hc hq).2 hclose), if_pos hclose]
        rfl
      · rw [if_neg fun hbyte => hclose ((toUInt8_inj hc hq).1 hbyte), if_neg hclose]
        rfl
    | none =>
      have hstop : c.toUInt8 ≠ Char.toUInt8 ')' := fun hbyte =>
        h ⟨rfl, (toUInt8_inj hc (by decide)).1 hbyte⟩
      rw [Option.map_none, clauseEnd?, isQuoteByte_toUInt8 hc, if_neg hstop, quoteAfter]
      split <;> rfl
  · have hbytes : ∀ q ∈ quote.map Char.toUInt8, q.toNat < 128 := by
      intro q hq
      obtain ⟨d, hd, rfl⟩ := Option.map_eq_some_iff.1 hq
      have hsmall := toNat_lt_of_isQuote (hquote d hd)
      rwa [toNat_toUInt8 hsmall]
    rw [bytes_cons, clauseEnd?_append hbytes
      (fun b hb => le_of_mem_utf8EncodeChar (Nat.le_of_not_lt hc) hb), String.length_utf8EncodeChar,
      quoteAfter_of_not_ascii hquote hc]

theorem isQuote_of_mem_quoteAfter {quote : Option Char} {c : Char}
    (hquote : ∀ q ∈ quote, isQuote q = true) : ∀ q ∈ quoteAfter quote c, isQuote q = true := by
  intro d hd
  unfold quoteAfter at hd
  split at hd
  next q =>
    split at hd
    · cases hd
    · exact hquote d hd
  · split at hd
    next hc =>
      obtain rfl := Option.some.inj hd
      exact hc
    · cases hd

/-- A clause ends at the same place for characters and bytes; by induction on the characters, the
quote that is open being one of ASCII. -/
theorem clauseEnd?_eq {quote : Option Char} (hquote : ∀ q ∈ quote, isQuote q = true) (place : Nat)
    (clause : List Char) :
    clauseEnd? (quote.map Char.toUInt8) place (bytes clause) =
      (breakOutside? ')' quote clause).map fun parts => place + byteLength parts.1 + 1 := by
  induction clause generalizing quote place with
  | nil => rfl
  | cons c rest ih =>
    rw [breakOutside?]
    by_cases hstop : quote = none ∧ c = ')'
    · obtain ⟨rfl, rfl⟩ := hstop
      rw [if_pos ⟨rfl, rfl⟩, bytes_cons_of_ascii (by decide)]
      rfl
    · rw [if_neg hstop, clauseEnd?_cons hquote hstop, ih (isQuote_of_mem_quoteAfter hquote),
        Option.map_map]
      simp only [Function.comp_def, byteLength, Nat.add_assoc]

theorem arguments_eq {clause : List Char} (h : '(' :: clause <:+ whole) :
    arguments whole (offset whole ('(' :: clause)) =
      match breakOutside? ')' none clause with
      | none => .error (.rejected (.unterminatedArguments (offset whole ('(' :: clause))))
      | some (raw, after) => .ok (.ofClause raw, offset whole after) := by
  have hclause : clause <:+ whole := (List.suffix_cons _ _).trans h
  have hnone : ∀ q ∈ (none : Option Char), isQuote q = true := nofun
  have hend := clauseEnd?_eq hnone (offset whole clause) clause
  rw [Option.map_none] at hend
  unfold arguments
  dsimp only
  rw [next_of_suffix (by decide) h, bytesFrom_of_suffix hclause, hend]
  cases hbreak : breakOutside? ')' none clause with
  | none => rfl
  | some parts =>
    obtain ⟨raw, after⟩ := parts
    obtain rfl := eq_append_of_breakOutside? hbreak
    obtain ⟨front, rfl⟩ := hclause
    have hafter : offset (front ++ (raw ++ ')' :: after)) after = byteLength (front ++ raw) + 1 := by
      rw [offset_of_suffix (show (front ++ raw ++ [')']) ++ after = _ by simp), byteLength_append]
      rfl
    have hcut := slice?_append front raw (')' :: after)
    rw [byteLength_append] at hafter hcut
    rw [offset_append]
    dsimp only [Option.map_some]
    rw [Nat.add_sub_cancel, hcut, hafter]
    show (cut (Arguments.scan? raw) >>= _) = _
    rw [Arguments.scan?_eq]
    rfl

/-! ## Placeholders -/

theorem suffix_of_identifier {name left : List Char}
    (h : Template.identifier rest = .ok (name, left)) : left <:+ rest :=
  ⟨name, (identifier_eq_ok_iff.1 h).1.symm⟩

theorem suffix_of_mark {c : Char} {left : List Char} (h : mark c rest = .ok left) :
    left <:+ rest :=
  ⟨[c], (mark_eq_ok h).symm⟩

theorem declaration_eq (h : rest <:+ whole) (first : List Char) :
    declaration whole (offset whole opened) first (offset whole rest) =
      scanned whole opened (placed whole) (Template.declaration first rest) := by
  have hopen := peek_eq_iff h (show Char.toNat '(' < 128 by decide)
  have hcolon := peek_eq_iff h (show Char.toNat ':' < 128 by decide)
  unfold Template.declaration
  split
  next clause =>
    unfold declaration
    rw [if_pos (hopen.2 rfl), arguments_eq h]
    cases hbreak : breakOutside? ')' none clause with
    | none => rfl
    | some parts =>
      obtain ⟨raw, after⟩ := parts
      obtain rfl := eq_append_of_breakOutside? hbreak
      have hafter : after <:+ whole :=
        List.IsSuffix.trans ⟨'(' :: (raw ++ [')']), by simp⟩ h
      show consume whole _ (offset whole opened) (offset whole after) >>= _ = _
      rw [consume_eq hafter (by decide)]
      refine scanned_bind fun left hleft => ?_
      rw [identifier_eq ((suffix_of_mark hleft).trans hafter)]
      exact scanned_bind fun _ _ => rfl
  next named =>
    have hother : ¬ peek whole (offset whole (':' :: named)) = some (Char.toUInt8 '(') := by
      rw [hopen]
      nofun
    unfold declaration
    rw [if_neg hother, if_pos (hcolon.2 rfl), next_of_suffix (by decide) h,
      identifier_eq ((List.suffix_cons _ _).trans h)]
    exact scanned_bind fun _ _ => rfl
  next hnoopen hnocolon =>
    have hneither : rest.head? ≠ some '(' ∧ rest.head? ≠ some ':' := by
      cases rest with
      | nil => exact ⟨nofun, nofun⟩
      | cons c more =>
        refine ⟨fun heq => ?_, fun heq => ?_⟩
        · obtain rfl := Option.some.inj heq
          exact hnoopen more rfl
        · obtain rfl := Option.some.inj heq
          exact hnocolon more rfl
    unfold declaration
    rw [if_neg fun hbyte => hneither.1 (hopen.1 hbyte),
      if_neg fun hbyte => hneither.2 (hcolon.1 hbyte)]
    rfl

/-- A name has a first byte, which is a letter where its first character is one. -/
theorem exists_initial {name : String} (h : IsConverterName name) :
    ∃ b, (bytes name.toList)[0]? = some b ∧ isLetterByte b = startsWithLetter name := by
  obtain ⟨hfirst, -⟩ := h
  unfold startsWithLetter
  cases hchars : name.toList with
  | nil =>
    rw [hchars] at hfirst
    cases hfirst
  | cons c rest =>
    rw [hchars] at hfirst
    have hc : c.toNat < 128 := toNat_lt_of_isNameChar (isNameChar_of_isNameStart hfirst)
    refine ⟨c.toUInt8, by rw [bytes_cons_of_ascii hc]; rfl, ?_⟩
    rw [isLetterByte, ofUInt8_toUInt8 hc]
    rfl

theorem placeholder_eq {inner : List Char} (h : '<' :: inner <:+ whole) :
    placeholder whole (offset whole ('<' :: inner)) =
      scanned whole ('<' :: inner) (placed whole) (Template.placeholder inner) := by
  have hinner : inner <:+ whole := (List.suffix_cons _ _).trans h
  unfold placeholder Template.placeholder
  rw [next_of_suffix (by decide) h, identifier_eq hinner]
  refine scanned_bind fun first hfirst => ?_
  obtain ⟨first, rest⟩ := first
  have hrest := (suffix_of_identifier hfirst).trans hinner
  show declaration whole _ first (offset whole rest) >>= _ = _
  rw [declaration_eq hrest]
  refine scanned_bind fun declared hdeclared => ?_
  obtain ⟨p, left⟩ := declared
  obtain ⟨-, hname, -⟩ := identifier_eq_ok_iff.1 hfirst
  obtain ⟨tag, hspelled, -, rfl, rfl⟩ := exists_spelled_of_declaration hname hdeclared
  have hleft : left <:+ whole := (List.suffix_append _ _).trans hrest
  show consume whole _ _ (offset whole left) >>= _ = _
  rw [consume_eq hleft (by decide)]
  refine scanned_bind fun behind _ => ?_
  have hvariable : IsConverterName tag.placeholder.name := by
    rw [Tag.name_placeholder]
    exact hspelled.name
  obtain ⟨b, hb, hletter⟩ := exists_initial hvariable
  show cut (bytes tag.placeholder.name.toList)[0]? >>= _ = _
  rw [hb]
  show (if isLetterByte b then _ else _) = _
  rw [hletter]
  split <;> rfl

/-! ## Templates -/

/-- A byte of ASCII is one of a text where it is a character of the text. -/
theorem mem_bytes_iff {c : Char} (hc : c.toNat < 128) (text : List Char) :
    c.toUInt8 ∈ bytes text ↔ c ∈ text := by
  unfold bytes
  rw [List.mem_flatMap]
  constructor
  · rintro ⟨d, hd, hbyte⟩
    by_cases hsmall : d.toNat < 128
    · rw [String.utf8EncodeChar_eq_singleton (utf8Size_of_ascii hsmall)] at hbyte
      obtain rfl := (toUInt8_inj hc hsmall).1 (List.mem_singleton.1 hbyte)
      exact hd
    · have hle := le_of_mem_utf8EncodeChar (Nat.le_of_not_lt hsmall) hbyte
      rw [toNat_toUInt8 hc] at hle
      omega
  · intro hmem
    refine ⟨c, hmem, ?_⟩
    rw [String.utf8EncodeChar_eq_singleton (utf8Size_of_ascii hc)]
    exact List.mem_singleton_self _

theorem idxOf?_bytes {c : Char} (hc : c.toNat < 128) {front : List Char} (h : c ∉ front)
    (rest : List Char) :
    (bytes (front ++ c :: rest)).idxOf? c.toUInt8 = some (byteLength front) := by
  have hnone : (bytes front).findIdx? (· == c.toUInt8) = none :=
    List.idxOf?_eq_none_iff.2 fun hmem => h ((mem_bytes_iff hc front).1 hmem)
  rw [bytes_append, bytes_cons_of_ascii hc]
  show List.findIdx? (· == c.toUInt8) _ = _
  rw [List.findIdx?_append, hnone, List.findIdx?_cons, ← length_bytes]
  simp

theorem bytesFrom?_of_suffix (h : rest <:+ whole) :
    bytesFrom? whole (offset whole rest) = some (bytes rest) := by
  unfold bytesFrom?
  rw [if_pos, bytesFrom_of_suffix h]
  rw [length_bytes]
  exact Nat.sub_le _ _

theorem segments_last {seen : List String} (h : rest <:+ whole) (hlit : '<' ∉ rest) :
    segments whole seen (offset whole rest) = .ok [.literal (String.ofList rest)] := by
  have hnone : (bytes rest).idxOf? (Char.toUInt8 '<') = none :=
    List.idxOf?_eq_none_iff.2 fun hmem => hlit ((mem_bytes_iff (by decide) rest).1 hmem)
  rw [segments]
  split
  next hbytes => rw [bytesFrom?_of_suffix h] at hbytes; cases hbytes
  next found hbytes =>
    rw [bytesFrom?_of_suffix h] at hbytes
    obtain rfl := Option.some.inj hbytes
    split
    next => rw [sliceFrom?_of_suffix h]; rfl
    next count hcount => rw [hnone] at hcount; cases hcount

theorem segments_more {seen : List String} {literal inner : List Char}
    (h : literal ++ '<' :: inner <:+ whole) (hlit : '<' ∉ literal) :
    segments whole seen (offset whole (literal ++ '<' :: inner)) =
      match placeholder whole (offset whole ('<' :: inner)) with
      | .error stop => .error stop
      | .ok (p, left) =>
        if p.name ∈ seen then .error (.rejected (.duplicateVariable p.name))
        else (segments whole (p.name :: seen) left).map fun more =>
          .literal (String.ofList literal) :: .placeholder p :: more := by
  obtain ⟨front, hfront⟩ := id h
  have hopened : offset whole ('<' :: inner) =
      offset whole (literal ++ '<' :: inner) + byteLength literal := by
    rw [offset_of_suffix hfront, ← byteLength_append]
    exact offset_of_suffix (by rw [List.append_assoc, hfront])
  have hcut : slice? whole (offset whole (literal ++ '<' :: inner))
      (offset whole (literal ++ '<' :: inner) + byteLength literal) = some literal := by
    rw [offset_of_suffix hfront, ← byteLength_append, ← hfront]
    exact slice?_append front literal ('<' :: inner)
  rw [segments]
  split
  next hbytes => rw [bytesFrom?_of_suffix h] at hbytes; cases hbytes
  next found hbytes =>
    rw [bytesFrom?_of_suffix h] at hbytes
    obtain rfl := Option.some.inj hbytes
    split
    next hcount => rw [idxOf?_bytes (by decide) hlit] at hcount; cases hcount
    next count hcount =>
      rw [idxOf?_bytes (by decide) hlit] at hcount
      obtain rfl := Option.some.inj hcount
      rw [hcut, hopened]
      dsimp only [cut]
      split
      next stop hstop => rw [hstop]
      next p left hp => rw [hp]

theorem segments_eq {seen : List String} (h : rest <:+ whole) :
    segments whole seen (offset whole rest) =
      (Template.segments whole seen rest).mapError .rejected := by
  induction hn : rest.length using Nat.strongRecOn generalizing seen rest with
  | ind n ih =>
    by_cases hmem : '<' ∈ rest
    · obtain ⟨literal, inner, rfl, hlit⟩ := List.eq_append_cons_of_mem hmem
      have hopened : '<' :: inner <:+ whole := (List.suffix_append _ _).trans h
      rw [segments_more h hlit, placeholder_eq hopened, segments_append_cons hlit]
      cases hp : Template.placeholder inner with
      | error fault => rfl
      | ok read =>
        obtain ⟨p, left⟩ := read
        obtain ⟨⟨before, hinner⟩, -⟩ := placeholder_eq_ok hp
        have hleft : left <:+ whole := by
          refine List.IsSuffix.trans ⟨'<' :: (before ++ ['>']), ?_⟩ hopened
          rw [hinner]
          simp
        have hshort : left.length < n := by
          have hless := length_of_placeholder hp
          rw [← hn, List.length_append, List.length_cons]
          omega
        show (if p.name ∈ seen then _ else (segments whole _ (offset whole left)).map _) = _
        rw [ih left.length hshort hleft rfl]
        by_cases hseen : p.name ∈ seen
        · rw [if_pos hseen]
          show _ = Except.mapError _ (if p.name ∈ seen then _ else _)
          rw [if_pos hseen]
          rfl
        · rw [if_neg hseen]
          show _ = Except.mapError _ (if p.name ∈ seen then _ else _)
          rw [if_neg hseen]
          cases Template.segments whole (p.name :: seen) left <;> rfl
    · rw [segments_last h hmem, segments_of_split (.last hmem)]
      rfl

/-- Reading byte by byte accepts the templates that reading by characters accepts, with the same
segments, and rejects the others with the same errors; it never cuts at a bad place. -/
theorem parse_eq (template : String) :
    parse template.toList = (Template.parse template).mapError .rejected := by
  have hslash : (bytes template.toList).head? = some (Char.toUInt8 '/') ↔
      template.toList.head? = some '/' :=
    head?_bytes_eq_iff (show Char.toNat '/' < 128 by decide) _
  have hstart : offset template.toList template.toList = 0 := Nat.sub_self _
  unfold parse Template.parse
  dsimp only
  by_cases h : template.toList.head? = some '/'
  · rw [if_pos (hslash.2 h), if_pos h, ← hstart]
    exact segments_eq List.suffix_rfl
  · rw [if_neg fun hbyte => h (hslash.1 hbyte), if_neg h]
    rfl

end UrlRouting.Template.Scanner
