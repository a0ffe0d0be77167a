import UrlRouting.Proofs.Pattern.Segmented

/-
  Dividing a text in which the texts of some variables are replaced.
  Where all divisions of the new text cut a replaced variable off alike (`CutOnce`), each of them
  comes from a division of the old text, in which the variable has its old text again
  (`Rewrites.comesFrom`). So the first division of the old text, with the texts replaced, is
  the first of the new text (`firstSplit_rewrite`).
  Whatever the text is, a variable is cut off alike between two marks, characters in the literal
  text on each side of it that its own texts never hold. If the text were cut anywhere else, one of
  the two sides would hold a mark too many, as long as the variables of one side never hold it
  (`Marked.cutOnce`).
-/

namespace UrlRouting

/-! ## Texts that are replaced -/

/-- Whether all divisions of a text cut the text of a variable between such parts off alike. -/
def CutOnce (before : List Part) (c : Converter) (after : List Part) (text : List Char) : Prop :=
  ∀ ds ds' es es' s s' t t' y y',
    Divides (before.map Part.piece) ds s → Divides (before.map Part.piece) ds' s' →
    c.Accepts y → c.Accepts y' →
    Divides (after.map Part.piece) es t → Divides (after.map Part.piece) es' t' →
    text = s ++ (y ++ t) → text = s' ++ (y' ++ t') → s = s' ∧ y = y' ∧ t = t'

/-- Whether what makes up equal wholes behind two texts also does so behind two others. -/
def CarriesOver (s u s' u' : List Char) : Prop :=
  ∀ rest rest', s ++ rest = u ++ rest' → s' ++ rest = u' ++ rest'

theorem CarriesOver.of_eq {s : List Char} (s' : List Char) : CarriesOver s s s' s' :=
  fun _ _ h => congrArg (s' ++ ·) (List.append_cancel_left h)

theorem CarriesOver.append {s u s' u' : List Char} (h : CarriesOver s u s' u') (x y : List Char) :
    CarriesOver (s ++ x) (u ++ y) (s' ++ x) (u' ++ y) := by
  intro rest rest' heq
  rw [List.append_assoc, List.append_assoc] at heq ⊢
  exact h _ _ heq

theorem divides_concat {before : List Part} {q : Part} {d : List (List Char)} {s t : List Char}
    (hd : Divides (before.map Part.piece) d s) (ht : q.piece.Accepts t) :
    Divides ((before ++ [q]).map Part.piece) (d ++ [t]) (s ++ t) := by
  rw [List.map_append]
  exact divides_append hd (divides_singleton_iff.2 ⟨rfl, ht⟩)

/-- Whether a division of a new text comes from one of an old text, before which the old texts come
only if the new ones come before it. The old texts stand behind a text each. -/
def ComesFrom (ps : List Piece) (s u : List Char) (old new e : List (List Char)) : Prop :=
  ∃ e' v, Divides ps e' v ∧ s ++ old.flatten = u ++ v ∧
    (e' = old ∨ Precedes Piece.Prefers ps old e' → e = new ∨ Precedes Piece.Prefers ps new e)

/-- One more piece in front, with texts that decide nothing which they did not decide before. -/
theorem ComesFrom.cons {p : Piece} {ps : List Piece} {s u x y x' y' : List Char}
    {old new e : List (List Char)} (hy : p.Accepts y) (hsame : x = y → x' = y')
    (hprefers : p.Prefers x y → p.Prefers x' y') (h : ComesFrom ps (s ++ x) (u ++ y) old new e) :
    ComesFrom (p :: ps) s u (x :: old) (x' :: new) (y' :: e) := by
  obtain ⟨d, v, hd, htext, hfirst⟩ := h
  refine ⟨y :: d, y ++ v, divides_cons_iff.2 ⟨y, d, v, rfl, rfl, hy, hd⟩, ?_, ?_⟩
  · rw [List.flatten_cons, ← List.append_assoc, htext, List.append_assoc]
  have hlater : x = y → (d = old ∨ Precedes Piece.Prefers ps old d) →
      y' :: e = x' :: new ∨ Precedes Piece.Prefers (p :: ps) (x' :: new) (y' :: e) := by
    intro hxy hmore
    rw [hsame hxy]
    exact (hfirst hmore).imp (congrArg (y' :: ·)) .later
  rintro (heq | hbefore)
  · obtain ⟨hhead, htail⟩ := List.cons.inj heq
    exact hlater hhead.symm (.inl htail)
  · cases hbefore with
    | here hself => exact .inr (.here (hprefers hself))
    | later htail => exact hlater rfl (.inr htail)

/-- Whether the texts of the variables of the parts that stand behind others are kept, or replaced
by texts without a slash where a whole text cuts them off alike. -/
inductive Rewrites (whole : List Char) :
    List Part → List Part → List (List Char) → List (List Char) → Prop where
  | nil {before : List Part} : Rewrites whole before [] [] []
  | literal {before parts : List Part} {text : String} {texts written : List (List Char)}
      (h : Rewrites whole (before ++ [.literal text]) parts texts written) :
      Rewrites whole before (.literal text :: parts) texts written
  | keep {before parts : List Part} {name : String} {c : Converter} {t : List Char}
      {texts written : List (List Char)} (ht : c.Accepts t)
      (h : Rewrites whole (before ++ [.capture name c]) parts texts written) :
      Rewrites whole before (.capture name c :: parts) (t :: texts) (t :: written)
  | replace {before parts : List Part} {name : String} {c : Converter} {t w : List Char}
      {texts written : List (List Char)} (honce : CutOnce before c parts whole) (ht : c.Accepts t)
      (hw : c.Accepts w) (hplain : w ≠ [] ∧ '/' ∉ w)
      (h : Rewrites whole (before ++ [.capture name c]) parts texts written) :
      Rewrites whole before (.capture name c :: parts) (t :: texts) (w :: written)

namespace Rewrites

variable {whole : List Char} {before parts : List Part} {texts written : List (List Char)}

/-- The new texts divide what they make up. -/
theorem divides (h : Rewrites whole before parts texts written) :
    Divides (parts.map Part.piece) (Part.interleave parts written)
      (Part.interleave parts written).flatten := by
  induction h with
  | nil => exact divides_nil_iff.2 ⟨rfl, rfl⟩
  | literal _ ih => exact divides_cons_iff.2 ⟨_, _, _, rfl, rfl, rfl, ih⟩
  | keep ht _ ih => exact divides_cons_iff.2 ⟨_, _, _, rfl, rfl, ht, ih⟩
  | replace _ _ hw _ _ ih => exact divides_cons_iff.2 ⟨_, _, _, rfl, rfl, hw, ih⟩

/-- A division of the new text comes from one of the old text: the variables that are replaced are
cut off alike, so they can be given their old texts again. The texts in front are carried along. -/
theorem comesFrom (h : Rewrites whole before parts texts written)
    {ds es : List (List Char)} {s u s' u' v : List Char} {e : List (List Char)}
    (hds : Divides (before.map Part.piece) ds s) (hes : Divides (before.map Part.piece) es u)
    (hcarry : CarriesOver s u s' u')
    (hwhole : whole = s ++ (Part.interleave parts written).flatten)
    (he : Divides (parts.map Part.piece) e v) (hwhole' : whole = u ++ v) :
    ComesFrom (parts.map Part.piece) s' u' (Part.interleave parts texts)
      (Part.interleave parts written) e := by
  induction h generalizing ds es s u s' u' v e with
  | nil =>
    obtain ⟨rfl, rfl⟩ := divides_nil_iff.1 he
    exact ⟨[], [], divides_nil_iff.2 ⟨rfl, rfl⟩, hcarry [] [] (hwhole.symm.trans hwhole'),
      fun _ => .inl rfl⟩
  | @literal before parts text texts written _ ih =>
    obtain ⟨x, e, v, rfl, rfl, hx, he⟩ := divides_cons_iff.1 he
    rw [Part.flatten_interleave_literal, ← List.append_assoc] at hwhole
    rw [← List.append_assoc] at hwhole'
    exact (ih (divides_concat (q := .literal text) hds rfl) (divides_concat hes hx)
      (hcarry.append text.toList x) hwhole he hwhole').cons hx id id
  | @keep before parts name c t texts written ht _ ih =>
    obtain ⟨x, e, v, rfl, rfl, hx, he⟩ := divides_cons_iff.1 he
    rw [Part.flatten_interleave_capture, ← List.append_assoc] at hwhole
    rw [← List.append_assoc] at hwhole'
    exact (ih (divides_concat (q := .capture name c) hds ht) (divides_concat hes hx)
      (hcarry.append t x) hwhole he hwhole').cons hx id id
  | @replace before parts name c t w texts written honce ht hw _ hmore ih =>
    obtain ⟨x, e, v, rfl, rfl, hx, hrest⟩ := divides_cons_iff.1 he
    rw [Part.flatten_interleave_capture] at hwhole
    obtain ⟨rfl, rfl, rfl⟩ := honce _ _ _ _ _ _ _ _ _ _ hds hes hw hx hmore.divides hrest
      hwhole hwhole'
    -- in front of the variable the texts are the same, so its old text stands behind equal texts
    obtain rfl : s' = u' := List.append_cancel_right (hcarry [] [] rfl)
    rw [← List.append_assoc] at hwhole
    have hrest' := ih (divides_concat (q := .capture name c) hds hw) (divides_concat hes hx)
      (CarriesOver.of_eq (s' ++ t)) hwhole hrest hwhole
    exact hrest'.cons ht (fun _ => rfl) fun hself =>
      absurd hself (Piece.prefers_asymm _ _ _ hself)

end Rewrites

/-- A text in which the texts of variables are replaced where they may be is divided as before. -/
theorem firstSplit_rewrite {parts : List Part} {texts written : List (List Char)}
    (hrewrites : Rewrites (Part.interleave parts written).flatten [] parts texts written)
    (h : firstSplit (parts.map Part.piece) (Part.interleave parts texts).flatten =
      some (Part.interleave parts texts)) :
    firstSplit (parts.map Part.piece) (Part.interleave parts written).flatten =
      some (Part.interleave parts written) := by
  refine firstSplit_eq_some_iff.2 ⟨hrewrites.divides, ?_⟩
  intro e he
  have hnil : Divides (([] : List Part).map Part.piece) [] [] := divides_nil_iff.2 ⟨rfl, rfl⟩
  obtain ⟨e', v', he', htext, hfirst⟩ :=
    hrewrites.comesFrom hnil hnil (CarriesOver.of_eq []) rfl he rfl
  obtain rfl : (Part.interleave parts texts).flatten = v' := htext
  exact hfirst ((firstSplit_eq_some_iff.1 h).2 e' he')

/-- Nor do the new texts put a slash at the end. -/
theorem getLast?_of_rewrites {whole : List Char} {before parts : List Part}
    {texts written : List (List Char)} (hrewrites : Rewrites whole before parts texts written) :
    (Part.interleave parts written).flatten.getLast? =
        (Part.interleave parts texts).flatten.getLast? ∨
      ∃ c, (Part.interleave parts written).flatten.getLast? = some c ∧ c ≠ '/' := by
  -- what stands behind a part decides, if it holds a character
  have hcons : ∀ first more more' : List Char,
      more'.getLast? = more.getLast? ∨ (∃ c, more'.getLast? = some c ∧ c ≠ '/') →
      (first ++ more').getLast? = (first ++ more).getLast? ∨
        ∃ c, (first ++ more').getLast? = some c ∧ c ≠ '/' := by
    intro first more more' hmore
    rw [List.getLast?_append, List.getLast?_append]
    refine hmore.imp (fun h => by rw [h]) ?_
    rintro ⟨c, hc, hne⟩
    exact ⟨c, by rw [hc, Option.some_or], hne⟩
  induction hrewrites with
  | nil => exact .inl rfl
  | literal _ ih => exact hcons _ _ _ ih
  | keep _ _ ih => exact hcons _ _ _ ih
  | @replace before parts name c t w texts written _ _ _ hplain _ ih =>
    rw [Part.flatten_interleave_capture, Part.flatten_interleave_capture]
    cases hlast : (Part.interleave parts written).flatten.getLast? with
    | some d =>
      rcases ih with heq | ⟨e, he, hne⟩
      · left
        rw [List.getLast?_append, List.getLast?_append, ← heq, hlast, Option.some_or,
          Option.some_or]
      · exact .inr ⟨e, by rw [List.getLast?_append, he, Option.some_or], hne⟩
    | none =>
      right
      obtain ⟨front, d, rfl⟩ := (List.eq_nil_or_concat' w).resolve_left hplain.1
      refine ⟨d, by rw [List.getLast?_append, hlast, Option.none_or, List.getLast?_concat], ?_⟩
      rintro rfl
      exact hplain.2 (List.mem_append_right front List.mem_cons_self)

/-! ## Cutting at marks -/

section

variable {a b : Char}

/-- Where two texts are cut at marks with as many of them in front, they are cut at the same. -/
theorem eq_of_append_mark {u u' rest rest' : List Char} (hcount : u.count a = u'.count a)
    (h : u ++ a :: rest = u' ++ a :: rest') : u = u' ∧ rest = rest' := by
  rcases List.append_eq_append_iff.1 h with ⟨m, rfl, hm⟩ | ⟨m, rfl, hm⟩
  · cases m with
    | nil => exact ⟨(List.append_nil u).symm, (List.cons.inj hm).2⟩
    | cons c m =>
      obtain ⟨rfl, -⟩ := List.cons.inj hm
      rw [List.count_append, List.count_cons_self] at hcount
      omega
  · cases m with
    | nil => exact ⟨List.append_nil u', (List.cons.inj hm).2.symm⟩
    | cons c m =>
      obtain ⟨rfl, -⟩ := List.cons.inj hm
      rw [List.count_append, List.count_cons_self] at hcount
      omega

/-- Where two texts are cut before marks with as many of them behind, they are cut at the same. -/
theorem eq_of_append_stopsAt {s s' rest rest' : List Char} (hcount : rest.count b = rest'.count b)
    (hrest : StopsAt b rest) (hrest' : StopsAt b rest') (h : s ++ rest = s' ++ rest') :
    s = s' ∧ rest = rest' := by
  rcases hrest with rfl | hhead
  · rcases hrest' with rfl | hhead'
    · exact ⟨List.append_cancel_right h, rfl⟩
    · obtain ⟨more, rfl⟩ := List.head?_eq_some_iff.1 hhead'
      rw [List.count_nil, List.count_cons_self] at hcount
      omega
  · obtain ⟨more, rfl⟩ := List.head?_eq_some_iff.1 hhead
    rcases hrest' with rfl | hhead'
    · rw [List.count_nil, List.count_cons_self] at hcount
      omega
    · obtain ⟨more', rfl⟩ := List.head?_eq_some_iff.1 hhead'
      have htotal := congrArg (List.count b) h
      rw [List.count_append, List.count_append, hcount, Nat.add_right_cancel_iff] at htotal
      obtain ⟨rfl, rfl⟩ := eq_of_append_mark htotal h
      exact ⟨rfl, rfl⟩

/-- Whether all that the pieces divide ends in the mark and this text. -/
def Behind (a : Char) (pieces : List Piece) (tail : List Char) : Prop :=
  a ∉ tail ∧ ∀ d text, Divides pieces d text → ∃ front, text = front ++ a :: tail

/-- Whether all that the pieces divide begins with this text, and then ends or goes on with the
mark. -/
def Ahead (b : Char) (pieces : List Piece) (head : List Char) : Prop :=
  b ∉ head ∧ ∀ d text, Divides pieces d text → ∃ rest, text = head ++ rest ∧ StopsAt b rest

/-- A text between two marks that it does not hold is cut in one way only, if the marks on one side
are as many. -/
theorem eq_of_append_between {tail head u u' x y rest rest' : List Char} (htail : a ∉ tail)
    (hhead : b ∉ head) (hx : a ∉ x ∧ b ∉ x) (hy : a ∉ y ∧ b ∉ y) (hrest : StopsAt b rest)
    (hrest' : StopsAt b rest')
    (hcount : (u ++ a :: tail).count a = (u' ++ a :: tail).count a ∨
      (head ++ rest).count b = (head ++ rest').count b)
    (h : (u ++ a :: tail) ++ (x ++ (head ++ rest)) =
      (u' ++ a :: tail) ++ (y ++ (head ++ rest'))) :
    u = u' ∧ x = y ∧ rest = rest' := by
  rcases hcount with hcount | hcount
  · rw [List.count_append, List.count_append, Nat.add_right_cancel_iff] at hcount
    rw [List.append_assoc, List.append_assoc, List.cons_append, List.cons_append] at h
    obtain ⟨rfl, hbehind⟩ := eq_of_append_mark hcount h
    have hmiddle := List.append_cancel_left hbehind
    rw [← List.append_assoc, ← List.append_assoc] at hmiddle
    have hsame : y ++ head = x ++ head := by
      refine eq_of_append_eq hmiddle ?_ ?_ hrest hrest'
      · exact fun hmem => (List.mem_append.1 hmem).elim hy.2 hhead
      · exact fun hmem => (List.mem_append.1 hmem).elim hx.2 hhead
    rw [hsame] at hmiddle
    exact ⟨rfl, (List.append_cancel_right hsame).symm, List.append_cancel_left hmiddle⟩
  · rw [List.count_append, List.count_append, Nat.add_left_cancel_iff] at hcount
    have hwhole : (u ++ a :: (tail ++ x) ++ head) ++ rest =
        (u' ++ a :: (tail ++ y) ++ head) ++ rest' := by
      simpa only [List.append_assoc, List.cons_append] using h
    obtain ⟨hfront, rfl⟩ := eq_of_append_stopsAt hcount hrest hrest' hwhole
    have hsame := List.append_cancel_right hfront
    have htotal := congrArg (List.count a) hsame
    simp only [List.count_append, List.count_cons_self, List.count_eq_zero_of_not_mem htail,
      List.count_eq_zero_of_not_mem hx.1, List.count_eq_zero_of_not_mem hy.1,
      Nat.add_right_cancel_iff] at htotal
    obtain ⟨rfl, hbehind⟩ := eq_of_append_mark htotal hsame
    exact ⟨rfl, List.append_cancel_left hbehind, rfl⟩

end

/-! ## Variables between marks -/

/-- Where no capture takes a mark, there are always as many of them. -/
theorem count_eq_of_avoids {mark : Char} {parts : List Part} {d d' : List (List Char)}
    {text text' : List Char} (havoids : Avoids mark (parts.map Part.piece))
    (h : Divides (parts.map Part.piece) d text) (h' : Divides (parts.map Part.piece) d' text') :
    text.count mark = text'.count mark := by
  induction parts generalizing d d' text text' with
  | nil => rw [(divides_nil_iff.1 h).2, (divides_nil_iff.1 h').2]
  | cons q parts ih =>
    obtain ⟨t, ts, rest, -, rfl, ht, hts⟩ := divides_cons_iff.1 h
    obtain ⟨t', ts', rest', -, rfl, ht', hts'⟩ := divides_cons_iff.1 h'
    have hrest := ih (fun c hc => havoids c (List.mem_cons_of_mem _ hc)) hts hts'
    have hfirst : t.count mark = t'.count mark := by
      cases q with
      | literal text =>
        have htext : t = text.toList := ht
        have htext' : t' = text.toList := ht'
        rw [htext, htext']
      | capture name c =>
        have hnone := havoids c List.mem_cons_self
        rw [List.count_eq_zero_of_not_mem (hnone t ht),
          List.count_eq_zero_of_not_mem (hnone t' ht')]
    rw [List.count_append, List.count_append, hfirst, hrest]

/-- Whether a variable between such parts stands between two marks: its texts hold neither of them,
and one of them is in no text of the variables on one side. -/
structure Marked (a b : Char) (before : List Part) (c : Converter) (after : List Part) : Prop where
  markFree : ∀ text, c.Accepts text → a ∉ text ∧ b ∉ text
  behind : ∃ tail, Behind a (before.map Part.piece) tail
  ahead : ∃ head, Ahead b (after.map Part.piece) head
  side : ∃ mark, (mark = a ∨ mark = b) ∧
    (Avoids mark (before.map Part.piece) ∨ Avoids mark (after.map Part.piece))

/-- Between two marks the text of a variable is cut off in one way only. -/
theorem Marked.cutOnce {a b : Char} {before after : List Part} {c : Converter}
    (hmarked : Marked a b before c after) (text : List Char) : CutOnce before c after text := by
  rintro ds ds' es es' s s' t t' y y' hds hds' hy hy' hes hes' rfl h
  obtain ⟨tail, htail, hbehind⟩ := hmarked.behind
  obtain ⟨head, hhead, hahead⟩ := hmarked.ahead
  have hfree := hmarked.markFree y hy
  have hfree' := hmarked.markFree y' hy'
  obtain ⟨mark, hmark, hside⟩ := hmarked.side
  have hcounts : s.count mark = s'.count mark ∧ t.count mark = t'.count mark := by
    have hnone : mark ∉ y ∧ mark ∉ y' := by
      rcases hmark with rfl | rfl
      · exact ⟨hfree.1, hfree'.1⟩
      · exact ⟨hfree.2, hfree'.2⟩
    have htotal := congrArg (List.count mark) h
    simp only [List.count_append, List.count_eq_zero_of_not_mem hnone.1,
      List.count_eq_zero_of_not_mem hnone.2] at htotal
    rcases hside with hbefore | hafter
    · have hs := count_eq_of_avoids hbefore hds hds'
      exact ⟨hs, by omega⟩
    · have ht := count_eq_of_avoids hafter hes hes'
      exact ⟨by omega, ht⟩
  have hcount : s.count a = s'.count a ∨ t.count b = t'.count b := by
    rcases hmark with rfl | rfl
    · exact .inl hcounts.1
    · exact .inr hcounts.2
  obtain ⟨u, rfl⟩ := hbehind _ _ hds
  obtain ⟨u', rfl⟩ := hbehind _ _ hds'
  obtain ⟨rest, rfl, hrest⟩ := hahead _ _ hes
  obtain ⟨rest', rfl, hrest'⟩ := hahead _ _ hes'
  obtain ⟨rfl, rfl, rfl⟩ := eq_of_append_between htail hhead hfree hfree' hrest hrest' hcount h
  exact ⟨rfl, rfl, rfl⟩

theorem behind_literal {a : Char} (before : List Part) {text : String} (h : a ∈ text.toList) :
    ∃ tail, Behind a ((before ++ [Part.literal text]).map Part.piece) tail := by
  obtain ⟨tail, front, hrev, htail⟩ := List.eq_append_cons_of_mem (List.mem_reverse.2 h)
  have htext : text.toList = front.reverse ++ a :: tail.reverse := by
    rw [← List.reverse_reverse text.toList, hrev]
    simp
  refine ⟨tail.reverse, mt List.mem_reverse.1 htail, ?_⟩
  intro d whole hd
  rw [List.map_append] at hd
  obtain ⟨ds, es, s, t, -, rfl, -, hlast⟩ := divides_append_iff.1 hd
  obtain ⟨-, ht⟩ := divides_singleton_iff.1 hlast
  refine ⟨s ++ front.reverse, ?_⟩
  rw [ht.trans htext, List.append_assoc]

theorem ahead_literal {b : Char} {text : List Char} {pieces : List Piece}
    (h : b ∈ text ∨ pieces = []) : ∃ head, Ahead b (.literal text :: pieces) head := by
  refine ⟨text.takeWhile (· ≠ b), Text.not_mem_takeWhile_ne b text, ?_⟩
  intro d whole hd
  obtain ⟨t, ts, rest, -, rfl, ht, hts⟩ := divides_cons_iff.1 hd
  have ht' : t = text := ht
  rw [ht']
  refine ⟨text.dropWhile (· ≠ b) ++ rest, ?_, ?_⟩
  · rw [← List.append_assoc, List.takeWhile_append_dropWhile]
  · cases hback : text.dropWhile (· ≠ b) with
    | cons c back =>
      have hmark := List.head?_dropWhile_not (fun c => decide (c ≠ b)) text
      rw [hback] at hmark
      obtain rfl : c = b := by simpa using hmark
      exact .inr rfl
    | nil =>
      have hnone : b ∉ text := by
        rw [← List.takeWhile_append_dropWhile (p := fun c => decide (c ≠ b)) (l := text), hback,
          List.append_nil]
        exact Text.not_mem_takeWhile_ne b text
      obtain rfl := h.resolve_left hnone
      exact .inl (divides_nil_iff.1 hts).2

theorem ahead_dropSlashes {b : Char} {text : String} (h : b ∈ text.toList) (after : List Part) :
    ∃ head, Ahead b ((dropSlashes (.literal text :: after)).map Part.piece) head := by
  cases hmore : dropSlashes after with
  | cons q rest =>
    simp only [dropSlashes, hmore]
    exact ahead_literal (.inl h)
  | nil =>
    simp only [dropSlashes, hmore]
    split
    · refine ⟨[], List.not_mem_nil, ?_⟩
      intro d whole hd
      exact ⟨whole, rfl, .inl (divides_nil_iff.1 hd).2⟩
    · exact ahead_literal (.inr rfl)

theorem avoids_of_converters {mark : Char} {parts other : List Part}
    (hconverters : Part.converters parts = Part.converters other)
    (h : Avoids mark (other.map Part.piece)) : Avoids mark (parts.map Part.piece) := by
  intro c hc
  have hmem := mem_converters_of_mem_pieces hc
  rw [hconverters] at hmem
  obtain ⟨⟨name, d⟩, hcapture, rfl⟩ := List.mem_map.1 hmem
  obtain ⟨q, hq, heq⟩ := List.mem_filterMap.1 hcapture
  cases q with
  | literal text => cases heq
  | capture other d' =>
    obtain ⟨rfl, rfl⟩ := Prod.mk.inj (Option.some.inj heq)
    exact h d' (List.mem_map.2 ⟨_, hq, rfl⟩)

theorem dropSlashes_append_capture (before : List Part) (name : String) (c : Converter)
    (after : List Part) :
    dropSlashes (before ++ .capture name c :: after) =
      before ++ .capture name c :: dropSlashes after := by
  induction before with
  | nil => rfl
  | cons q before ih =>
    rw [List.cons_append, List.cons_append, ← ih]
    cases q with
    | capture other d => rfl
    | literal text =>
      obtain ⟨r, rest, hrest⟩ := List.exists_cons_of_ne_nil
        (List.append_ne_nil_of_right_ne_nil before (List.cons_ne_nil (.capture name c)
          (dropSlashes after)))
      rw [hrest] at ih
      rw [ih]
      simp only [dropSlashes, ih]

end UrlRouting
