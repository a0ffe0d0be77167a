import UrlRouting.Proofs.Converter.RoundTrip
import UrlRouting.Proofs.Pattern.Division

/-
  Pieces that fall apart at slashes divide a text in the way in which it was put together.
  Behind every capture the text must end or go on with a slash (`Separated`), and at most one
  capture may take slashes itself, which is a path. From the left the other captures are then
  determined up to the path. There the slashes of what follows are counted: no division leaves more
  of them behind the path than the one that takes the optional slash, so none has a shorter path;
  and shorter paths come first (`eq_or_precedes_of_divides`).
-/

namespace UrlRouting

/-! ## The order is strict -/

theorem precedes_asymm {α : Type} {Prefers : α → List Char → List Char → Prop}
    (hasymm : ∀ a s t, Prefers a s t → ¬ Prefers a t s) {as : List α} {ss ts : List (List Char)}
    (h : Precedes Prefers as ss ts) : ¬ Precedes Prefers as ts ss := by
  induction h with
  | here hst =>
    intro hback
    cases hback with
    | here hts => exact hasymm _ _ _ hst hts
    | later => exact hasymm _ _ _ hst hst
  | later _ ih =>
    intro hback
    cases hback with
    | here hts => exact hasymm _ _ _ hts hts
    | later hmore => exact ih hmore

theorem Converter.prefers_asymm (c : Converter) (s t : List Char) (h : c.Prefers s t) :
    ¬ c.Prefers t s := by
  cases c with
  | uuid => exact h.elim
  | _ => exact Nat.lt_asymm h

theorem Converter.prefers_trans {c : Converter} {s t u : List Char} (hst : c.Prefers s t)
    (htu : c.Prefers t u) : c.Prefers s u := by
  cases c with
  | uuid => exact hst.elim
  | path | any _ => exact Nat.lt_trans hst htu
  | _ => exact Nat.lt_trans htu hst

theorem Piece.prefers_asymm (p : Piece) (s t : List Char) (h : p.Prefers s t) :
    ¬ p.Prefers t s := by
  cases p with
  | literal _ => exact h.elim
  | capture c => exact c.prefers_asymm s t h
  | optionalSlash => exact Nat.lt_asymm h

/-- Lists of texts that fall apart in the same way are compared in the first parts first. -/
theorem precedes_append_iff {α : Type} {Prefers : α → List Char → List Char → Prop}
    {as bs : List α} {ss ts ss' ts' : List (List Char)} (hss : as.length = ss.length)
    (hts : as.length = ts.length) :
    Precedes Prefers (as ++ bs) (ss ++ ss') (ts ++ ts') ↔
      Precedes Prefers as ss ts ∨ ss = ts ∧ Precedes Prefers bs ss' ts' := by
  induction as generalizing ss ts with
  | nil =>
    obtain rfl := List.eq_nil_of_length_eq_zero hss.symm
    obtain rfl := List.eq_nil_of_length_eq_zero hts.symm
    constructor
    · intro h
      exact .inr ⟨rfl, h⟩
    · rintro (h | ⟨-, h⟩)
      · cases h
      · exact h
  | cons a as ih =>
    cases ss with
    | nil => cases hss
    | cons s ss =>
      cases ts with
      | nil => cases hts
      | cons t ts =>
        have hmore := ih (Nat.succ.inj hss) (Nat.succ.inj hts)
        constructor
        · intro h
          cases h with
          | here hst => exact .inl (.here hst)
          | later hlater =>
            rcases hmore.1 hlater with h | ⟨rfl, h⟩
            · exact .inl (.later h)
            · exact .inr ⟨rfl, h⟩
        · rintro (h | ⟨heq, h⟩)
          · cases h with
            | here hst => exact .here hst
            | later hlater => exact .later (hmore.2 (.inl hlater))
          · obtain ⟨rfl, rfl⟩ := List.cons.inj heq
            exact .later (hmore.2 (.inr ⟨rfl, h⟩))

/-- The division that a text gets is the first of all that it can have. -/
theorem firstSplit_eq_some_iff {pieces : List Piece} {text : List Char} {d : List (List Char)} :
    firstSplit pieces text = some d ↔ Divides pieces d text ∧
      ∀ e, Divides pieces e text → e = d ∨ Precedes Piece.Prefers pieces d e := by
  constructor
  · intro h
    refine ⟨divides_of_firstSplit h, ?_⟩
    intro e he
    obtain ⟨first, hfirst, horder⟩ := firstSplit_of_divides he
    obtain rfl := Option.some.inj (h.symm.trans hfirst)
    exact horder.imp_left Eq.symm
  · rintro ⟨hd, horder⟩
    obtain ⟨first, hfirst, hbefore⟩ := firstSplit_of_divides hd
    rw [hfirst]
    rcases hbefore with rfl | hbefore
    · rfl
    · rcases horder first (divides_of_firstSplit hfirst) with rfl | hafter
      · rfl
      · exact absurd hbefore (precedes_asymm Piece.prefers_asymm hafter)

/-! ## Texts that end at a slash -/

/-- Whether a text is at its end or goes on with this character. -/
def StopsAt (mark : Char) (text : List Char) : Prop := text = [] ∨ text.head? = some mark

theorem eq_of_append_eq {mark : Char} {s t rest more : List Char} (h : t ++ rest = s ++ more)
    (hs : mark ∉ s) (ht : mark ∉ t) (hrest : StopsAt mark rest) (hmore : StopsAt mark more) :
    s = t := by
  rcases List.append_eq_append_iff.1 h with ⟨m, rfl, rfl⟩ | ⟨m, rfl, rfl⟩
  · cases m with
    | nil => exact List.append_nil t
    | cons c m =>
      rcases hrest with hnil | hhead
      · cases hnil
      · obtain rfl := Option.some.inj hhead
        exact absurd (by simp) hs
  · cases m with
    | nil => exact (List.append_nil s).symm
    | cons c m =>
      rcases hmore with hnil | hhead
      · cases hnil
      · obtain rfl := Option.some.inj hhead
        exact absurd (by simp) ht

/-- Of two first parts the one that leaves more slashes is the shorter. -/
theorem eq_or_length_lt {s t rest more : List Char} (h : t ++ rest = s ++ more)
    (hmore : StopsAt '/' more) (hcount : more.count '/' ≤ rest.count '/') :
    s = t ∨ t.length < s.length := by
  rcases List.append_eq_append_iff.1 h with ⟨m, rfl, rfl⟩ | ⟨m, rfl, rfl⟩
  · cases m with
    | nil => exact .inl (List.append_nil t)
    | cons c m =>
      right
      rw [List.length_append, List.length_cons]
      omega
  · cases m with
    | nil => exact .inl (List.append_nil s).symm
    | cons c m =>
      rcases hmore with hnil | hhead
      · cases hnil
      · obtain rfl := Option.some.inj hhead
        rw [List.cons_append, List.count_cons_self, List.count_append] at hcount
        omega

/-! ## Pieces that are separated -/

/-- Whether whatever the pieces divide is empty or begins with a slash. -/
def Separated (pieces : List Piece) : Prop :=
  ∀ division text, Divides pieces division text → StopsAt '/' text

/-- Whether no capture takes a slash. -/
def PlainCaptures (pieces : List Piece) : Prop := ∀ c, Piece.capture c ∈ pieces → c.IsPlain

/-- Whether no text of a capture holds this character. -/
def Avoids (mark : Char) (pieces : List Piece) : Prop :=
  ∀ c, Piece.capture c ∈ pieces → ∀ text, c.Accepts text → mark ∉ text

theorem avoids_of_plainCaptures {pieces : List Piece} (h : PlainCaptures pieces) :
    Avoids '/' pieces :=
  fun c hc _ htext => Converter.not_mem_of_isPlain (h c hc) htext

/-- Whether the pieces fall apart at slashes; behind a path there are plain captures only. -/
def FallsApart : List Piece → Prop
  | [] => True
  | .literal _ :: ps => FallsApart ps
  | .capture c :: ps => Separated ps ∧ (c.IsPlain ∨ c = .path ∧ PlainCaptures ps) ∧ FallsApart ps
  | .optionalSlash :: ps => ps = []

/-- Whether the slash is taken where it is optional. -/
def TakesSlash (pieces : List Piece) (division : List (List Char)) : Prop :=
  List.Forall₂ (fun p t => p = .optionalSlash → t = ['/']) pieces division

theorem separated_nil : Separated [] := by
  intro division text h
  exact .inl (divides_nil_iff.1 h).2

theorem separated_literal {text : List Char} {pieces : List Piece}
    (h : text.head? = some '/') : Separated (.literal text :: pieces) := by
  intro division whole hdiv
  obtain ⟨_, _, rest, -, rfl, rfl, -⟩ := divides_cons_iff.1 hdiv
  right
  rw [List.head?_append, h, Option.some_or]

theorem separated_literal_nil {pieces : List Piece} (h : Separated pieces) :
    Separated (.literal [] :: pieces) := by
  intro division whole hdiv
  obtain ⟨_, ts, rest, -, rfl, rfl, hts⟩ := divides_cons_iff.1 hdiv
  exact h ts rest hts

theorem separated_optionalSlash : Separated [.optionalSlash] := by
  intro division whole hdiv
  obtain ⟨t, ts, rest, -, rfl, ht, hts⟩ := divides_cons_iff.1 hdiv
  rw [(divides_nil_iff.1 hts).2, List.append_nil]
  rcases ht with rfl | rfl
  · exact .inl rfl
  · exact .inr rfl

/-! ## Slashes -/

/-- The slashes that a piece can take, but for those of a path. -/
def Piece.slashes : Piece → Nat
  | literal text => text.count '/'
  | capture _ => 0
  | optionalSlash => 1

/-- The slashes that all the pieces can take, but for those of a path. -/
def slashCount : List Piece → Nat
  | [] => 0
  | p :: ps => p.slashes + slashCount ps

theorem count_le_of_divides {pieces : List Piece} {division : List (List Char)}
    {text : List Char} (hfree : Avoids '/' pieces) (h : Divides pieces division text) :
    text.count '/' ≤ slashCount pieces := by
  induction pieces generalizing division text with
  | nil =>
    rw [(divides_nil_iff.1 h).2]
    rfl
  | cons p ps ih =>
    obtain ⟨t, ts, rest, -, rfl, ht, hts⟩ := divides_cons_iff.1 h
    have hrest := ih (fun c hc => hfree c (List.mem_cons_of_mem p hc)) hts
    have hfirst : t.count '/' ≤ p.slashes := by
      cases p with
      | literal text => exact Nat.le_of_eq (congrArg (List.count '/') ht)
      | capture c =>
        have hnone := hfree c List.mem_cons_self t ht
        exact Nat.le_of_eq (List.count_eq_zero_of_not_mem hnone)
      | optionalSlash =>
        rcases ht with rfl | rfl
        · exact Nat.zero_le _
        · exact Nat.le_refl 1
    rw [List.count_append]
    exact Nat.add_le_add hfirst hrest

theorem count_eq_of_takesSlash {pieces : List Piece} {division : List (List Char)}
    {text : List Char} (hfree : Avoids '/' pieces) (h : Divides pieces division text)
    (htakes : TakesSlash pieces division) : text.count '/' = slashCount pieces := by
  induction pieces generalizing division text with
  | nil =>
    rw [(divides_nil_iff.1 h).2]
    rfl
  | cons p ps ih =>
    obtain ⟨t, ts, rest, rfl, rfl, ht, hts⟩ := divides_cons_iff.1 h
    obtain ⟨hslash, hmore⟩ := List.forall₂_cons.1 htakes
    have hrest := ih (fun c hc => hfree c (List.mem_cons_of_mem p hc)) hts hmore
    have hfirst : t.count '/' = p.slashes := by
      cases p with
      | literal text => exact congrArg (List.count '/') ht
      | capture c =>
        have hnone := hfree c List.mem_cons_self t ht
        exact List.count_eq_zero_of_not_mem hnone
      | optionalSlash =>
        rw [hslash rfl]
        rfl
    rw [List.count_append, hfirst, hrest]
    rfl

/-! ## The division of a text that was put together -/

theorem eq_or_precedes_of_divides {pieces : List Piece} {d e : List (List Char)}
    {text : List Char} (hparts : FallsApart pieces) (hd : Divides pieces d text)
    (htakes : TakesSlash pieces d) (he : Divides pieces e text) :
    e = d ∨ Precedes Piece.Prefers pieces d e := by
  induction pieces generalizing d e text with
  | nil =>
    left
    rw [(divides_nil_iff.1 hd).1, (divides_nil_iff.1 he).1]
  | cons p ps ih =>
    obtain ⟨t, ts, rest, rfl, rfl, ht, hts⟩ := divides_cons_iff.1 hd
    obtain ⟨s, ss, more, rfl, htext, hs, hss⟩ := divides_cons_iff.1 he
    obtain ⟨-, hmoretakes⟩ := List.forall₂_cons.1 htakes
    -- where the first texts agree, the other pieces divide the same text
    have hsame : FallsApart ps → s = t → s :: ss = t :: ts ∨
        Precedes Piece.Prefers (p :: ps) (t :: ts) (s :: ss) := by
      rintro hps rfl
      obtain rfl := List.append_cancel_left htext
      rcases ih hps hts hmoretakes hss with rfl | hlater
      · exact .inl rfl
      · exact .inr (.later hlater)
    cases p with
    | literal text => exact hsame hparts (hs.trans ht.symm)
    | capture c =>
      obtain ⟨hseparated, hkind, hps⟩ := hparts
      have hrest := hseparated ts rest hts
      have hmore := hseparated ss more hss
      rcases hkind with hplain | ⟨rfl, hplain⟩
      · exact hsame hps (eq_of_append_eq htext (Converter.not_mem_of_isPlain hplain hs)
          (Converter.not_mem_of_isPlain hplain ht) hrest hmore)
      · have hcount : more.count '/' ≤ rest.count '/' := by
          rw [count_eq_of_takesSlash (avoids_of_plainCaptures hplain) hts hmoretakes]
          exact count_le_of_divides (avoids_of_plainCaptures hplain) hss
        rcases eq_or_length_lt htext hmore hcount with heq | hlt
        · exact hsame hps heq
        · exact .inr (.here hlt)
    | optionalSlash =>
      obtain rfl : ps = [] := hparts
      rw [(divides_nil_iff.1 hts).2, (divides_nil_iff.1 hss).2, List.append_nil,
        List.append_nil] at htext
      exact hsame trivial htext.symm

/-- Pieces that fall apart divide a text that they make up into what it was made of. -/
theorem firstSplit_eq_of_fallsApart {pieces : List Piece} {d : List (List Char)}
    {text : List Char} (hparts : FallsApart pieces) (hd : Divides pieces d text)
    (htakes : TakesSlash pieces d) : firstSplit pieces text = some d :=
  firstSplit_eq_some_iff.2 ⟨hd, fun _ he => eq_or_precedes_of_divides hparts hd htakes he⟩

end UrlRouting
