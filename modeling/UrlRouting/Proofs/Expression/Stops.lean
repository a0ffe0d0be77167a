import Mathlib.Data.List.Induction
import UrlRouting.Expression.Search

/-
  What the stops of an expression are, without the stops.
  `Takes` says that an expression goes on by certain lengths of the text ahead, in an order, and
  marks no group; it is carried from parts to a whole (`takes_seq`, `takes_alt`). Only the first
  stop at a place is kept, which is no loss: whatever looks for a stop by its place finds the same
  one (`findSome?_firstStops`).
-/

namespace UrlRouting.Expression

/-! ## Stops -/

namespace Stop

/-- The stop so many characters behind a stop. -/
def advance (s : Stop) (n : Nat) : Stop := { s with pos := s.pos + n }

@[simp] theorem advance_pos (s : Stop) (n : Nat) : (s.advance n).pos = s.pos + n := rfl

@[simp] theorem advance_spans (s : Stop) (n : Nat) : (s.advance n).spans = s.spans := rfl

@[simp] theorem advance_zero (s : Stop) : s.advance 0 = s := rfl

@[simp] theorem advance_advance (s : Stop) (n m : Nat) :
    (s.advance n).advance m = s.advance (n + m) := by
  simp [advance, Nat.add_assoc]

theorem eq_of_pos_eq {s t : Stop} (hpos : s.pos = t.pos) (hspans : s.spans = t.spans) : s = t := by
  cases s
  cases t
  exact congrArg₂ Stop.mk hpos hspans

end Stop

/-! ## The first stops -/

theorem firstStops_concat (stops : List Stop) (s : Stop) :
    firstStops (stops ++ [s]) =
      if (firstStops stops).any (·.pos = s.pos) then firstStops stops
      else firstStops stops ++ [s] := by
  simp only [firstStops, List.foldl_append, List.foldl_cons, List.foldl_nil, List.any_reverse]
  split
  · rfl
  · exact List.reverse_cons

theorem mem_of_mem_firstStops {stops : List Stop} {s : Stop} (h : s ∈ firstStops stops) :
    s ∈ stops := by
  induction stops using List.reverseRecOn with
  | nil => cases h
  | append_singleton stops t ih =>
    rw [firstStops_concat] at h
    split at h
    · exact List.mem_append_left _ (ih h)
    · rcases List.mem_append.1 h with h | h
      · exact List.mem_append_left _ (ih h)
      · exact List.mem_append_right _ h

/-- A stop whose place is taken finds nothing that the stop before it does not. -/
theorem findSome?_firstStops {β : Type} {k : Stop → Option β} {stops : List Stop}
    (hk : ∀ s ∈ stops, ∀ t ∈ stops, s.pos = t.pos → k s = none → k t = none) :
    (firstStops stops).findSome? k = stops.findSome? k := by
  induction stops using List.reverseRecOn with
  | nil => rfl
  | append_singleton stops t ih =>
    have hk' : ∀ s ∈ stops, ∀ u ∈ stops, s.pos = u.pos → k s = none → k u = none :=
      fun s hs u hu => hk s (List.mem_append_left _ hs) u (List.mem_append_left _ hu)
    rw [firstStops_concat]
    split
    next htaken =>
      obtain ⟨s, hs, hpos⟩ := List.any_eq_true.1 htaken
      have hs' := mem_of_mem_firstStops hs
      rw [ih hk', List.findSome?_append]
      cases hfound : stops.findSome? k with
      | some b => rfl
      | none =>
        have hnone := hk s (List.mem_append_left _ hs') t (by simp) (of_decide_eq_true hpos)
          (List.findSome?_eq_none_iff.1 hfound s hs')
        simp [hnone]
    · rw [List.findSome?_append, List.findSome?_append, ih hk']

/-- No stop is left out where all places differ. -/
theorem firstStops_of_pairwise {stops : List Stop} (h : stops.Pairwise (·.pos ≠ ·.pos)) :
    firstStops stops = stops := by
  induction stops using List.reverseRecOn with
  | nil => rfl
  | append_singleton stops t ih =>
    obtain ⟨hstops, -, hlast⟩ := List.pairwise_append.1 h
    rw [firstStops_concat, ih hstops, if_neg]
    intro htaken
    obtain ⟨s, hs, hpos⟩ := List.any_eq_true.1 htaken
    exact hlast s hs t (by simp) (of_decide_eq_true hpos)

theorem firstStops_singleton (s : Stop) : firstStops [s] = [s] := rfl

theorem head?_firstStops (stops : List Stop) : (firstStops stops).head? = stops.head? := by
  have hhead : ∀ stops : List Stop, stops.head? = stops.findSome? some := by
    intro stops
    cases stops <;> rfl
  rw [hhead, hhead, findSome?_firstStops]
  intro s _ t _ _ hnone
  cases hnone

theorem firstStops_map_advance {ns : List Nat} (h : ns.Nodup) (s : Stop) :
    firstStops (ns.map s.advance) = ns.map s.advance := by
  apply firstStops_of_pairwise
  rw [List.pairwise_map]
  refine h.imp ?_
  intro n m hne hpos
  exact hne (Nat.add_left_cancel hpos)

/-! ## Lengths -/

/-- Whether an expression goes on by these lengths of the text ahead, in their order, and marks no
group. A length may come up more than once. -/
def Takes (e : Expression) (lengths : List Char → List Nat) : Prop :=
  ∀ (text : List Char) (s : Stop), (∀ t ∈ ends text.toArray e s, t.spans = s.spans) ∧
    ∀ {β : Type} (k : Stop → Option β), (ends text.toArray e s).findSome? k =
      (lengths (text.drop s.pos)).findSome? fun n => k (s.advance n)

theorem takes_of_eq {e : Expression} {lengths : List Char → List Nat}
    (h : ∀ (text : List Char) (s : Stop),
      ends text.toArray e s = (lengths (text.drop s.pos)).map s.advance) : Takes e lengths := by
  intro text s
  rw [h]
  refine ⟨?_, ?_⟩
  · intro t ht
    obtain ⟨n, -, rfl⟩ := List.mem_map.1 ht
    rfl
  · intro β k
    exact List.findSome?_map

theorem findSome?_flatMap {α β γ : Type} (xs : List α) (f : α → List β) (k : β → Option γ) :
    (xs.flatMap f).findSome? k = xs.findSome? fun x => (f x).findSome? k := by
  induction xs with
  | nil => rfl
  | cons x xs ih =>
    rw [List.flatMap_cons, List.findSome?_append, List.findSome?_cons, ih]
    cases (f x).findSome? k <;> rfl

theorem Takes.congr {e : Expression} {f g : List Char → List Nat} (h : Takes e f)
    (hfg : ∀ text, f text = g text) : Takes e g :=
  funext hfg ▸ h

/-- Stops with the same spans differ in their places, so that none of them is lost. -/
theorem findSome?_firstStops_of_spans {β : Type} {stops : List Stop}
    {spans : List (List Char × Nat × Nat)} (h : ∀ t ∈ stops, t.spans = spans)
    (k : Stop → Option β) : (firstStops stops).findSome? k = stops.findSome? k := by
  apply findSome?_firstStops
  intro s hs t ht hpos hnone
  rw [← Stop.eq_of_pos_eq hpos ((h s hs).trans (h t ht).symm)]
  exact hnone

theorem ends_literal (cs text : List Char) (s : Stop) :
    ends text.toArray (.literal cs) s =
      if cs.isPrefixOf (text.drop s.pos) then [s.advance cs.length] else [] := by
  have hprefix : cs.isPrefixOf (text.toArray.extract s.pos (s.pos + cs.length)).toList =
      cs.isPrefixOf (text.drop s.pos) := by
    rw [Bool.eq_iff_iff, List.isPrefixOf_iff_prefix, List.isPrefixOf_iff_prefix,
      Array.toList_extract, List.extract_eq_take_drop, Nat.add_sub_cancel_left,
      List.prefix_take_iff]
    exact and_iff_left (Nat.le_refl _)
  rw [ends, hprefix]
  rfl

theorem takes_literal (cs : List Char) :
    Takes (.literal cs) fun text => if cs.isPrefixOf text then [cs.length] else [] := by
  apply takes_of_eq
  intro text s
  rw [ends_literal]
  split <;> rfl

theorem takes_seq {a b : Expression} {f g : List Char → List Nat} (ha : Takes a f)
    (hb : Takes b g) :
    Takes (.seq a b) fun text => (f text).flatMap fun n => (g (text.drop n)).map (n + ·) := by
  intro text s
  have hspans : ∀ t ∈ (ends text.toArray a s).flatMap (ends text.toArray b), t.spans = s.spans := by
    intro t ht
    obtain ⟨u, hu, ht⟩ := List.mem_flatMap.1 ht
    rw [(hb text u).1 t ht, (ha text s).1 u hu]
  refine ⟨fun t ht => hspans t (mem_of_mem_firstStops ht), ?_⟩
  intro β k
  show (firstStops _).findSome? k = _
  rw [findSome?_firstStops_of_spans hspans, findSome?_flatMap, findSome?_flatMap, (ha text s).2]
  congr 1
  funext n
  rw [(hb text _).2, List.findSome?_map, Stop.advance_pos, ← List.drop_drop]
  simp only [Stop.advance_advance, Function.comp_def]

theorem takes_alt {a b : Expression} {f g : List Char → List Nat} (ha : Takes a f)
    (hb : Takes b g) : Takes (.alt a b) fun text => f text ++ g text := by
  intro text s
  have hspans : ∀ t ∈ ends text.toArray a s ++ ends text.toArray b s, t.spans = s.spans := by
    intro t ht
    rcases List.mem_append.1 ht with ht | ht
    · exact (ha text s).1 t ht
    · exact (hb text s).1 t ht
  refine ⟨fun t ht => hspans t (mem_of_mem_firstStops ht), ?_⟩
  intro β k
  show (firstStops _).findSome? k = _
  rw [findSome?_firstStops_of_spans hspans, List.findSome?_append, List.findSome?_append,
    (ha text s).2, (hb text s).2]

/-! ## The best stop -/

theorem head?_ends_seq (a b : Expression) (text : Array Char) (s : Stop) :
    (ends text (.seq a b) s).head? = (ends text a s).findSome? fun t => (ends text b t).head? := by
  show (firstStops _).head? = _
  rw [head?_firstStops, List.head?_flatMap]

theorem ends_literal_append (cs ds text : List Char) (s : Stop) :
    ends text.toArray (.literal (cs ++ ds)) s =
      (ends text.toArray (.literal cs) s).flatMap (ends text.toArray (.literal ds)) := by
  have hprefix : (cs ++ ds).isPrefixOf (text.drop s.pos) = true ↔
      cs.isPrefixOf (text.drop s.pos) = true ∧
        ds.isPrefixOf (text.drop (s.pos + cs.length)) = true := by
    simp only [List.isPrefixOf_iff_prefix, ← List.drop_drop]
    constructor
    · rintro ⟨rest, hrest⟩
      rw [← hrest, List.append_assoc, List.drop_left]
      exact ⟨List.prefix_append _ _, List.prefix_append _ _⟩
    · rintro ⟨⟨rest, hrest⟩, hds⟩
      rw [← hrest, List.drop_left] at hds
      rw [← hrest]
      exact (List.prefix_append_right_inj cs).2 hds
  simp only [ends_literal, hprefix]
  split
  next h => simp [ends_literal, h.1, h.2]
  next h =>
    split
    next hcs =>
      have hds := fun hds => h ⟨hcs, hds⟩
      rw [List.flatMap_singleton, ends_literal, Stop.advance_pos, if_neg hds]
    · rfl

/-- Texts that touch become one, which is the same as going through them in turn. -/
theorem head?_ends_append (a b : Expression) (text : List Char) (s : Stop) :
    (ends text.toArray (append a b) s).head? =
      (ends text.toArray a s).findSome? fun t => (ends text.toArray b t).head? := by
  have hnil : ∀ t : Stop, ends text.toArray (.literal []) t = [t] := by
    intro t
    simp [ends_literal]
  unfold append
  split
  · rw [hnil, List.findSome?_singleton]
  · simp only [hnil]
    cases ends text.toArray _ s <;> rfl
  · rw [ends_literal_append, List.head?_flatMap]
  · rw [head?_ends_seq, ends_literal_append, findSome?_flatMap]
    simp only [head?_ends_seq]
  · exact head?_ends_seq _ _ _ s

end UrlRouting.Expression
