import Mathlib.Data.List.Induction

/-
  Sorting by a key, where elements with the same key keep their order.
  Two lists that are in order are equal when they have the same elements of each key in the same
  order (`eq_of_filter_sameKey`); a stable sort changes no such order (`filter_mergeSort`), so lists
  that agree on every key are sorted to the same list (`mergeSort_eq_of_filter_sameKey`). They agree
  on every key where one is the other rearranged with ties kept (`KeepsTies.filter_eq`).
-/

namespace UrlRouting.KeyedSort

variable {α κ : Type} [Ord κ]

/-- Whether the first element may stand before the second. -/
def keyLE (key : α → κ) (a b : α) : Bool := (compare (key a) (key b)).isLE

/-- Whether two elements have keys that compare as equal. -/
def sameKey (key : α → κ) (a b : α) : Bool := keyLE key a b && keyLE key b a

/-! ## Keys -/

section Keys

variable [Std.TransOrd κ] (key : α → κ)

theorem keyLE_trans (a b c : α) (h1 : keyLE key a b) (h2 : keyLE key b c) : keyLE key a c :=
  Std.TransCmp.isLE_trans h1 h2

theorem keyLE_total (a b : α) : keyLE key a b || keyLE key b a := by
  have hswap : compare (key b) (key a) = (compare (key a) (key b)).swap := Std.OrientedCmp.eq_swap
  unfold keyLE
  rw [hswap]
  cases compare (key a) (key b) <;> rfl

theorem keyLE_of_not_keyLE {a b : α} (h : ¬ keyLE key a b) : keyLE key b a := by
  have ht := keyLE_total key a b
  simpa [h] using ht

theorem sameKey_self (a : α) : sameKey key a a := by
  have ht := keyLE_total key a a
  simpa [sameKey] using ht

/-- Where only equal keys compare as equal, two elements have the same key when they do. -/
theorem sameKey_iff [Std.LawfulEqOrd κ] {a b : α} : sameKey key a b ↔ key a = key b := by
  have hswap : compare (key b) (key a) = (compare (key a) (key b)).swap := Std.OrientedCmp.eq_swap
  rw [← Std.compare_eq_iff_eq (a := key a) (b := key b)]
  unfold sameKey keyLE
  rw [hswap]
  cases compare (key a) (key b) <;> simp

end Keys

/-! ## Lists in order -/

section Ordered

variable [Std.TransOrd κ] {key : α → κ}

theorem mem_iff_of_filter_sameKey {xs ys : List α}
    (h : ∀ a, xs.filter (sameKey key a) = ys.filter (sameKey key a)) (a : α) : a ∈ xs ↔ a ∈ ys := by
  have e : a ∈ xs.filter (sameKey key a) ↔ a ∈ ys.filter (sameKey key a) := by rw [h a]
  simpa [List.mem_filter, sameKey_self] using e

theorem keyLE_of_mem_cons {a b : α} {rest : List α} (h : ∀ c ∈ rest, keyLE key a c)
    (hb : b ∈ a :: rest) : keyLE key a b := by
  rcases List.mem_cons.1 hb with rfl | hb
  · simpa [sameKey] using sameKey_self key b
  · exact h b hb

/-- Two lists in order that agree on every key are equal. -/
theorem eq_of_filter_sameKey {xs ys : List α} (hx : xs.Pairwise fun a b => keyLE key a b)
    (hy : ys.Pairwise fun a b => keyLE key a b)
    (h : ∀ a, xs.filter (sameKey key a) = ys.filter (sameKey key a)) : xs = ys := by
  induction xs generalizing ys with
  | nil =>
    cases ys with
    | nil => rfl
    | cons y ys =>
      have hmem := (mem_iff_of_filter_sameKey h y).2 List.mem_cons_self
      simp at hmem
  | cons x xs ih =>
    cases ys with
    | nil =>
      have hmem := (mem_iff_of_filter_sameKey h x).1 List.mem_cons_self
      simp at hmem
    | cons y ys =>
      obtain ⟨hx1, hx2⟩ := List.pairwise_cons.1 hx
      obtain ⟨hy1, hy2⟩ := List.pairwise_cons.1 hy
      have hxy : keyLE key x y :=
        keyLE_of_mem_cons hx1 ((mem_iff_of_filter_sameKey h y).2 List.mem_cons_self)
      have hyx : keyLE key y x :=
        keyLE_of_mem_cons hy1 ((mem_iff_of_filter_sameKey h x).1 List.mem_cons_self)
      have hsame : sameKey key x y := by simp [sameKey, hxy, hyx]
      -- both heads are the first of their key
      have hheads := h x
      rw [List.filter_cons_of_pos (sameKey_self key x), List.filter_cons_of_pos hsame] at hheads
      obtain rfl : x = y := (List.cons.inj hheads).1
      rw [ih hx2 hy2]
      intro a
      have ha := h a
      by_cases hax : sameKey key a x
      · rw [List.filter_cons_of_pos hax, List.filter_cons_of_pos hax] at ha
        exact (List.cons.inj ha).2
      · rw [List.filter_cons_of_neg hax, List.filter_cons_of_neg hax] at ha
        exact ha

end Ordered

/-! ## The stable sort -/

/-- Elements that are in order keep their order. -/
theorem filter_mergeSort_of_pairwise {le : α → α → Bool}
    (htrans : ∀ a b c, le a b → le b c → le a c) (htotal : ∀ a b, le a b || le b a) {xs : List α}
    {p : α → Bool} (h : (xs.filter p).Pairwise fun a b => le a b) :
    (xs.mergeSort le).filter p = xs.filter p := by
  have hsub : (xs.filter p).Sublist (xs.mergeSort le) :=
    List.sublist_mergeSort htrans htotal h List.filter_sublist
  have hsub2 := hsub.filter p
  rw [List.filter_filter] at hsub2
  simp only [Bool.and_self] at hsub2
  have hlen := ((List.mergeSort_perm xs le).filter p).length_eq
  exact (hsub2.eq_of_length hlen.symm).symm

section Sorting

variable [Std.TransOrd κ] {key : α → κ}

theorem filter_mergeSort (xs : List α) (a : α) :
    (xs.mergeSort (keyLE key)).filter (sameKey key a) = xs.filter (sameKey key a) := by
  refine filter_mergeSort_of_pairwise (keyLE_trans key) (keyLE_total key) ?_
  refine List.pairwise_of_forall_mem_list fun x hx y hy => ?_
  have h1 := (List.mem_filter.1 hx).2
  have h2 := (List.mem_filter.1 hy).2
  simp only [sameKey, Bool.and_eq_true] at h1 h2
  exact keyLE_trans key x a y h1.2 h2.1

/-- A list in order that agrees with another on every key is the other, sorted. -/
theorem eq_mergeSort_of_filter_sameKey {xs ys : List α}
    (hx : xs.Pairwise fun a b => keyLE key a b)
    (h : ∀ a, xs.filter (sameKey key a) = ys.filter (sameKey key a)) :
    xs = ys.mergeSort (keyLE key) := by
  refine eq_of_filter_sameKey hx ?_ fun a => ?_
  · exact List.pairwise_mergeSort (keyLE_trans key) (keyLE_total key) ys
  · rw [h, filter_mergeSort]

theorem mergeSort_eq_of_filter_sameKey {xs ys : List α}
    (h : ∀ a, xs.filter (sameKey key a) = ys.filter (sameKey key a)) :
    xs.mergeSort (keyLE key) = ys.mergeSort (keyLE key) := by
  refine eq_mergeSort_of_filter_sameKey ?_ fun a => ?_
  · exact List.pairwise_mergeSort (keyLE_trans key) (keyLE_total key) xs
  · rw [filter_mergeSort, h]

end Sorting

/-! ## Rearrangements -/

/-- Whether the second list is the first rearranged, with elements of the same key left in their
order. Elements are told apart by their places in the first list. -/
def KeepsTies {β : Type} (key : α → β) (xs ys : List α) : Prop :=
  ∃ places : List (α × Nat), places.Perm xs.zipIdx ∧ ys = places.map Prod.fst ∧
    places.Pairwise fun a b => key a.1 = key b.1 → a.2 < b.2

namespace KeepsTies

variable {β : Type} {key : α → β} {xs ys : List α}

theorem perm (h : KeepsTies key xs ys) : xs.Perm ys := by
  obtain ⟨places, hperm, rfl, -⟩ := h
  have hmap := hperm.map Prod.fst
  rw [List.zipIdx_map_fst] at hmap
  exact hmap.symm

/-- The elements of a key stand in the same order in both lists. -/
theorem filter_eq [DecidableEq β] (h : KeepsTies key xs ys) (k : β) :
    xs.filter (key · = k) = ys.filter (key · = k) := by
  obtain ⟨places, hperm, rfl, hties⟩ := h
  have hmap : ∀ ps : List (α × Nat), (ps.map Prod.fst).filter (key · = k) =
      (ps.filter fun e => key e.1 = k).map Prod.fst := fun ps => List.filter_map
  have hkey : ∀ {ps : List (α × Nat)}, ∀ e ∈ ps.filter fun e => key e.1 = k, key e.1 = k :=
    fun e he => of_decide_eq_true (List.mem_filter.1 he).2
  have hplaces : (places.filter fun e => key e.1 = k).Pairwise fun a b => a.2 < b.2 := by
    refine (hties.filter _).imp_of_mem fun ha hb hlt => hlt ?_
    rw [hkey _ ha, hkey _ hb]
  have hzip : (xs.zipIdx.filter fun e => key e.1 = k).Pairwise fun a b => a.2 < b.2 := by
    refine List.Pairwise.filter _ ?_
    have hlt : (xs.zipIdx.map Prod.snd).Pairwise (· < ·) := by
      rw [List.zipIdx_map_snd]
      exact List.pairwise_lt_range'
    exact List.pairwise_map.1 hlt
  have hsame : places.filter (fun e => key e.1 = k) = xs.zipIdx.filter fun e => key e.1 = k :=
    (hperm.filter _).eq_of_pairwise
      (fun a b _ _ hab hba => absurd hab (Nat.lt_asymm hba)) hplaces hzip
  rw [hmap, hsame, ← hmap, List.zipIdx_map_fst]

end KeepsTies

end UrlRouting.KeyedSort
