import UrlRouting.Proofs.RouteTable.KeyedSort
import UrlRouting.RouteTable.StableIndex

/-
  A stable index is a stable sort. `ofPairs` is the index after a run of insertions, and
  `entries_ofPairs` says that it holds what `List.mergeSort` makes of the pairs in the order of
  the run. The entries are in non-decreasing order of rank (`ordered_ofPairs`) and keep the pairs of
  equal rank in the order of the run (`filter_ofPairs`), which leaves no choice.
  Bisection finds the place of a new entry because entries in order fall into two parts
  (`exists_partitioned`), and putting it there keeps them in order (`ordered_insert`).
-/

namespace UrlRouting.StableIndex

variable {κ : Type} [Ord κ]

/-- The index after inserting the pairs in turn. -/
def ofPairs (pairs : List (κ × RuleNumber)) : StableIndex κ :=
  pairs.foldl (fun index pair => index.insert pair.1 pair.2) empty

/-- Whether the first pair may stand before the second. -/
def rankLE (a b : κ × RuleNumber) : Bool := (compare a.1 b.1).isLE

/-- Whether two pairs have ranks that compare as equal. -/
def sameRank (a b : κ × RuleNumber) : Bool := rankLE a b && rankLE b a

/-- The entries are in non-decreasing order of rank. -/
def Ordered (index : StableIndex κ) : Prop := index.entries.Pairwise fun a b => rankLE a b

theorem ofPairs_append_singleton (pairs : List (κ × RuleNumber)) (pair : κ × RuleNumber) :
    ofPairs (pairs ++ [pair]) = (ofPairs pairs).insert pair.1 pair.2 := by
  simp [ofPairs]

/-! ## The place of a new entry -/

/-- A test that holds before `cut` and nowhere behind it holds no more at `cut`. -/
theorem bisect_eq {holds : Nat → Bool} {cut base size : Nat} (hbase : base ≤ cut)
    (hcut : cut ≤ base + size)
    (hholds : ∀ i, base ≤ i → i < base + size → (holds i = true ↔ i < cut)) :
    bisect holds base size = cut := by
  fun_induction bisect holds base size with
  | case1 base size _ hlast =>
    obtain ⟨rfl, hb⟩ := hlast
    have hlt : base < cut := (hholds base (Nat.le_refl base) (by omega)).1 hb
    omega
  | case2 base size hsmall hlast =>
    by_contra hne
    have hb : holds base = true := (hholds base (Nat.le_refl base) (by omega)).2 (by omega)
    exact hlast ⟨by omega, hb⟩
  | case3 base size hlarge half hm ih =>
    have hlt : base + half < cut := (hholds (base + half) (by omega) (by omega)).1 hm
    exact ih (by omega) (by omega) fun i hi hi' => hholds i (by omega) (by omega)
  | case4 base size hlarge half hm ih =>
    have hle : ¬ base + half < cut := fun hlt => hm ((hholds _ (by omega) (by omega)).2 hlt)
    exact ih hbase (by omega) fun i hi hi' => hholds i hi (by omega)

/-- The entries fall into those that stay before a new one of this rank and, behind them, those that
do not. -/
structure Partitioned (index : StableIndex κ) (rank : κ) (front back : List (κ × RuleNumber)) :
    Prop where
  entries_eq : index.entries = front ++ back
  front_precedes : ∀ e ∈ front, precedes rank e = true
  back_precedes : ∀ e ∈ back, precedes rank e = false

namespace Partitioned

variable {index : StableIndex κ} {rank : κ} {front back : List (κ × RuleNumber)}

theorem place_eq (h : index.Partitioned rank front back) : index.place rank = front.length := by
  unfold place
  rw [h.entries_eq, List.length_append]
  refine bisect_eq (Nat.zero_le _) (by omega) fun i _ hi => ?_
  rcases Nat.lt_or_ge i front.length with hlt | hge
  · rw [List.getElem?_append_left hlt, List.getElem?_eq_getElem hlt, Option.any_some]
    exact iff_of_true (h.front_precedes _ (List.getElem_mem hlt)) hlt
  · have hlt : i - front.length < back.length := by omega
    rw [List.getElem?_append_right hge, List.getElem?_eq_getElem hlt, Option.any_some,
      h.back_precedes _ (List.getElem_mem hlt)]
    exact iff_of_false Bool.false_ne_true (Nat.not_lt.2 hge)

theorem entries_insert (h : index.Partitioned rank front back) (number : RuleNumber) :
    (index.insert rank number).entries = front ++ (rank, number) :: back := by
  unfold insert
  rw [h.place_eq, h.entries_eq, List.take_left, List.drop_left]

end Partitioned

/-! ## Insertion -/

section Insertion

variable [Std.TransOrd κ]

/-- In an ordered index, everything from the first greater rank on is greater. -/
theorem not_precedes_of_mem_dropWhile {rank : κ} {entries : List (κ × RuleNumber)}
    (ho : entries.Pairwise fun a b => rankLE a b) {e : κ × RuleNumber}
    (h : e ∈ entries.dropWhile (precedes rank)) : ¬ precedes rank e := by
  induction entries with
  | nil => simp at h
  | cons a entries ih =>
    obtain ⟨ha, ho⟩ := List.pairwise_cons.1 ho
    rw [List.dropWhile_cons] at h
    split at h
    · exact ih ho h
    next hp =>
      rcases List.mem_cons.1 h with rfl | h
      · exact hp
      · intro he
        exact hp (Std.TransCmp.isLE_trans (ha e h) he)

theorem exists_partitioned {index : StableIndex κ} (ho : index.Ordered) (rank : κ) :
    ∃ front back, index.Partitioned rank front back :=
  ⟨index.entries.takeWhile (precedes rank), index.entries.dropWhile (precedes rank),
    List.takeWhile_append_dropWhile.symm, List.all_eq_true.1 List.all_takeWhile,
    fun _ he => Bool.eq_false_iff.2 (not_precedes_of_mem_dropWhile ho he)⟩

theorem ordered_insert {index : StableIndex κ} (ho : index.Ordered) (rank : κ)
    (number : RuleNumber) : (index.insert rank number).Ordered := by
  obtain ⟨front, back, h⟩ := exists_partitioned ho rank
  unfold Ordered at ho ⊢
  rw [h.entries_eq] at ho
  rw [h.entries_insert]
  obtain ⟨hfront, hback, hcross⟩ := List.pairwise_append.1 ho
  refine List.pairwise_append.2 ⟨hfront, List.pairwise_cons.2 ⟨?_, hback⟩, ?_⟩
  · intro e he
    have hgt : ¬ precedes rank e := Bool.eq_false_iff.1 (h.back_precedes e he)
    exact KeyedSort.keyLE_of_not_keyLE Prod.fst hgt
  · intro a ha b hb
    rcases List.mem_cons.1 hb with rfl | hb
    · exact h.front_precedes a ha
    · exact hcross a ha b hb

/-- A new pair comes behind those of its rank and leaves the others as they were. -/
theorem filter_insert {index : StableIndex κ} (ho : index.Ordered) (rank : κ)
    (number : RuleNumber) (a : κ × RuleNumber) :
    (index.insert rank number).entries.filter (sameRank a)
      = index.entries.filter (sameRank a) ++ [(rank, number)].filter (sameRank a) := by
  obtain ⟨front, back, h⟩ := exists_partitioned ho rank
  rw [h.entries_insert, h.entries_eq]
  simp only [List.filter_append, List.filter_cons, List.filter_nil]
  split
  next hsame =>
    -- what comes behind the new pair has a greater rank
    have hnone : back.filter (sameRank a) = [] := by
      refine List.filter_eq_nil_iff.2 fun e he hae => ?_
      have hgt : ¬ precedes rank e := Bool.eq_false_iff.1 (h.back_precedes e he)
      simp only [sameRank, Bool.and_eq_true] at hae hsame
      exact hgt (KeyedSort.keyLE_trans Prod.fst e a (rank, number) hae.2 hsame.1)
    simp [hnone]
  · simp

end Insertion

/-! ## The stable sort -/

/-- What an index is after a run of insertions, and what it does with the next. -/
structure SortsStably (pairs : List (κ × RuleNumber)) : Prop where
  perm : (ofPairs pairs).entries.Perm pairs
  nonDecreasing : (ofPairs pairs).ranks.Pairwise fun a b => (compare a b).isLE
  /-- Pairs whose ranks compare as equal are in the order of the run. -/
  ofRank : ∀ rank, ((ofPairs pairs).entries.filter fun e => compare e.1 rank = .eq) =
    pairs.filter fun e => compare e.1 rank = .eq
  numbers_eq : (ofPairs pairs).numbers = (pairs.mergeSort rankLE).map Prod.snd
  /-- The comparison that looks for the place of the next pair finds the entries in two parts: those
  that stay before it, and behind them those that do not. The pair goes between them. -/
  next : ∀ rank number, ∃ front back, (ofPairs pairs).Partitioned rank front back ∧
    (ofPairs pairs).place rank = front.length ∧
    (ofPairs (pairs ++ [(rank, number)])).entries = front ++ (rank, number) :: back

section Sorting

variable [Std.TransOrd κ]

theorem ordered_ofPairs (pairs : List (κ × RuleNumber)) : (ofPairs pairs).Ordered := by
  induction pairs using List.reverseRecOn with
  | nil => exact List.Pairwise.nil
  | append_singleton pairs pair ih =>
    rw [ofPairs_append_singleton]
    exact ordered_insert ih pair.1 pair.2

theorem filter_ofPairs (pairs : List (κ × RuleNumber)) (a : κ × RuleNumber) :
    (ofPairs pairs).entries.filter (sameRank a) = pairs.filter (sameRank a) := by
  induction pairs using List.reverseRecOn with
  | nil => rfl
  | append_singleton pairs pair ih =>
    rw [ofPairs_append_singleton, filter_insert (ordered_ofPairs pairs), ih, List.filter_append]

/-- The entries after a run of insertions are the stable sort of the run by rank. -/
theorem entries_ofPairs (pairs : List (κ × RuleNumber)) :
    (ofPairs pairs).entries = pairs.mergeSort rankLE :=
  KeyedSort.eq_mergeSort_of_filter_sameKey (ordered_ofPairs pairs) (filter_ofPairs pairs)

theorem sameRank_iff {a b : κ × RuleNumber} : sameRank a b ↔ compare b.1 a.1 = .eq := by
  have hswap : compare b.1 a.1 = (compare a.1 b.1).swap := Std.OrientedCmp.eq_swap
  unfold sameRank rankLE
  rw [hswap]
  cases compare a.1 b.1 <;> simp

theorem filter_eq_rank (rank : κ) (number : RuleNumber) (pairs : List (κ × RuleNumber)) :
    (pairs.filter fun e => compare e.1 rank = .eq) = pairs.filter (sameRank (rank, number)) := by
  congr 1
  funext e
  rw [Bool.eq_iff_iff, decide_eq_true_iff, sameRank_iff]

/-- Inserting pairs in turn sorts them stably. -/
theorem ofPairs_sorts_stably (pairs : List (κ × RuleNumber)) : SortsStably pairs where
  perm := by
    rw [entries_ofPairs]
    exact List.mergeSort_perm pairs rankLE
  nonDecreasing := List.pairwise_map.2 (ordered_ofPairs pairs)
  ofRank := by
    intro rank
    rw [filter_eq_rank rank ⟨0⟩, filter_eq_rank rank ⟨0⟩, filter_ofPairs]
  numbers_eq := by rw [numbers, entries_ofPairs]
  next := by
    intro rank number
    obtain ⟨front, back, h⟩ := exists_partitioned (ordered_ofPairs pairs) rank
    refine ⟨front, back, h, h.place_eq, ?_⟩
    rw [ofPairs_append_singleton, h.entries_insert]

/-- Two ranks with two pairs each, the greater rank first. -/
def tiedPairs : List (Nat × RuleNumber) := [(2, ⟨0⟩), (1, ⟨1⟩), (2, ⟨2⟩), (1, ⟨3⟩)]

theorem ofPairs_sorts_stably_tiedPairs :
    Std.TransOrd Nat ∧ (ofPairs tiedPairs).numbers = [⟨1⟩, ⟨3⟩, ⟨0⟩, ⟨2⟩] ∧
      (tiedPairs.mergeSort rankLE).map Prod.snd = [⟨1⟩, ⟨3⟩, ⟨0⟩, ⟨2⟩] ∧
        ∃ front back, (ofPairs tiedPairs).Partitioned 1 front back ∧
          (ofPairs tiedPairs).place 1 = front.length := by
  have hrun : (ofPairs tiedPairs).numbers = [⟨1⟩, ⟨3⟩, ⟨0⟩, ⟨2⟩] := by decide +kernel
  have hsorts := ofPairs_sorts_stably tiedPairs
  obtain ⟨front, back, hparts, hplace, -⟩ := hsorts.next 1 ⟨4⟩
  exact ⟨inferInstance, hrun, hsorts.numbers_eq.symm.trans hrun, front, back, hparts, hplace⟩

end Sorting

end UrlRouting.StableIndex
