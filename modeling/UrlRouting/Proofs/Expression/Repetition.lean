import Mathlib.Data.List.Nodup
import UrlRouting.Proofs.Converter.Language
import UrlRouting.Proofs.Expression.Stops

/-
  Repetitions of single characters.
  The step goes on by one character of a kind, so that the places of a repetition are those of a run
  of such characters and none of them comes up twice. Whatever its bounds and its order, a
  repetition stops after each number of characters that is within the bounds and the run
  (`repeated_singleStep`).
-/

namespace UrlRouting.Expression

/-- The numbers in the order in which a repetition tries them; they are given from the least on. -/
def ordered (greedy : Bool) (ns : List Nat) : List Nat := if greedy then ns.reverse else ns

/-- Goes on by a character that satisfies `p`. -/
def singleStep (text : List Char) (p : Char → Bool) (s : Stop) : List Stop :=
  if (text[s.pos]?).any p then [s.advance 1] else []

/-! ## Orders -/

theorem nodup_ordered {greedy : Bool} {ns : List Nat} (h : ns.Nodup) :
    (ordered greedy ns).Nodup := by
  unfold ordered
  split
  · exact List.nodup_reverse.2 h
  · exact h

theorem nodup_upward (low high : Nat) : (upward low high).Nodup :=
  (pairwise_upward low high).imp Nat.ne_of_lt

theorem upward_of_lt {low high : Nat} (h : high < low) : upward low high = [] := by
  unfold upward
  rw [Nat.sub_eq_zero_of_le h]
  rfl

theorem upward_of_le {low high : Nat} (h : low ≤ high) :
    upward low high = low :: upward (low + 1) high := by
  unfold upward
  rw [show high + 1 - low = high + 1 - (low + 1) + 1 by omega]
  rfl

theorem downward_of_lt {high low : Nat} (h : high < low) : downward high low = [] := by
  unfold downward
  rw [upward_of_lt h]
  rfl

theorem downward_succ {high low : Nat} (h : low ≤ high + 1) :
    downward (high + 1) low = (high + 1) :: downward high low := by
  unfold downward upward
  rw [show high + 1 + 1 - low = high + 1 - low + 1 by omega, List.range'_1_concat,
    List.reverse_append, List.reverse_singleton, show low + (high + 1 - low) = high + 1 by omega]
  rfl

theorem map_add_upward (k low high : Nat) :
    (upward low high).map (k + ·) = upward (k + low) (k + high) := by
  unfold upward
  rw [List.map_add_range', show k + high + 1 - (k + low) = high + 1 - low by omega]

theorem map_ordered_advance (greedy : Bool) (ns : List Nat) (s : Stop) (k : Nat) :
    (ordered greedy ns).map (s.advance k).advance =
      (ordered greedy (ns.map (k + ·))).map s.advance := by
  cases greedy <;> simp [ordered, Function.comp_def]

/-- A repetition that may stop here or go on has the stop here at the end of its order or at the
start, as it is greedy or lazy. -/
theorem arrange_map_advance (greedy : Bool) (ns : List Nat) (s : Stop) :
    arrange greedy s ((ordered greedy ns).map s.advance) =
      (ordered greedy (0 :: ns)).map s.advance := by
  cases greedy <;> simp [arrange, ordered]

theorem inTurn_singleton {σ : Type} (go : σ → Stop → σ × List Stop) (record : σ) (s : Stop) :
    inTurn go record [s] = go record s := rfl

/-! ## Runs -/

section

variable {text : List Char} {p : Char → Bool} {s : Stop}

theorem runLength_drop {n : Nat} {text : List Char} (h : n ≤ runLength p text) :
    runLength p (text.drop n) = runLength p text - n := by
  induction n generalizing text with
  | zero => rfl
  | succ n ih =>
    cases text with
    | nil => cases h
    | cons c text =>
      unfold runLength at *
      by_cases hc : p c = true
      · rw [List.takeWhile_cons_of_pos hc, List.length_cons] at h ⊢
        rw [List.drop_succ_cons, ih (Nat.le_of_succ_le_succ h), Nat.add_sub_add_right]
      · rw [List.takeWhile_cons_of_neg hc] at h
        cases h

theorem singleStep_of_pos (h : 0 < runLength p (text.drop s.pos)) :
    singleStep text p s = [s.advance 1] := by
  unfold singleStep
  rw [if_pos]
  rw [← List.head?_drop]
  unfold runLength at h
  cases hdrop : text.drop s.pos with
  | nil => simp [hdrop] at h
  | cons c rest =>
    rw [hdrop, List.takeWhile_cons] at h
    by_cases hc : p c = true
    · exact hc
    · simp [hc] at h

theorem singleStep_of_not_pos (h : ¬ 0 < runLength p (text.drop s.pos)) :
    singleStep text p s = [] := by
  unfold singleStep
  rw [if_neg]
  rw [← List.head?_drop]
  intro hany
  apply h
  cases hdrop : text.drop s.pos with
  | nil => simp [hdrop] at hany
  | cons c rest =>
    rw [hdrop] at hany
    have hc : p c = true := hany
    simp [runLength, hc]

theorem exactly_nil (step : Stop → List Stop) (n : Nat) : exactly step n [] = [] := by
  induction n with
  | zero => rfl
  | succ n ih => exact ih

theorem exactly_singleStep (n : Nat) : exactly (singleStep text p) n [s] =
    if n ≤ runLength p (text.drop s.pos) then [s.advance n] else [] := by
  induction n generalizing s with
  | zero => simp [exactly]
  | succ n ih =>
    have hstep : thenEach (singleStep text p) [s] = firstStops (singleStep text p s) := by
      simp [thenEach]
    rw [exactly, hstep]
    by_cases hpos : 0 < runLength p (text.drop s.pos)
    · have hrun := runLength_drop (Nat.succ_le_of_lt hpos)
      rw [List.drop_drop] at hrun
      rw [singleStep_of_pos hpos, firstStops_singleton, ih, Stop.advance_pos, hrun,
        Stop.advance_advance, Nat.add_comm 1]
      congr 1
      simp only [eq_iff_iff]
      omega
    · rw [singleStep_of_not_pos hpos, if_neg (by omega)]
      exact exactly_nil _ n

/-- The record plays no part: a place never comes up twice. -/
theorem upTo_singleStep (greedy : Bool) (n : Nat) {visited : List (Nat × Nat)}
    (hvisited : ∀ v ∈ visited, v.2 < s.pos) :
    (upTo (singleStep text p) greedy n visited s).2 =
      (ordered greedy (upward 0 (Nat.min n (runLength p (text.drop s.pos))))).map s.advance := by
  induction n generalizing s visited with
  | zero => cases greedy <;> simp [upTo, ordered, upward]
  | succ n ih =>
    have hnew : (n, s.pos) ∉ visited := fun hmem => Nat.lt_irrefl _ (hvisited _ hmem)
    rw [upTo, if_neg hnew]
    by_cases hpos : 0 < runLength p (text.drop s.pos)
    · have hrun := runLength_drop (Nat.succ_le_of_lt hpos)
      rw [List.drop_drop] at hrun
      have hvisited' : ∀ v ∈ (n, s.pos) :: visited, v.2 < (s.advance 1).pos := by
        intro v hv
        rcases List.mem_cons.1 hv with rfl | hv
        · exact Nat.lt_succ_self _
        · exact Nat.lt_succ_of_lt (hvisited v hv)
      have hlater := ih hvisited'
      rw [Stop.advance_pos, hrun, map_ordered_advance, map_add_upward] at hlater
      rw [singleStep_of_pos hpos, inTurn_singleton]
      show arrange greedy s (upTo (singleStep text p) greedy n _ (s.advance 1)).2 = _
      rw [hlater, arrange_map_advance, upward_of_le (Nat.zero_le _)]
      congr 4
      simp only [Nat.min_def]
      split <;> split <;> omega
    · rw [singleStep_of_not_pos hpos, Nat.eq_zero_of_not_pos hpos]
      show arrange greedy s [] = _
      cases greedy <;> simp [arrange, ordered, upward]

theorem onceOrMore_singleStep (greedy : Bool) {fuel : Nat} {visited : Visited}
    (hstarts : ∀ n ∈ visited.starts, n < s.pos) (hjoints : ∀ n ∈ visited.joints, n ≤ s.pos)
    (hfuel : runLength p (text.drop s.pos) < fuel) :
    (onceOrMore (singleStep text p) greedy fuel visited s).2 =
      (ordered greedy (upward 1 (runLength p (text.drop s.pos)))).map s.advance := by
  induction fuel generalizing s visited with
  | zero => cases hfuel
  | succ fuel ih =>
    have hnew : s.pos ∉ visited.starts := fun hmem => Nat.lt_irrefl _ (hstarts _ hmem)
    rw [onceOrMore, if_neg hnew]
    by_cases hpos : 0 < runLength p (text.drop s.pos)
    · have hrun := runLength_drop (Nat.succ_le_of_lt hpos)
      rw [List.drop_drop] at hrun
      have hjoint : (s.advance 1).pos ∉ visited.joints :=
        fun hmem => Nat.not_succ_le_self _ (hjoints _ hmem)
      have hlater := @ih (s.advance 1)
        ⟨s.pos :: visited.starts, (s.advance 1).pos :: visited.joints⟩
        (List.forall_mem_cons.2 ⟨Nat.lt_succ_self _, fun n hn => Nat.lt_succ_of_lt (hstarts n hn)⟩)
        (List.forall_mem_cons.2 ⟨Nat.le_refl _, fun n hn => Nat.le_succ_of_le (hjoints n hn)⟩)
        (by rw [Stop.advance_pos, hrun]; omega)
      rw [singleStep_of_pos hpos, inTurn_singleton, if_neg hjoint]
      show arrange greedy (s.advance 1)
        (onceOrMore (singleStep text p) greedy fuel _ (s.advance 1)).2 = _
      rw [hlater, arrange_map_advance, map_ordered_advance, Stop.advance_pos, hrun, List.map_cons,
        map_add_upward, upward_of_le hpos]
      congr 4
      omega
    · rw [singleStep_of_not_pos hpos, upward_of_lt (by omega)]
      cases greedy <;> rfl

/-! ## Repetitions -/

/-- A repetition of single characters stops after each number of them that is within its bounds
and within the run of such characters. -/
theorem repeated_singleStep (greedy : Bool) {fuel min : Nat} {max : Option Nat}
    (hmax : ∀ m, max = some m → min ≤ m) (hfuel : runLength p (text.drop s.pos) < fuel) :
    repeated (singleStep text p) greedy fuel min max s =
      (ordered greedy (upward min ((max.map (Nat.min (runLength p (text.drop s.pos)))).getD
        (runLength p (text.drop s.pos))))).map s.advance := by
  cases max with
  | some m =>
    have hle := hmax m rfl
    simp only [repeated, exactly_singleStep, Option.map_some, Option.getD_some]
    split
    next hrun =>
      have hdrop := runLength_drop hrun
      rw [List.drop_drop] at hdrop
      rw [inTurn_singleton, upTo_singleStep greedy (m - min) (by simp), Stop.advance_pos, hdrop,
        map_ordered_advance, map_add_upward,
        firstStops_map_advance (nodup_ordered (nodup_upward _ _))]
      congr 3
      simp only [Nat.min_def]
      split <;> split <;> omega
    next hrun =>
      rw [upward_of_lt (Nat.lt_of_le_of_lt (Nat.min_le_left _ _) (Nat.lt_of_not_le hrun))]
      cases greedy <;> rfl
  | none =>
    simp only [Option.map_none, Option.getD_none]
    cases min with
    | zero =>
      simp only [repeated, inTurn_singleton]
      rw [onceOrMore_singleStep greedy (by simp) (by simp) hfuel, arrange_map_advance,
        ← upward_of_le (Nat.zero_le _),
        firstStops_map_advance (nodup_ordered (nodup_upward _ _))]
    | succ min =>
      simp only [repeated, exactly_singleStep]
      split
      next hrun =>
        have hdrop := runLength_drop hrun
        rw [List.drop_drop] at hdrop
        rw [inTurn_singleton, onceOrMore_singleStep greedy (by simp) (by simp) ?_,
          Stop.advance_pos, hdrop, map_ordered_advance, map_add_upward]
        · congr 3
          omega
        · rw [Stop.advance_pos, hdrop]
          omega
      next hrun =>
        rw [upward_of_lt (by omega)]
        cases greedy <;> rfl

end

theorem takes_times {e : Expression} {p : Char → Bool} (greedy : Bool) {min : Nat}
    {max : Option Nat} (hmax : ∀ m, max = some m → min ≤ m)
    (hstep : ∀ text : List Char, ends text.toArray e = singleStep text p) :
    Takes (.times min max greedy e) fun text => ordered greedy (upward min
      ((max.map (Nat.min (runLength p text))).getD (runLength p text))) := by
  apply takes_of_eq
  intro text s
  have hfuel : runLength p (text.drop s.pos) < text.toArray.size + 2 := by
    have hrun := runLength_le_length p (text.drop s.pos)
    rw [List.length_drop] at hrun
    rw [List.size_toArray]
    omega
  rw [ends, hstep]
  exact repeated_singleStep greedy hmax hfuel

end UrlRouting.Expression
