import Mathlib.Data.List.Nodup
import UrlRouting.Converter.Declaration
import UrlRouting.Template.Parser

/-
  Which arguments a converter's parameters get.
  A call gives arguments by position to the first parameters and others to parameters by name
  (`gifts`). It is proper when every name is that of a parameter and no parameter is given two
  arguments; only then are the arguments assigned (`assign_eq_ok_iff`). What is assigned is the gifts
  in some order, so that a parameter has the same argument after any two calls with the same gifts
  (`lookup_eq_of_perm`).
-/

namespace UrlRouting.Arguments

variable {parameters : List String} {args args' : Arguments} {kind : Converter.Kind}

/-! ## Gifts -/

/-- The arguments of a call with the parameters that they are for. -/
def gifts (parameters : List String) (args : Arguments) : List (String × Argument) :=
  parameters.zip args.positional ++ args.keyword

/-- Whether a call gives arguments to parameters only, and to none of them two. -/
structure IsCall (parameters : List String) (args : Arguments) : Prop where
  fits : args.positional.length ≤ parameters.length
  declared : ∀ name ∈ args.keyword.map Prod.fst, name ∈ parameters
  once : (parameters.take args.positional.length ++ args.keyword.map Prod.fst).Nodup

theorem map_fst_zip_positional (parameters : List String) (positional : List Argument) :
    (parameters.zip positional).map Prod.fst = parameters.take positional.length := by
  induction parameters generalizing positional with
  | nil => simp
  | cons name parameters ih =>
    cases positional with
    | nil => rfl
    | cons value positional => simp [ih]

theorem map_fst_gifts (parameters : List String) (args : Arguments) :
    (gifts parameters args).map Prod.fst =
      parameters.take args.positional.length ++ args.keyword.map Prod.fst := by
  rw [gifts, List.map_append, map_fst_zip_positional]

theorem IsCall.nodup_gifts (h : IsCall parameters args) :
    ((gifts parameters args).map Prod.fst).Nodup := by
  rw [map_fst_gifts]
  exact h.once

/-- Calls with the same gifts are proper together, if their arguments by position fit. -/
theorem IsCall.of_perm (h : IsCall parameters args)
    (hperm : (gifts parameters args).Perm (gifts parameters args'))
    (hfits : args'.positional.length ≤ parameters.length) : IsCall parameters args' := by
  have hnames := hperm.map Prod.fst
  refine ⟨hfits, fun name hname => ?_, ?_⟩
  · have hgift : name ∈ (gifts parameters args').map Prod.fst := by
      rw [map_fst_gifts]
      exact List.mem_append_right _ hname
    have hmem := hnames.mem_iff.2 hgift
    rw [map_fst_gifts] at hmem
    rcases List.mem_append.1 hmem with hfront | hkeyword
    · exact List.mem_of_mem_take hfront
    · exact h.declared name hkeyword
  · rw [← map_fst_gifts]
    exact hnames.nodup_iff.1 h.nodup_gifts

/-! ## What is assigned -/

theorem lookup_eq_some_iff_mem {given : List (String × Argument)}
    (h : (given.map Prod.fst).Nodup) {name : String} {value : Argument} :
    given.lookup name = some value ↔ (name, value) ∈ given := by
  induction given with
  | nil => simp
  | cons entry given ih =>
    obtain ⟨hfresh, hmore⟩ := List.nodup_cons.1 h
    obtain ⟨name', value'⟩ := entry
    by_cases hname : name = name'
    · subst hname
      have hnone : (name, value) ∉ given :=
        fun hmem => hfresh (List.mem_map.2 ⟨(name, value), hmem, rfl⟩)
      simp [hnone, eq_comm]
    · rw [List.lookup_cons, beq_false_of_ne hname, ih hmore]
      simp [hname]

theorem lookup_eq_of_perm {given given' : List (String × Argument)} (hperm : given.Perm given')
    (h : (given.map Prod.fst).Nodup) (name : String) : given.lookup name = given'.lookup name := by
  have h' := (hperm.map Prod.fst).nodup_iff.1 h
  apply Option.ext
  intro value
  rw [lookup_eq_some_iff_mem h, lookup_eq_some_iff_mem h', hperm.mem_iff]

theorem lookup_isSome_iff_mem {given : List (String × Argument)} {name : String} :
    (given.lookup name).isSome = true ↔ name ∈ given.map Prod.fst := by
  rw [List.lookup_isSome_iff, List.mem_map]
  simp only [beq_iff_eq]
  exact exists_congr fun entry => and_congr_right fun _ => eq_comm

/-- Keywords are assigned one by one, each in front of what is assigned already. -/
theorem assignKeywords_eq_ok_iff {given keyword out : List (String × Argument)} :
    assignKeywords kind parameters given keyword = .ok out ↔
      (∀ name ∈ keyword.map Prod.fst, name ∈ parameters) ∧ (keyword.map Prod.fst).Nodup ∧
        (∀ name ∈ keyword.map Prod.fst, name ∉ given.map Prod.fst) ∧
        out = keyword.reverse ++ given := by
  induction keyword generalizing given with
  | nil => simp [assignKeywords, eq_comm]
  | cons entry keyword ih =>
    obtain ⟨name, value⟩ := entry
    rw [assignKeywords]
    by_cases hname : name ∈ parameters
    · by_cases htwice : name ∈ given.map Prod.fst
      · rw [if_neg (not_not.2 hname), if_pos (lookup_isSome_iff_mem.2 htwice)]
        constructor
        · intro h
          cases h
        · rintro ⟨-, -, hfresh, -⟩
          exact absurd htwice (hfresh name List.mem_cons_self)
      · rw [if_neg (not_not.2 hname), if_neg fun h => htwice (lookup_isSome_iff_mem.1 h), ih]
        simp only [List.map_cons, List.nodup_cons, List.reverse_cons, List.append_assoc,
          List.singleton_append]
        rw [List.forall_mem_cons, List.forall_mem_cons]
        -- a later keyword of this name is one of a parameter that is given already
        constructor
        · rintro ⟨hdeclared, hnodup, hfresh, rfl⟩
          exact ⟨⟨hname, hdeclared⟩, ⟨fun hmem => hfresh name hmem List.mem_cons_self, hnodup⟩,
            ⟨htwice, fun n hn hagain => hfresh n hn (List.mem_cons_of_mem _ hagain)⟩, rfl⟩
        · rintro ⟨⟨-, hdeclared⟩, ⟨hnone, hnodup⟩, ⟨-, hfresh⟩, rfl⟩
          refine ⟨hdeclared, hnodup, fun n hn hagain => ?_, rfl⟩
          rcases List.mem_cons.1 hagain with rfl | hagain
          · exact hnone hn
          · exact hfresh n hn hagain
    · rw [if_pos hname]
      constructor
      · intro h
        cases h
      · rintro ⟨hdeclared, -⟩
        exact absurd (hdeclared name List.mem_cons_self) hname

theorem assign_eq_ok_iff (hparameters : parameters.Nodup) {out : List (String × Argument)} :
    args.assign kind parameters = .ok out ↔
      IsCall parameters args ∧ out = args.keyword.reverse ++ parameters.zip args.positional := by
  unfold assign
  by_cases hfits : args.positional.length ≤ parameters.length
  · rw [if_neg (Nat.not_lt.2 hfits), assignKeywords_eq_ok_iff, map_fst_zip_positional]
    constructor
    · rintro ⟨hdeclared, hnodup, hfresh, rfl⟩
      refine ⟨⟨hfits, hdeclared, List.nodup_append'.2 ⟨?_, hnodup, ?_⟩⟩, rfl⟩
      · exact (List.take_sublist _ _).nodup hparameters
      · exact fun name hfront hname => hfresh name hname hfront
    · rintro ⟨⟨-, hdeclared, honce⟩, rfl⟩
      obtain ⟨-, hnodup, hdisjoint⟩ := List.nodup_append'.1 honce
      exact ⟨hdeclared, hnodup, fun name hname hfront => hdisjoint hfront hname, rfl⟩
  · rw [if_pos (Nat.lt_of_not_le hfits)]
    constructor
    · intro h
      cases h
    · rintro ⟨hcall, -⟩
      exact absurd hcall.fits hfits

/-- Exactly the gifts of a proper call are assigned. -/
theorem exists_assign_iff (hparameters : parameters.Nodup) :
    (∃ out, args.assign kind parameters = .ok out) ↔ IsCall parameters args := by
  simp [assign_eq_ok_iff hparameters]

theorem perm_gifts_of_assign (hparameters : parameters.Nodup) {out : List (String × Argument)}
    (h : args.assign kind parameters = .ok out) : out.Perm (gifts parameters args) := by
  obtain ⟨-, rfl⟩ := (assign_eq_ok_iff hparameters).1 h
  exact List.perm_append_comm.trans ((List.reverse_perm _).append_left _)

/-- A parameter has the argument in its place, or else the one behind its name. -/
theorem lookup_of_assign (hparameters : parameters.Nodup) {out : List (String × Argument)}
    (h : args.assign kind parameters = .ok out) {i : Nat} {name : String}
    (hname : parameters[i]? = some name) :
    out.lookup name = args.positional[i]?.or (args.keyword.lookup name) := by
  have hcall := ((assign_eq_ok_iff hparameters).1 h).1
  have hgifts := perm_gifts_of_assign hparameters h
  rw [(lookup_eq_of_perm hgifts.symm hcall.nodup_gifts name).symm, gifts, List.lookup_append]
  congr 1
  have hzip : ((parameters.zip args.positional).map Prod.fst).Nodup := by
    rw [map_fst_zip_positional]
    exact (List.take_sublist _ _).nodup hparameters
  apply Option.ext
  intro value
  rw [lookup_eq_some_iff_mem hzip, List.mem_iff_getElem?]
  constructor
  · rintro ⟨j, hj⟩
    obtain ⟨hj, hvalue⟩ := List.getElem?_zip_eq_some.1 hj
    have hlen := (List.getElem?_eq_some_iff.1 hj).1
    obtain rfl := (List.getElem?_inj hlen hparameters).1 (hj.trans hname.symm)
    exact hvalue
  · exact fun hvalue => ⟨i, List.getElem?_zip_eq_some.2 ⟨hname, hvalue⟩⟩

end UrlRouting.Arguments
