import UrlRouting.Proofs.Arguments.Assignment
import UrlRouting.Proofs.Converter.Declared

/-
  Converters that are declared with named parameters.
  Such a declaration looks at the arguments of its parameters and at nothing else
  (`declare_eq_of_lookup`), so that it does not matter in which order keywords stand, nor whether
  an argument is given by position or by name (`declare_of_call`).
-/

namespace UrlRouting.Converter

open Arguments

/-! ## Signatures -/

/-- A kind with the names of its parameters, in their order, and its declaration. -/
structure Signature where
  kind : Kind
  parameters : List String
  declare : Declaration

/-- The kinds that have parameters with names. -/
def signatures : List Signature :=
  [⟨.string, stringParameters, declareString⟩, ⟨.int, intParameters, declareInt⟩,
    ⟨.float, floatParameters, declareFloat⟩]

/-- Whether no greatest value is below the least one, and a fixed number of digits is not zero. -/
def IsConsistent : Converter → Prop
  | string b => ∀ max, b.max = some max → b.min ≤ max
  | int b =>
    (∀ min max, b.min = some min → b.max = some max → min ≤ max) ∧
      ∀ digits, b.digits = some digits → 1 ≤ digits
  | float b => ∀ min max, b.min = some min → b.max = some max → ¬ max < min
  | _ => True

variable {s : Signature} {args args' : Arguments} {given given' : List (String × Argument)}

theorem nodup_parameters (hs : s ∈ signatures) : s.parameters.Nodup := by
  have hall : ∀ parameters ∈ signatures.map Signature.parameters, parameters.Nodup := by decide
  exact hall _ (List.mem_map_of_mem hs)

/-! ## What a declaration looks at -/

section

variable {kind : Kind} {name : String}

theorem intArgument_congr (h : given.lookup name = given'.lookup name) :
    intArgument kind given name = intArgument kind given' name := by
  unfold intArgument
  rw [h]

theorem countArgument_congr (h : given.lookup name = given'.lookup name) :
    countArgument kind given name = countArgument kind given' name := by
  unfold countArgument
  rw [intArgument_congr h]

theorem floatArgument_congr (h : given.lookup name = given'.lookup name) :
    floatArgument kind given name = floatArgument kind given' name := by
  unfold floatArgument
  rw [h]

end

theorem declare_eq_of_lookup (hs : s ∈ signatures)
    (h : args.assign s.kind s.parameters = .ok given)
    (h' : args'.assign s.kind s.parameters = .ok given')
    (hsame : ∀ name ∈ s.parameters, given.lookup name = given'.lookup name) :
    s.declare args = s.declare args' := by
  simp only [signatures, List.mem_cons, List.not_mem_nil, or_false] at hs
  rcases hs with rfl | rfl | rfl
  · show declareString args = declareString args'
    unfold declareString
    rw [h, h']
    simp only [bind, Except.bind, countArgument_congr (hsame "minlength" (by decide)),
      countArgument_congr (hsame "maxlength" (by decide)),
      countArgument_congr (hsame "length" (by decide))]
  · show declareInt args = declareInt args'
    unfold declareInt
    rw [h, h']
    simp only [bind, Except.bind, countArgument_congr (hsame "fixed_digits" (by decide)),
      intArgument_congr (hsame "min" (by decide)), intArgument_congr (hsame "max" (by decide))]
  · show declareFloat args = declareFloat args'
    unfold declareFloat
    rw [h, h']
    simp only [bind, Except.bind, floatArgument_congr (hsame "min" (by decide)),
      floatArgument_congr (hsame "max" (by decide))]

/-- A declaration that succeeds has assigned its arguments. -/
theorem isCall_of_declare (hs : s ∈ signatures) {c : Converter} (h : s.declare args = .ok c) :
    IsCall s.parameters args := by
  have hnodup := nodup_parameters hs
  suffices hgiven : ∃ given, args.assign s.kind s.parameters = .ok given from
    (exists_assign_iff hnodup).1 hgiven
  simp only [signatures, List.mem_cons, List.not_mem_nil, or_false] at hs
  rcases hs with rfl | rfl | rfl
  all_goals
    obtain ⟨given, hgiven, -⟩ := Template.exists_of_bind_eq_ok h
    exact ⟨given, hgiven⟩

/-- Proper calls with the same gifts declare the same. -/
theorem declare_eq_of_perm (hs : s ∈ signatures) (hcall : IsCall s.parameters args)
    (hcall' : IsCall s.parameters args')
    (hperm : (gifts s.parameters args).Perm (gifts s.parameters args')) :
    s.declare args = s.declare args' := by
  have hnodup := nodup_parameters hs
  obtain ⟨given, hgiven⟩ : ∃ given, args.assign s.kind s.parameters = .ok given :=
    (exists_assign_iff hnodup).2 hcall
  obtain ⟨given', hgiven'⟩ : ∃ given, args'.assign s.kind s.parameters = .ok given :=
    (exists_assign_iff hnodup).2 hcall'
  have hout : given.Perm given' :=
    (perm_gifts_of_assign hnodup hgiven).trans
      (hperm.trans (perm_gifts_of_assign hnodup hgiven').symm)
  have hnames : (given.map Prod.fst).Nodup :=
    ((perm_gifts_of_assign hnodup hgiven).map Prod.fst).nodup_iff.2 hcall.nodup_gifts
  exact declare_eq_of_lookup hs hgiven hgiven' fun name _ => lookup_eq_of_perm hout hnames name

/-- Whether a call is proper depends on its gifts, and so does what is declared. -/
theorem declare_eq_ok_iff_of_perm (hs : s ∈ signatures)
    (hfits : args.positional.length ≤ s.parameters.length)
    (hfits' : args'.positional.length ≤ s.parameters.length)
    (hperm : (gifts s.parameters args).Perm (gifts s.parameters args')) (c : Converter) :
    s.declare args = .ok c ↔ s.declare args' = .ok c := by
  constructor
  · intro h
    have hcall := isCall_of_declare hs h
    rwa [← declare_eq_of_perm hs hcall (hcall.of_perm hperm hfits') hperm]
  · intro h
    have hcall := isCall_of_declare hs h
    rwa [declare_eq_of_perm hs (hcall.of_perm hperm.symm hfits) hcall hperm]

/-! ## What is declared -/

theorem isConsistent_declareInt {c : Converter} (h : declareInt args = .ok c) :
    c.kind = .int ∧ c.IsConsistent := by
  obtain ⟨given, -, h⟩ := Template.exists_of_bind_eq_ok h
  obtain ⟨digits, -, h⟩ := Template.exists_of_bind_eq_ok h
  split at h
  · cases h
  next hzero =>
    have hdigits : ∀ n, digits = some n → 1 ≤ n := by
      rintro n rfl
      exact Nat.one_le_iff_ne_zero.2 fun hn => hzero (congrArg some hn)
    obtain ⟨min, -, h⟩ := Template.exists_of_bind_eq_ok h
    obtain ⟨max, -, h⟩ := Template.exists_of_bind_eq_ok h
    split at h
    next lo hi =>
      split at h
      · cases h
      next hle =>
        obtain rfl := Except.ok.inj h
        refine ⟨rfl, fun lo' hi' hlo hhi => ?_, hdigits⟩
        obtain rfl := Option.some.inj hlo
        obtain rfl := Option.some.inj hhi
        exact Int64.not_lt.1 hle
    next hnone =>
      obtain rfl := Except.ok.inj h
      exact ⟨rfl, fun lo hi hlo hhi => (hnone lo hi hlo hhi).elim, hdigits⟩

theorem isConsistent_declareFloat {c : Converter} (h : declareFloat args = .ok c) :
    c.kind = .float ∧ c.IsConsistent := by
  obtain ⟨given, -, h⟩ := Template.exists_of_bind_eq_ok h
  obtain ⟨min, -, h⟩ := Template.exists_of_bind_eq_ok h
  obtain ⟨max, -, h⟩ := Template.exists_of_bind_eq_ok h
  split at h
  next lo hi =>
    split at h
    · cases h
    next hle =>
      obtain rfl := Except.ok.inj h
      refine ⟨rfl, fun lo' hi' hlo hhi => ?_⟩
      obtain rfl := Option.some.inj hlo
      obtain rfl := Option.some.inj hhi
      exact hle
  next hnone =>
    obtain rfl := Except.ok.inj h
    exact ⟨rfl, fun lo hi hlo hhi => (hnone lo hi hlo hhi).elim⟩

theorem isConsistent_declareString {c : Converter} (h : declareString args = .ok c) :
    c.kind = .string ∧ c.IsConsistent := by
  have hproper := isProper_declareString args c h
  obtain ⟨given, -, h⟩ := Template.exists_of_bind_eq_ok h
  obtain ⟨min, -, h⟩ := Template.exists_of_bind_eq_ok h
  obtain ⟨max, -, h⟩ := Template.exists_of_bind_eq_ok h
  obtain ⟨exact, -, h⟩ := Template.exists_of_bind_eq_ok h
  obtain ⟨rfl, -⟩ := ofLengths_eq_ok_iff.1 h
  exact ⟨rfl, hproper.uncrossed⟩

theorem isConsistent_of_declare (hs : s ∈ signatures) {c : Converter}
    (h : s.declare args = .ok c) : c.kind = s.kind ∧ c.IsConsistent := by
  simp only [signatures, List.mem_cons, List.not_mem_nil, or_false] at hs
  rcases hs with rfl | rfl | rfl
  · exact isConsistent_declareString h
  · exact isConsistent_declareInt h
  · exact isConsistent_declareFloat h

/-! ## Calls -/

/-- An argument in the last place may as well be given by the name of that place. -/
theorem gifts_of_last {parameters : List String} {init : List Argument} {last : Argument}
    {name : String} (hname : parameters[init.length]? = some name)
    {keyword keyword' : List (String × Argument)}
    (hkeyword : keyword'.Perm ((name, last) :: keyword)) :
    (gifts parameters ⟨init ++ [last], keyword⟩).Perm (gifts parameters ⟨init, keyword'⟩) := by
  obtain ⟨front, back, rfl, hfront⟩ : ∃ front back,
      parameters = front ++ name :: back ∧ front.length = init.length := by
    obtain ⟨hlen, rfl⟩ := List.getElem?_eq_some_iff.1 hname
    refine ⟨parameters.take init.length, parameters.drop (init.length + 1), ?_, ?_⟩
    · rw [List.getElem_cons_drop, List.take_append_drop]
    · exact List.length_take_of_le (Nat.le_of_lt hlen)
  have hinit : (front ++ name :: back).zip init = front.zip init := by
    calc (front ++ name :: back).zip init
        = (front ++ name :: back).zip (init ++ []) := by rw [List.append_nil]
      _ = front.zip init := by rw [List.zip_append hfront, List.zip_nil_right, List.append_nil]
  have hlast : (front ++ name :: back).zip (init ++ [last]) = front.zip init ++ [(name, last)] := by
    rw [List.zip_append hfront, List.zip_cons_cons, List.zip_nil_right]
  unfold gifts
  rw [hlast, hinit, List.append_assoc]
  exact hkeyword.symm.append_left _

/-- What a factory of some signature does with arguments, as in a call. -/
structure Signature.BindsAsCall (s : Signature) (args : Arguments) : Prop where
  assigned_iff : (∃ given, args.assign s.kind s.parameters = .ok given) ↔ IsCall s.parameters args
  /-- A parameter has the argument in its place, or else the one with its name. -/
  lookup_eq : ∀ given, args.assign s.kind s.parameters = .ok given →
    ∀ (i : Nat) (name : String), s.parameters[i]? = some name →
      given.lookup name = args.positional[i]?.or (args.keyword.lookup name)
  /-- The order of the keywords does not matter. -/
  reordered : ∀ keyword, keyword.Perm args.keyword → ∀ c,
    s.declare ⟨args.positional, keyword⟩ = .ok c ↔ s.declare args = .ok c
  /-- The last argument by position may as well be given by name. -/
  named : ∀ (init : List Argument) (last : Argument) (name : String),
    args.positional = init ++ [last] → s.parameters[init.length]? = some name →
    ∀ keyword, keyword.Perm ((name, last) :: args.keyword) → ∀ c,
      s.declare ⟨init, keyword⟩ = .ok c ↔ s.declare args = .ok c
  declared : ∀ c, s.declare args = .ok c →
    IsCall s.parameters args ∧ c.kind = s.kind ∧ c.IsConsistent

/-- Arguments are bound as in a call. They are assigned just where those by position are no more
than the parameters, every keyword names a parameter and none is given twice. What is declared is the
same however the arguments are given, and has no crossed bounds. -/
theorem declare_of_call (s : Signature) (hs : s ∈ signatures) (args : Arguments) :
    s.BindsAsCall args := by
  have hnodup := nodup_parameters hs
  obtain ⟨positional, keyword⟩ := args
  refine {
    assigned_iff := exists_assign_iff hnodup
    lookup_eq := fun given hgiven i name hname => lookup_of_assign hnodup hgiven hname
    reordered := ?reordered
    named := ?named
    declared := fun c h => ⟨isCall_of_declare hs h, isConsistent_of_declare hs h⟩ }
  case reordered =>
    intro keyword' hperm c
    have hgifts : (gifts s.parameters ⟨positional, keyword'⟩).Perm
        (gifts s.parameters ⟨positional, keyword⟩) := hperm.append_left _
    by_cases hfits : positional.length ≤ s.parameters.length
    · exact declare_eq_ok_iff_of_perm hs hfits hfits hgifts c
    · constructor
      · exact fun h => absurd (isCall_of_declare hs h).fits hfits
      · exact fun h => absurd (isCall_of_declare hs h).fits hfits
  case named =>
    intro init last name hlast hname keyword' hperm c
    obtain rfl : positional = init ++ [last] := hlast
    have hlen := (List.getElem?_eq_some_iff.1 hname).1
    have hfits : (init ++ [last]).length ≤ s.parameters.length := by
      rw [List.length_append, List.length_singleton]
      exact hlen
    exact declare_eq_ok_iff_of_perm hs (Nat.le_of_lt hlen) hfits (gifts_of_last hname hperm).symm c

/-- The arguments of `int(4, max=99, min=1)`. -/
def paddedCall : Arguments := ⟨[.int 4], [("max", .int 99), ("min", .int 1)]⟩

def paddedBounds : IntBounds := ⟨some 4, some 1, some 99⟩

theorem declare_of_call_paddedCall :
    (⟨.int, intParameters, declareInt⟩ : Signature) ∈ signatures ∧
      declareInt paddedCall = .ok (.int paddedBounds) ∧ IsCall intParameters paddedCall ∧
      declareInt ⟨[.int 4], [("min", .int 1), ("max", .int 99)]⟩ = .ok (.int paddedBounds) ∧
      declareInt ⟨[], [("max", .int 99), ("fixed_digits", .int 4), ("min", .int 1)]⟩ =
        .ok (.int paddedBounds) := by
  have hs : (⟨.int, intParameters, declareInt⟩ : Signature) ∈ signatures :=
    List.mem_cons_of_mem _ List.mem_cons_self
  have hcall := declare_of_call _ hs paddedCall
  have hok : declareInt paddedCall = .ok (.int paddedBounds) := by decide
  refine ⟨hs, hok, (hcall.declared _ hok).1, ?_, ?_⟩
  · exact (hcall.reordered _ (List.Perm.swap _ _ _) _).2 hok
  · exact (hcall.named [] (.int 4) "fixed_digits" rfl rfl _ (List.Perm.swap _ _ _) _).2 hok

end UrlRouting.Converter
