/-
  Finite maps from names to values, kept as entries in strictly increasing order of name.
  The order makes the representation canonical: `ext` says that two maps with the same `get?`
  are equal. `get?_insert` is the law of the only way to change a map.
-/

namespace UrlRouting

/-- A finite map with text keys. -/
structure NameMap (β : Type) where
  entries : List (String × β)
  increasing : entries.Pairwise fun a b => compare a.1 b.1 = .lt := by simp

namespace NameMap

variable {β : Type}

instance [DecidableEq β] : DecidableEq (NameMap β) := fun a b =>
  decidable_of_iff (a.entries = b.entries) (by cases a; cases b; simp)

theorem compare_self_ne_lt (name : String) : compare name name ≠ .lt := by
  have h : compare name name = .eq := Std.ReflCmp.compare_self
  rw [h]
  decide

theorem compare_self_ne_gt (name : String) : compare name name ≠ .gt := by
  have h : compare name name = .eq := Std.ReflCmp.compare_self
  rw [h]
  decide

/-- Puts `value` under `name` into increasing entries, in the place of an entry of that name. -/
def put (name : String) (value : β) : List (String × β) → List (String × β)
  | [] => [(name, value)]
  | e :: rest =>
    match compare name e.1 with
    | .lt => (name, value) :: e :: rest
    | .eq => (name, value) :: rest
    | .gt => e :: put name value rest

theorem mem_put {name : String} {value : β} {entries : List (String × β)} {e : String × β}
    (h : e ∈ put name value entries) : e = (name, value) ∨ e ∈ entries := by
  induction entries with
  | nil => simpa [put] using h
  | cons e' rest ih =>
    simp only [put] at h
    split at h
    · simpa using h
    · rcases List.mem_cons.1 h with h | h
      · exact .inl h
      · exact .inr (List.mem_cons_of_mem _ h)
    · rcases List.mem_cons.1 h with h | h
      · exact .inr (h ▸ List.mem_cons_self)
      · rcases ih h with h | h
        · exact .inl h
        · exact .inr (List.mem_cons_of_mem _ h)

theorem pairwise_put (name : String) (value : β) {entries : List (String × β)}
    (h : entries.Pairwise fun a b => compare a.1 b.1 = .lt) :
    (put name value entries).Pairwise fun a b => compare a.1 b.1 = .lt := by
  induction entries with
  | nil => simp [put]
  | cons e rest ih =>
    obtain ⟨he, hrest⟩ := List.pairwise_cons.1 h
    simp only [put]
    split
    next hlt =>
      refine List.pairwise_cons.2 ⟨fun b hb => ?_, h⟩
      rcases List.mem_cons.1 hb with rfl | hb
      · exact hlt
      · exact Std.TransCmp.lt_trans hlt (he b hb)
    next heq =>
      have e1 : name = e.1 := Std.LawfulEqCmp.eq_of_compare heq
      exact List.pairwise_cons.2 ⟨fun b hb => by simpa [e1] using he b hb, hrest⟩
    next hgt =>
      refine List.pairwise_cons.2 ⟨fun b hb => ?_, ih hrest⟩
      rcases mem_put hb with rfl | hb
      · exact Std.OrientedCmp.lt_of_gt hgt
      · exact he b hb

def empty : NameMap β := ⟨[], by simp⟩

def insert (m : NameMap β) (name : String) (value : β) : NameMap β :=
  ⟨put name value m.entries, pairwise_put name value m.increasing⟩

/-- Enters the pairs in turn; a later pair replaces an earlier one of the same name. -/
def insertMany (m : NameMap β) (pairs : List (String × β)) : NameMap β :=
  pairs.foldl (fun m p => m.insert p.1 p.2) m

def ofList (pairs : List (String × β)) : NameMap β := empty.insertMany pairs

def get? (m : NameMap β) (name : String) : Option β :=
  (m.entries.find? fun e => e.1 = name).map Prod.snd

def contains (m : NameMap β) (name : String) : Bool := (m.get? name).isSome

/-- The names, in increasing order. -/
def names (m : NameMap β) : List String := m.entries.map Prod.fst

def size (m : NameMap β) : Nat := m.entries.length

theorem find?_put (name other : String) (value : β) (entries : List (String × β))
    (h : entries.Pairwise fun a b => compare a.1 b.1 = .lt) :
    (put name value entries).find? (fun e => e.1 = other)
      = if name = other then some (name, value) else entries.find? fun e => e.1 = other := by
  induction entries with
  | nil => by_cases hn : name = other <;> simp [put, hn]
  | cons e rest ih =>
    obtain ⟨he, hrest⟩ := List.pairwise_cons.1 h
    simp only [put]
    split
    · by_cases hn : name = other <;> simp [hn]
    next heq =>
      have e1 : name = e.1 := Std.LawfulEqCmp.eq_of_compare heq
      by_cases hn : name = other
      · simp [hn]
      · have : ¬ e.1 = other := fun h => hn (e1.trans h)
        simp [hn, this]
    next hgt =>
      by_cases hn : name = other
      · have : ¬ e.1 = other := by
          intro h
          have e1 : name = e.1 := hn.trans h.symm
          exact compare_self_ne_gt _ (e1 ▸ hgt)
        have hrec := ih hrest
        rw [if_pos hn] at hrec
        rw [List.find?_cons_of_neg (by simpa using this), hrec, if_pos hn]
      · by_cases ho : e.1 = other <;> simp [ho, hn, ih hrest]

theorem get?_insert (m : NameMap β) (name other : String) (value : β) :
    (m.insert name value).get? other = if name = other then some value else m.get? other := by
  simp only [get?, insert, find?_put name other value m.entries m.increasing]
  by_cases h : name = other <;> simp [h]

@[simp] theorem get?_empty (name : String) : (empty : NameMap β).get? name = none := rfl

theorem get?_eq_some_iff {m : NameMap β} {name : String} {value : β} :
    m.get? name = some value ↔ (name, value) ∈ m.entries := by
  obtain ⟨entries, h⟩ := m
  simp only [get?]
  induction entries with
  | nil => simp
  | cons e rest ih =>
    obtain ⟨he, hrest⟩ := List.pairwise_cons.1 h
    rw [List.find?_cons]
    by_cases hn : e.1 = name
    · have : (name, value) ∉ rest := by
        intro hm
        exact compare_self_ne_lt name (by simpa [hn] using he _ hm)
      simp only [hn, decide_true, Option.map_some, Option.some.injEq, List.mem_cons, this, or_false]
      constructor
      · rintro rfl
        rw [← hn]
      · intro h
        rw [← h]
    · have : (name, value) ≠ e := fun h => hn (by rw [← h])
      simp only [hn, decide_false, List.mem_cons, this, false_or]
      exact ih hrest

theorem mem_names {m : NameMap β} {name : String} : name ∈ m.names ↔ m.contains name = true := by
  simp only [names, contains, List.mem_map, Option.isSome_iff_exists, get?_eq_some_iff]
  constructor
  · rintro ⟨⟨n, v⟩, hm, rfl⟩
    exact ⟨v, hm⟩
  · rintro ⟨v, hm⟩
    exact ⟨_, hm, rfl⟩

/-- Two increasing lists with the same members are equal. -/
theorem eq_of_mem_iff {as bs : List (String × β)}
    (ha : as.Pairwise fun a b => compare a.1 b.1 = .lt)
    (hb : bs.Pairwise fun a b => compare a.1 b.1 = .lt) (h : ∀ e, e ∈ as ↔ e ∈ bs) : as = bs := by
  induction as generalizing bs with
  | nil =>
    cases bs with
    | nil => rfl
    | cons b bs => exact absurd ((h b).2 List.mem_cons_self) (by simp)
  | cons a as ih =>
    cases bs with
    | nil => exact absurd ((h a).1 List.mem_cons_self) (by simp)
    | cons b bs =>
      obtain ⟨ha1, ha2⟩ := List.pairwise_cons.1 ha
      obtain ⟨hb1, hb2⟩ := List.pairwise_cons.1 hb
      have irr : ∀ x : String × β, compare x.1 x.1 ≠ .lt := fun x => compare_self_ne_lt x.1
      have hab : a = b := by
        rcases List.mem_cons.1 ((h a).1 List.mem_cons_self) with e | ma
        · exact e
        · rcases List.mem_cons.1 ((h b).2 List.mem_cons_self) with e | mb
          · exact e.symm
          · exact absurd (Std.TransCmp.lt_trans (hb1 a ma) (ha1 b mb)) (irr b)
      subst hab
      congr 1
      refine ih ha2 hb2 fun e => ⟨fun he => ?_, fun he => ?_⟩
      · rcases List.mem_cons.1 ((h e).1 (List.mem_cons_of_mem _ he)) with rfl | m
        · exact absurd (ha1 _ he) (irr _)
        · exact m
      · rcases List.mem_cons.1 ((h e).2 (List.mem_cons_of_mem _ he)) with rfl | m
        · exact absurd (hb1 _ he) (irr _)
        · exact m

/-- A map is decided by what it holds under each name. -/
theorem ext {m n : NameMap β} (h : ∀ name, m.get? name = n.get? name) : m = n := by
  have e : m.entries = n.entries := by
    refine eq_of_mem_iff m.increasing n.increasing fun e => ?_
    obtain ⟨name, value⟩ := e
    rw [← get?_eq_some_iff, ← get?_eq_some_iff, h]
  obtain ⟨entries, _⟩ := m
  obtain ⟨entries', _⟩ := n
  simp only at e
  subst e
  rfl

end NameMap

end UrlRouting
