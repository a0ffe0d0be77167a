import UrlRouting.Http.Method

/-
  Sets of request methods, one bit a method.
  Everything about a set is said through `contains`: `contains_insert`, `contains_union` and
  `contains_ofList` give it for each way of making a set, and `ext` says that it decides the set.
-/

namespace UrlRouting

/-- A set of methods; bit `m.number` stands for `m`. -/
structure MethodSet where
  bits : BitVec 9
  deriving DecidableEq, Repr

namespace MethodSet

def empty : MethodSet := ⟨0⟩

def contains (s : MethodSet) (m : Method) : Bool := s.bits.getLsbD m.number

def singleton (m : Method) : MethodSet := ⟨BitVec.twoPow 9 m.number⟩

def union (s t : MethodSet) : MethodSet := ⟨s.bits ||| t.bits⟩

def insert (s : MethodSet) (m : Method) : MethodSet := s.union (singleton m)

def ofList (methods : List Method) : MethodSet := methods.foldl insert empty

def isEmpty (s : MethodSet) : Bool := s.bits == 0

/-- The members, in the order of `Method.all`. -/
def toList (s : MethodSet) : List Method := Method.all.filter s.contains

def names (s : MethodSet) : List String := s.toList.map Method.name

/-- The names, parted by a comma and a blank. -/
def text (s : MethodSet) : String := ", ".intercalate s.names

@[simp] theorem contains_empty (m : Method) : empty.contains m = false := by
  cases m <;> rfl

@[simp] theorem contains_singleton (m n : Method) : (singleton m).contains n = decide (m = n) := by
  cases m <;> cases n <;> rfl

@[simp] theorem contains_union (s t : MethodSet) (m : Method) :
    (s.union t).contains m = (s.contains m || t.contains m) := by
  simp [contains, union]

@[simp] theorem contains_insert (s : MethodSet) (m n : Method) :
    (s.insert m).contains n = (s.contains n || decide (m = n)) := by
  simp [insert]

theorem contains_foldl_insert (methods : List Method) (s : MethodSet) (m : Method) :
    (methods.foldl insert s).contains m = (s.contains m || decide (m ∈ methods)) := by
  induction methods generalizing s with
  | nil => simp
  | cons n methods ih =>
    simp only [List.foldl_cons, ih, contains_insert, List.mem_cons]
    by_cases h : n = m
    · simp [h]
    · simp [h, Ne.symm h]

@[simp] theorem contains_ofList (methods : List Method) (m : Method) :
    (ofList methods).contains m = decide (m ∈ methods) := by
  simp [ofList, contains_foldl_insert]

theorem mem_toList {s : MethodSet} {m : Method} : m ∈ s.toList ↔ s.contains m := by
  simp [toList, Method.mem_all]

theorem ext {s t : MethodSet} (h : ∀ m, s.contains m = t.contains m) : s = t := by
  obtain ⟨s⟩ := s
  obtain ⟨t⟩ := t
  congr 1
  apply BitVec.eq_of_getLsbD_eq
  intro i hi
  have key : ∀ m : Method, s.getLsbD m.number = t.getLsbD m.number := h
  match i, hi with
  | 0, _ => exact key .get
  | 1, _ => exact key .post
  | 2, _ => exact key .put
  | 3, _ => exact key .delete
  | 4, _ => exact key .patch
  | 5, _ => exact key .head
  | 6, _ => exact key .options
  | 7, _ => exact key .trace
  | 8, _ => exact key .connect

theorem isEmpty_iff {s : MethodSet} : s.isEmpty = true ↔ ∀ m, s.contains m = false := by
  constructor
  · intro h m
    have e : s = empty := by
      obtain ⟨s⟩ := s
      simpa [isEmpty, empty] using h
    rw [e, contains_empty]
  · intro h
    have e : s = empty := ext fun m => by rw [h m, contains_empty]
    rw [e]
    rfl

end MethodSet

end UrlRouting
