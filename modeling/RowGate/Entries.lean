/-!
Values by name. Main statements: what is under a name after an entry was put or removed.
-/
namespace RowGate

/-- Values by name. -/
structure Entries (α : Type) where
  toList : List (String × α)

namespace Entries

variable {α : Type}

/-- No entries. -/
def empty : Entries α := ⟨[]⟩

/-- The value under a name. -/
def get? (es : Entries α) (name : String) : Option α := es.toList.lookup name

/-- Whether there is a value under a name. -/
def has (es : Entries α) (name : String) : Bool := (es.get? name).isSome

/-- Removes the value under a name. -/
def erase (es : Entries α) (name : String) : Entries α :=
  ⟨es.toList.filter fun (other, _) => other != name⟩

/-- Puts a value under a name, in place of any other. -/
def insert (es : Entries α) (name : String) (a : α) : Entries α :=
  ⟨(name, a) :: (es.erase name).toList⟩

/-- The number of entries. -/
def size (es : Entries α) : Nat := es.toList.length

/-- The names of the entries. -/
def names (es : Entries α) : List String := es.toList.map (·.1)

@[simp] theorem get?_empty (name : String) : (empty : Entries α).get? name = none := rfl

@[simp] theorem get?_erase_self (es : Entries α) (name : String) :
    (es.erase name).get? name = none := by
  obtain ⟨xs⟩ := es
  simp only [get?, erase]
  induction xs with
  | nil => rfl
  | cons x xs ih =>
    obtain ⟨k, a⟩ := x
    by_cases h : k = name
    · simpa [h] using ih
    · have hb : (name == k) = false := by simpa using Ne.symm h
      rw [List.filter_cons_of_pos (by simpa using h), List.lookup_cons, hb]
      exact ih

theorem get?_erase_of_ne (es : Entries α) {name other : String} (h : other ≠ name) :
    (es.erase name).get? other = es.get? other := by
  obtain ⟨xs⟩ := es
  simp only [get?, erase]
  induction xs with
  | nil => rfl
  | cons x xs ih =>
    obtain ⟨k, a⟩ := x
    by_cases hk : k = name
    · have hb : (other == k) = false := by simpa [hk] using h
      rw [List.filter_cons_of_neg (by simpa using hk), List.lookup_cons, hb]
      exact ih
    · rw [List.filter_cons_of_pos (by simpa using hk), List.lookup_cons, List.lookup_cons, ih]

@[simp] theorem get?_insert_self (es : Entries α) (name : String) (a : α) :
    (es.insert name a).get? name = some a := by
  simp [insert, get?]

theorem get?_insert_of_ne (es : Entries α) {name other : String} (h : other ≠ name) (a : α) :
    (es.insert name a).get? other = es.get? other := by
  have hb : (other == name) = false := by simpa using h
  rw [← get?_erase_of_ne es h]
  simp [insert, get?, List.lookup_cons, hb]

end Entries
end RowGate
