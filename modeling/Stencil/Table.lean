/-!
# Tables

A table pairs keys with values and keeps the order in which the keys were first written: writing
to a key that is there changes its value and not its place. Object values, frames of variables and
attributes of elements are tables.
-/

namespace Stencil

/-- Keys with values, in the order in which the keys were first written. -/
abbrev Table (α : Type) := List (String × α)

namespace Table

variable {α : Type}

/-- The value at a key. -/
def get? : Table α → String → Option α
  | [], _ => none
  | (k, v) :: t, key => if k = key then some v else get? t key

/-- Whether the table has the key. -/
def has (t : Table α) (key : String) : Bool :=
  (get? t key).isSome

/-- Writes to a key: in place if it is there, else at the end. -/
def insert : Table α → String → α → Table α
  | [], key, value => [(key, value)]
  | (k, v) :: t, key, value =>
    if k = key then (k, value) :: t else (k, v) :: insert t key value

/-- Writes all entries of the second table, in their order. -/
def merge (t : Table α) (entries : Table α) : Table α :=
  entries.foldl (fun t e => insert t e.1 e.2) t

/-- The table that arises when `entries` are written one after the other. -/
def ofEntries (entries : Table α) : Table α :=
  merge [] entries

/-- The keys in their order. -/
def keys (t : Table α) : List String :=
  t.map (·.1)

/-- Writes to a key of a table whose keys increase, and keeps them increasing. -/
def insertSorted : Table α → String → α → Table α
  | [], key, value => [(key, value)]
  | (k, v) :: t, key, value =>
    if key < k then (key, value) :: (k, v) :: t
    else if k = key then (k, value) :: t
    else (k, v) :: insertSorted t key value

/-- The table in the order of its keys, by code points. -/
def sorted (t : Table α) : Table α :=
  t.foldl (fun t e => insertSorted t e.1 e.2) []

theorem mem_of_get? {t : Table α} {key : String} {value : α} (h : get? t key = some value) :
    (key, value) ∈ t := by
  induction t with
  | nil => cases h
  | cons e t ih =>
    obtain ⟨k, v⟩ := e
    by_cases hk : k = key
    · rw [get?, if_pos hk] at h
      cases h
      rw [hk]
      exact List.mem_cons_self
    · rw [get?, if_neg hk] at h
      exact List.mem_cons_of_mem _ (ih h)

@[simp] theorem get?_insert_self (t : Table α) (key : String) (value : α) :
    get? (insert t key value) key = some value := by
  induction t with
  | nil => simp [insert, get?]
  | cons e t ih =>
    obtain ⟨k, v⟩ := e
    by_cases h : k = key <;> simp [insert, get?, h, ih]

theorem get?_insert_of_ne (t : Table α) {key other : String} (value : α) (h : key ≠ other) :
    get? (insert t key value) other = get? t other := by
  induction t with
  | nil => simp [insert, get?, h]
  | cons e t ih =>
    obtain ⟨k, v⟩ := e
    by_cases hk : k = key
    · subst hk
      simp [insert, get?, h]
    · simp only [insert, if_neg hk, get?, ih]

end Table

end Stencil
