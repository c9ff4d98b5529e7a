/-!
# Named entries

A list of pairs in which a name stands for the first entry that has it.  `put` keeps
the place of an entry that is there, and adds a new one at the end; `remove` leaves the
other entries in their order.
-/

namespace PrettyMarkup

namespace Entries

variable {α : Type}

/-- The value of a name. -/
def get? (key : String) : List (String × α) → Option α
  | [] => none
  | (name, value) :: rest => if name = key then some value else get? key rest

/-- Gives a name a value. -/
def put (key : String) (value : α) : List (String × α) → List (String × α)
  | [] => [(key, value)]
  | (name, old) :: rest =>
    if name = key then (name, value) :: rest else (name, old) :: put key value rest

/-- Drops the entries of a name. -/
def remove (key : String) (entries : List (String × α)) : List (String × α) :=
  entries.filter fun entry => entry.1 != key

@[simp] theorem get?_nil (key : String) : get? key ([] : List (String × α)) = none := rfl

@[simp] theorem get?_put_self (key : String) (value : α) (entries : List (String × α)) :
    get? key (put key value entries) = some value := by
  induction entries with
  | nil => simp [put, get?]
  | cons entry rest ih =>
      by_cases h : entry.1 = key <;> simp [put, get?, h, ih]

theorem get?_put_of_ne {key other : String} (h : other ≠ key) (value : α)
    (entries : List (String × α)) :
    get? other (put key value entries) = get? other entries := by
  induction entries with
  | nil => simp [put, get?, Ne.symm h]
  | cons entry rest ih =>
      by_cases hk : entry.1 = key
      · simp [put, get?, hk, Ne.symm h]
      · simp [put, get?, hk, ih]

@[simp] theorem get?_remove_self (key : String) (entries : List (String × α)) :
    get? key (remove key entries) = none := by
  induction entries with
  | nil => rfl
  | cons entry rest ih =>
      by_cases h : entry.1 = key
      · simpa [remove, h] using ih
      · simpa [remove, h, get?] using ih

theorem get?_remove_of_ne {key other : String} (h : other ≠ key) (entries : List (String × α)) :
    get? other (remove key entries) = get? other entries := by
  induction entries with
  | nil => rfl
  | cons entry rest ih =>
      by_cases hk : entry.1 = key
      · simpa [remove, get?, hk, Ne.symm h] using ih
      · by_cases ho : entry.1 = other
        · simp [remove, get?, ho, h]
        · simpa [remove, get?, hk, ho] using ih

end Entries

end PrettyMarkup
