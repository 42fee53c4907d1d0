/-!
# Name tables

A table holds at most one entry for each name, in the order of the names. Names are ordered by code
points. Two tables with the same look-up are the same list, so no order of insertion can be told
from the result.
-/

namespace Backtest

structure NameTable (β : Type) where
  entries : List (String × β)
  ascending : (entries.map Prod.fst).Pairwise (· < ·)

namespace NameTable

variable {β : Type}

def empty : NameTable β := ⟨[], .nil⟩

def names (table : NameTable β) : List String := table.entries.map Prod.fst

def values (table : NameTable β) : List β := table.entries.map Prod.snd

def size (table : NameTable β) : Nat := table.entries.length

def get? (table : NameTable β) (name : String) : Option β := table.entries.lookup name

def contains (table : NameTable β) (name : String) : Bool := (table.get? name).isSome

def insertEntry (name : String) (value : β) : List (String × β) → List (String × β)
  | [] => [(name, value)]
  | (other, held) :: rest =>
    if name < other then (name, value) :: (other, held) :: rest
    else if other < name then (other, held) :: insertEntry name value rest
    else (name, value) :: rest

theorem mem_names_insertEntry {name other : String} {value : β} {entries : List (String × β)}
    (h : other ∈ (insertEntry name value entries).map Prod.fst) :
    other = name ∨ other ∈ entries.map Prod.fst := by
  induction entries with
  | nil => simpa [insertEntry] using h
  | cons entry rest ih =>
    obtain ⟨head, held⟩ := entry
    simp only [insertEntry] at h
    split at h
    · simpa using h
    · split at h
      · simp only [List.map_cons, List.mem_cons] at h ⊢
        rcases h with h | h
        · exact .inr (.inl h)
        · exact (ih h).imp_right .inr
      · simp only [List.map_cons, List.mem_cons] at h ⊢
        exact h.imp_right .inr

theorem pairwise_insertEntry (name : String) (value : β) {entries : List (String × β)}
    (h : (entries.map Prod.fst).Pairwise (· < ·)) :
    ((insertEntry name value entries).map Prod.fst).Pairwise (· < ·) := by
  induction entries with
  | nil => simp [insertEntry]
  | cons entry rest ih =>
    obtain ⟨head, held⟩ := entry
    simp only [List.map_cons, List.pairwise_cons] at h
    simp only [insertEntry]
    split
    · next hlt =>
      simp only [List.map_cons, List.pairwise_cons, List.mem_cons]
      refine ⟨?_, h.1, h.2⟩
      rintro other (rfl | hother)
      · exact hlt
      · exact String.lt_trans hlt (h.1 other hother)
    · split
      · next hlt =>
        simp only [List.map_cons, List.pairwise_cons]
        refine ⟨fun other hother => ?_, ih h.2⟩
        rcases mem_names_insertEntry hother with rfl | hother
        · exact hlt
        · exact h.1 other hother
      · next hle hge =>
        have heq : name = head := String.le_antisymm (String.not_lt.mp hge) (String.not_lt.mp hle)
        subst heq
        simpa [List.pairwise_cons] using h

/-- Gives a name a value, in place of the one it had. -/
def insert (table : NameTable β) (name : String) (value : β) : NameTable β :=
  ⟨insertEntry name value table.entries, pairwise_insertEntry name value table.ascending⟩

theorem lookup_insertEntry_self (name : String) (value : β) (entries : List (String × β)) :
    (insertEntry name value entries).lookup name = some value := by
  induction entries with
  | nil => simp [insertEntry]
  | cons entry rest ih =>
    obtain ⟨other, held⟩ := entry
    simp only [insertEntry]
    split
    · simp
    · split
      · next hlt =>
        have hne : (name == other) = false := by
          simpa using fun heq : name = other => String.lt_irrefl name (heq ▸ hlt)
        rw [List.lookup_cons, hne, ih]
      · simp

theorem lookup_insertEntry_of_ne {name other : String} (value : β) (entries : List (String × β))
    (h : other ≠ name) : (insertEntry name value entries).lookup other = entries.lookup other := by
  have hne : (other == name) = false := by simpa using h
  induction entries with
  | nil => simp [insertEntry, List.lookup_cons, hne]
  | cons entry rest ih =>
    obtain ⟨head, held⟩ := entry
    simp only [insertEntry]
    split
    · rw [List.lookup_cons, hne]
    · split
      · rw [List.lookup_cons, List.lookup_cons, ih]
      · next hle hge =>
        have heq : name = head := String.le_antisymm (String.not_lt.mp hge) (String.not_lt.mp hle)
        rw [List.lookup_cons, List.lookup_cons, ← heq, hne]

@[simp]
theorem get?_insert_self (table : NameTable β) (name : String) (value : β) :
    (table.insert name value).get? name = some value :=
  lookup_insertEntry_self name value table.entries

@[simp]
theorem get?_insert_of_ne (table : NameTable β) {name other : String} (value : β)
    (h : other ≠ name) : (table.insert name value).get? other = table.get? other :=
  lookup_insertEntry_of_ne value table.entries h

/-- The table of a list of entries, in which a later entry replaces an earlier one of its name. -/
def ofList (entries : List (String × β)) : NameTable β :=
  entries.foldl (fun table (name, value) => table.insert name value) empty

/-- The distinct names of a list in order. -/
def distinct (names : List String) : List String :=
  (ofList (names.map fun name => (name, ()))).names

end NameTable

end Backtest
