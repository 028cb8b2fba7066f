namespace CaveMap

namespace Table

/-- A key that is present keeps its place, a new one goes to the end. -/
def put {α : Type} (key : String) (value : α) : List (String × α) → List (String × α)
  | [] => [(key, value)]
  | (k, v) :: rest => if k = key then (k, value) :: rest else (k, v) :: put key value rest

theorem mem_keys_put {α : Type} {key k : String} {value : α} {entries : List (String × α)} :
    k ∈ (put key value entries).map (·.1) ↔ k = key ∨ k ∈ entries.map (·.1) := by
  induction entries with
  | nil => simp [put]
  | cons entry rest ih => grind [put]

theorem nodup_keys_put {α : Type} {key : String} {value : α} {entries : List (String × α)}
    (h : (entries.map (·.1)).Nodup) : ((put key value entries).map (·.1)).Nodup := by
  induction entries with
  | nil => simp [put]
  | cons entry rest ih =>
    obtain ⟨hnot, hrest⟩ := List.nodup_cons.1 h
    unfold put
    split
    · exact h
    · next hne =>
      refine List.nodup_cons.2 ⟨fun hmem => ?_, ih hrest⟩
      rcases mem_keys_put.1 hmem with heq | hin
      · exact hne heq
      · exact hnot hin

end Table

structure Table (α : Type) where
  entries : List (String × α)
  nodup : (entries.map (·.1)).Nodup

namespace Table

variable {α : Type}

def empty : Table α := ⟨[], by simp⟩

instance : EmptyCollection (Table α) := ⟨empty⟩

instance : Inhabited (Table α) := ⟨empty⟩

def keys (table : Table α) : List String := table.entries.map (·.1)

def get? (table : Table α) (key : String) : Option α := table.entries.lookup key

def contains (table : Table α) (key : String) : Bool := (table.get? key).isSome

def size (table : Table α) : Nat := table.entries.length

def insert (table : Table α) (key : String) (value : α) : Table α :=
  ⟨put key value table.entries, nodup_keys_put table.nodup⟩

def erase (table : Table α) (key : String) : Table α :=
  ⟨table.entries.filter (·.1 ≠ key), table.nodup.sublist (List.filter_sublist.map _)⟩

/-- The later of two entries with one key counts, at the place of the first. -/
def ofList (entries : List (String × α)) : Table α :=
  entries.foldl (fun table (key, value) => table.insert key value) ∅

def fill (table : Table α) (entries : List (String × α)) : Table α :=
  entries.foldl (fun table (key, value) => if table.contains key then table else table.insert key value)
    table

def equals (same : α → α → Bool) (a b : Table α) : Bool :=
  a.size = b.size && a.entries.all fun (key, x) => (b.get? key).any (same x)

end Table

end CaveMap
