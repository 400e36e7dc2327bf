import ByteAsm.Text

namespace ByteAsm

structure Table (κ α : Type) where
  entries : List (κ × α)
  nodup   : (entries.map Prod.fst).Nodup
deriving DecidableEq

namespace Table

variable {κ α : Type}

def empty : Table κ α where
  entries := []
  nodup   := List.nodup_nil

instance : EmptyCollection (Table κ α) where
  emptyCollection := empty

instance : Inhabited (Table κ α) where
  default := empty

def size (table : Table κ α) : Nat :=
  table.entries.length

def find? [BEq κ] (table : Table κ α) (key : κ) : Option α :=
  table.entries.lookup key

-- Changes the value of `key` in place, which keeps all keys.
def assign [DecidableEq κ] (key : κ) (value : α) (entries : List (κ × α)) : List (κ × α) :=
  entries.map fun entry => if entry.1 = key then (key, value) else entry

theorem assign_keys [DecidableEq κ] (key : κ) (value : α) (entries : List (κ × α)) :
    (assign key value entries).map Prod.fst = entries.map Prod.fst := by
  simp only [assign, List.map_map]
  refine List.map_congr_left fun entry _ => ?_
  simp only [Function.comp]
  split <;> simp_all

-- Binds `key` to `value`. A key that is bound already keeps its place.
def insert [DecidableEq κ] (table : Table κ α) (key : κ) (value : α) : Table κ α :=
  if h : key ∈ table.entries.map Prod.fst then
    { entries := assign key value table.entries
      nodup   := assign_keys key value table.entries ▸ table.nodup }
  else
    { entries := table.entries ++ [(key, value)]
      nodup   := by
        simp only [List.map_append, List.map_cons, List.map_nil, List.nodup_append]
        refine ⟨table.nodup, by simp, ?_⟩
        intro a ha b hb
        simp only [List.mem_singleton] at hb
        exact fun e => h (hb ▸ e ▸ ha) }

def ofEntries [DecidableEq κ] (entries : List (κ × α)) : Table κ α :=
  entries.foldl (fun table entry => table.insert entry.1 entry.2) empty

def sortedByKey [LE κ] [DecidableLE κ] (table : Table κ α) : List (κ × α) :=
  table.entries.mergeSort fun a b => decide (a.1 ≤ b.1)

def sortedByValue [LE κ] [DecidableLE κ] [LT α] [DecidableLT α] [DecidableEq α]
    (table : Table κ α) : List (κ × α) :=
  table.entries.mergeSort fun a b => decide (a.2 < b.2 ∨ a.2 = b.2 ∧ a.1 ≤ b.1)

end Table

end ByteAsm
