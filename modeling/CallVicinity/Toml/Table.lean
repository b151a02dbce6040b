import CallVicinity.Toml.Basic

/-!
# Tables under construction

While a TOML text is read, a table can be open for more entries in some ways and closed in others: a
table that was only implied by the name of another one may still be defined, one that dotted keys
made may get more dotted keys, and an array of tables may get more tables. `Table.insert?` and the
two header functions refuse what would define something twice.
-/

namespace CallVicinity.Toml

/-- An entry of a table under construction. -/
inductive Entry where
  | value (v : Toml)
  /-- A table: whether it was only implied so far and whether dotted keys made it. -/
  | table (implied dotted : Bool) (entries : List (String × Entry))
  | tables (items : List (List (String × Entry)))

/-- A table under construction. -/
structure Table where
  /-- It was only named on the way to another one. -/
  implied : Bool
  /-- It was made by dotted keys. -/
  dotted : Bool
  entries : List (String × Entry)

namespace Table

/-- The table of a text before its first line. -/
def empty : Table := ⟨false, false, []⟩

/-- The table as an entry of another one. -/
def toEntry (t : Table) : Entry := .table t.implied t.dotted t.entries

/-- The entry with a key. -/
def get? (t : Table) (key : String) : Option Entry := t.entries.lookup key

/-- The table with the entry at a key replaced or added. -/
def set (t : Table) (key : String) (e : Entry) : Table :=
  if (t.get? key).isSome then
    { t with entries := t.entries.map fun p => if p.1 == key then (key, e) else p }
  else { t with entries := t.entries ++ [(key, e)] }

/-- Changes the table that a path of keys leads to, making the tables on the way that are not there.
Of an array of tables the last one is meant. With `byDots`, tables that have a definition of their own
are closed. -/
def alter? (byDots : Bool) (change : Table → Option Table) : List String → Table → Option Table
  | [], t => change t
  | key :: path, t =>
    match t.get? key with
    | none => (alter? byDots change path ⟨true, byDots, []⟩).map fun u => t.set key u.toEntry
    | some (.value _) => none
    | some (.tables items) =>
      match items.getLast? with
      | none => none
      | some last =>
        (alter? byDots change path ⟨false, false, last⟩).map fun u =>
          t.set key (.tables (items.dropLast ++ [u.entries]))
    | some (.table implied dotted entries) =>
      if byDots && !implied then none
      else (alter? byDots change path ⟨implied, dotted, entries⟩).map fun u => t.set key u.toEntry

/-- Adds a value under a dotted key, given as the keys before the last one and the last one. -/
def insert? (path : List String) (key : String) (v : Toml) : Table → Option Table :=
  alter? true (fun t =>
    if t.dotted == path.isEmpty || (t.get? key).isSome then none
    else some (t.set key (.value v))) path

/-- Defines the table with a name, given as the keys before the last one and the last one. -/
def define? (path : List String) (key : String) : Table → Option Table :=
  alter? false (fun t =>
    match t.get? key with
    | none => some (t.set key (.table false false []))
    | some (.table true false entries) => some (t.set key (.table false false entries))
    | _ => none) path

/-- Adds a table to the array of tables with a name. -/
def append? (path : List String) (key : String) : Table → Option Table :=
  alter? false (fun t =>
    match t.get? key with
    | none => some (t.set key (.tables [[]]))
    | some (.tables items) => some (t.set key (.tables (items ++ [[]])))
    | _ => none) path

end Table

mutual

/-- An entry as a value. -/
def Entry.toToml : Entry → Toml
  | .value v => v
  | .table _ _ entries => .table (Entry.listToToml entries)
  | .tables items => .array (Entry.tablesToToml items)

/-- Entries as the entries of a value. -/
def Entry.listToToml : List (String × Entry) → List (String × Toml)
  | [] => []
  | (k, e) :: es => (k, e.toToml) :: Entry.listToToml es

/-- Tables as values. -/
def Entry.tablesToToml : List (List (String × Entry)) → List Toml
  | [] => []
  | t :: ts => .table (Entry.listToToml t) :: Entry.tablesToToml ts

end

/-- A finished table as a value. -/
def Table.toToml (t : Table) : Toml := t.toEntry.toToml

end CallVicinity.Toml
