import Stencil.Table
/-!
# TOML values

The values of a configuration file, and the tables they form while the file is read. TOML lets a
table be written in several places, but not in any two ways at once; for this a table remembers
how it came about.
-/

namespace Stencil

/-- A value of a configuration file. -/
inductive Toml
  | string (s : String)
  | integer (n : Int64)
  | float (x : Float)
  | bool (b : Bool)
  /-- A date, a time or both, as it is written. -/
  | datetime (text : String)
  | array (items : List Toml)
  | table (entries : List (String × Toml))

namespace Toml

instance : Inhabited Toml := ⟨table []⟩

/-- How a table came about. -/
inductive Origin
  /-- It has a header of its own. -/
  | header
  /-- It stands in the header of a table below it. -/
  | implied
  /-- It stands in a dotted key. -/
  | dotted
  deriving DecidableEq

/-- What stands under a key while the file is read. -/
inductive Entry
  | value (v : Toml)
  | table (origin : Origin) (entries : List (String × Entry))
  /-- Tables under one repeated header, all of whose entries but those of the last are final. -/
  | tables (earlier : List (List (String × Entry))) (last : List (String × Entry))

/-- The entries of a table while the file is read. -/
abbrev Entries := Table Entry

namespace Entry

mutual

/-- The value of a finished entry. -/
def toToml : Entry → Toml
  | value v => v
  | table _ entries => .table (toTomlEntries entries)
  | tables earlier last => .array (toTomlTables earlier ++ [.table (toTomlEntries last)])

def toTomlEntries : List (String × Entry) → List (String × Toml)
  | [] => []
  | (k, e) :: es => (k, toToml e) :: toTomlEntries es

def toTomlTables : List (List (String × Entry)) → List Toml
  | [] => []
  | es :: ess => .table (toTomlEntries es) :: toTomlTables ess

end

end Entry

/-- Writes a value under a dotted key, given as the path to its table and the last part. Tables on
the way are made if they are missing; tables with a header are closed, and the table at the end
must have come about in the same way, which `fits` tells. -/
def define (key : String) (v : Toml) : (fits : Bool) → List String → Entries → Option Entries
  | fits, [], entries =>
    if fits && !Table.has entries key then some (entries ++ [(key, .value v)]) else none
  | _, k :: ks, entries =>
    match Table.get? entries k with
    | none => do
      let inner ← define key v true ks []
      return Table.insert entries k (.table .dotted inner)
    | some (.table origin inner) =>
      if origin = .header then none
      else do
        let inner ← define key v (origin == .dotted) ks inner
        return Table.insert entries k (.table origin inner)
    | some (.tables earlier last) => do
      let last ← define key v false ks last
      return Table.insert entries k (.tables earlier last)
    | some (.value _) => none

/-- Writes the pairs of one table. -/
def defineAll (pairs : List (List String × String × Toml)) (entries : Entries) : Option Entries :=
  pairs.foldlM (fun entries p => define p.2.1 p.2.2 true p.1 entries) entries

/-- Changes the entries of the table at the end of a path. Tables on the way are made if they are
missing; of tables under a repeated header the last one is taken. -/
def reach (f : Entries → Option Entries) : List String → Entries → Option Entries
  | [], entries => f entries
  | k :: ks, entries =>
    match Table.get? entries k with
    | none => do
      let inner ← reach f ks []
      return Table.insert entries k (.table .implied inner)
    | some (.table origin inner) => do
      let inner ← reach f ks inner
      return Table.insert entries k (.table origin inner)
    | some (.tables earlier last) => do
      let last ← reach f ks last
      return Table.insert entries k (.tables earlier last)
    | some (.value _) => none

/-- Writes a table with a header. It may have been implied before, but not written. -/
def defineTable (key : String) (body : Entries → Option Entries) (entries : Entries) :
    Option Entries :=
  match Table.get? entries key with
  | none => do return Table.insert entries key (.table .header (← body []))
  | some (.table .implied inner) => do
    return Table.insert entries key (.table .header (← body inner))
  | some _ => none

/-- Writes one more table under a repeated header. -/
def defineNext (key : String) (body : Entries → Option Entries) (entries : Entries) :
    Option Entries :=
  match Table.get? entries key with
  | none => do return Table.insert entries key (.tables [] (← body []))
  | some (.tables earlier last) => do
    return Table.insert entries key (.tables (earlier ++ [last]) (← body []))
  | some _ => none

end Toml

end Stencil
