import Pom8.Fault

/-!
# Symbol tables

A symbol table maps names to addresses.  Names are compared without regard to
the case of ASCII letters, and the first definition of a name is the only one.
-/

namespace Pom8

/-- A name with its address and the line that defines it. -/
structure Symbol where
  name : String
  address : Nat
  line : Nat
  deriving DecidableEq, Repr

/-- The order of listings: by address, then by name. -/
def Symbol.le (a b : Symbol) : Bool :=
  a.address < b.address || (a.address == b.address && decide (a.name ≤ b.name))

/-- The symbols of a source in the order of their definition, no two of one
name. -/
structure SymbolTable where
  entries : List Symbol
  names_nodup : (entries.map Symbol.name).Nodup
  deriving DecidableEq, Repr

namespace SymbolTable

/-- The table without symbols. -/
def empty : SymbolTable := ⟨[], List.nodup_nil⟩

/-- The symbol of a name, which may be written in any case. -/
def find? (table : SymbolTable) (name : String) : Option Symbol :=
  let key := Text.lower name
  table.entries.find? fun symbol => symbol.name == key

/-- Whether a name is defined. -/
def contains (table : SymbolTable) (name : String) : Bool :=
  (table.find? name).isSome

/-- The address of a name, if it is defined. -/
def address? (table : SymbolTable) (name : String) : Option Nat :=
  (table.find? name).map Symbol.address

/-- The number of symbols. -/
def size (table : SymbolTable) : Nat :=
  table.entries.length

/-- Whether there are no symbols. -/
def isEmpty (table : SymbolTable) : Bool :=
  table.entries.isEmpty

/-- A name without a symbol can be added at the end. -/
theorem names_nodup_concat
    {table : SymbolTable} {name : String} (h : table.find? name = none)
    (address line : Nat) :
    ((table.entries ++ [(⟨Text.lower name, address, line⟩ : Symbol)]).map
      Symbol.name).Nodup := by
  have hfresh : ∀ symbol ∈ table.entries, symbol.name ≠ Text.lower name := by
    simpa [find?, List.find?_eq_none] using h
  simp only [List.map_append, List.map_cons, List.map_nil, List.nodup_append]
  refine ⟨table.names_nodup, by simp, ?_⟩
  simpa using hfresh

/-- Defines a name, unless the table has it already. -/
def define (table : SymbolTable) (name : String) (address line : Nat) :
    Except Fault SymbolTable :=
  match h : table.find? name with
  | some first => .error (.duplicateLabel line name first.line)
  | none =>
    .ok ⟨table.entries ++ [⟨Text.lower name, address, line⟩],
      names_nodup_concat h address line⟩

/-- Defines the names of some symbols in order, up to the first that is refused. -/
def ofList (symbols : List Symbol) : Except Fault SymbolTable :=
  symbols.foldlM (fun table symbol =>
    table.define symbol.name symbol.address symbol.line) empty

/-- The symbols in the order of listings. -/
def sorted (table : SymbolTable) : List Symbol :=
  table.entries.mergeSort Symbol.le

end SymbolTable
end Pom8
