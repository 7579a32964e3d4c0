import PuzzleMachine.Statement

set_option autoImplicit false

namespace PuzzleMachine

structure LabelEntry where
  name : String
  -- Index of the instruction that follows the declaration.
  target : Nat
  span : Span
deriving DecidableEq, Repr

-- All units share one namespace and one numbering of instructions.
structure LabelTable where
  entries : List LabelEntry
deriving DecidableEq, Repr

namespace LabelTable

def empty : LabelTable := ⟨[]⟩

def find? (t : LabelTable) (name : String) : Option LabelEntry :=
  t.entries.find? fun e => e.name == name

def target? (t : LabelTable) (name : String) : Option Nat := (t.find? name).map LabelEntry.target

def contains (t : LabelTable) (name : String) : Bool := (t.find? name).isSome

/-- The entry that has the name already, if there is one, and the table afterwards. -/
def record (t : LabelTable) (e : LabelEntry) : Option LabelEntry × LabelTable :=
  match t.find? e.name with
  | some first => (some first, t)
  | none => (none, ⟨t.entries ++ [e]⟩)

def declare (t : LabelTable) (e : LabelEntry) : LabelTable := (t.record e).2

-- Declares the labels among `statements`, whose first instruction has index `next`.
def collectFrom (t : LabelTable) (next : Nat) : List Statement → LabelTable
  | [] => t
  | .label l :: rest => collectFrom (t.declare ⟨l.value, next, l.span⟩) next rest
  | .instruction _ :: rest => collectFrom t (next + 1) rest

def collect (units : List ParsedUnit) : LabelTable :=
  empty.collectFrom 0 (units.flatMap ParsedUnit.statements)

end LabelTable
end PuzzleMachine
