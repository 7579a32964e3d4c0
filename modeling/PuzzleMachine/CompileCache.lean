import PuzzleMachine.Compilation

set_option autoImplicit false

namespace PuzzleMachine

-- A kept program. Programs are numbered in the order in which they are stored.
structure CachedProgram where
  units : List SourceUnit
  hardware : Hardware
  serial : Nat
  code : Code

structure CompileCache where
  entries : List CachedProgram
  -- Requests are counted in words, which start again at zero.
  hits : UInt64
  misses : UInt64
  stored : Nat

namespace CompileCache

def empty : CompileCache := ⟨[], 0, 0, 0⟩

def find? (c : CompileCache) (units : List SourceUnit) (hw : Hardware) : Option CachedProgram :=
  c.entries.find? fun e => e.units = units ∧ e.hardware = hw

/-- The answer for these units, and the cache after it. A request that nothing kept can answer
counts as a miss before the units are compiled, so also where compiling them stops. -/
def request (c : CompileCache) (units : List SourceUnit) (hw : Hardware) :
    Checked (Diagnosed CachedProgram) × CompileCache :=
  match c.find? units hw with
  | some e => (.ok (.ok e), { c with hits := c.hits + 1 })
  | none =>
      let c := { c with misses := c.misses + 1 }
      match (compile units hw).map Compilation.result with
      | .error breach => (.error breach, c)
      | .ok (.error ds) => (.ok (.error ds), c)
      | .ok (.ok program) =>
          let e := ⟨units, hw, c.stored, program.code⟩
          (.ok (.ok e), { c with entries := e :: c.entries, stored := c.stored + 1 })

def get (c : CompileCache) (units : List SourceUnit) (hw : Hardware) :
    Checked (Diagnosed CachedProgram × CompileCache) :=
  let (answer, c) := c.request units hw
  answer.map fun result => (result, c)

def clear (c : CompileCache) : CompileCache := { c with entries := [] }

def size (c : CompileCache) : Nat := c.entries.length

end CompileCache
end PuzzleMachine
