import Mathlib.Logic.Embedding.Basic
import PuzzleMachine.Proofs.Ceiling
import PuzzleMachine.Proofs.Relocation
import PuzzleMachine.Proofs.Trail

set_option autoImplicit false

namespace PuzzleMachine

def FaultKind.isShortage : FaultKind → Bool
  | .stackOverflow _ _ | .invalidRegister _ | .invalidStack _ => true
  | .stackUnderflow _ | .arithmetic _ | .inputExhausted | .invalidJump _ | .timeout _ => false

/-- Other names for registers and stacks, no two of them the same. -/
structure Naming where
  register : UInt64 ↪ UInt64
  stack : UInt64 ↪ UInt64

namespace Naming

def same : Naming := ⟨.refl _, .refl _⟩

variable (names : Naming)

def mapRegister : Register → Register
  | .inputLength => .inputLength
  | .stackLength k => .stackLength (names.stack k)
  | .user r => .user (names.register r)

def mapValue : Value → Value
  | .literal v => .literal v
  | .register r => .register (names.mapRegister r)

def mapInstruction (i : MachineInstruction) : MachineInstruction :=
  i.map names.register names.mapValue names.stack id

def mapCode (c : Code) : Code := { c with instructions := c.instructions.map names.mapInstruction }

def mapKind : FaultKind → FaultKind
  | .stackOverflow k capacity => .stackOverflow (names.stack k) capacity
  | .stackUnderflow k => .stackUnderflow (names.stack k)
  | .invalidRegister r => .invalidRegister (names.register r)
  | .invalidStack k => .invalidStack (names.stack k)
  | .arithmetic e => .arithmetic e
  | .inputExhausted => .inputExhausted
  | .invalidJump target => .invalidJump target
  | .timeout ceiling => .timeout ceiling

def mapStatus : Status → Status
  | .faulted f => .faulted { f with kind := names.mapKind f.kind }
  | .ready => .ready
  | .running => .running
  | .halted => .halted

def mapEffect : Effect → Effect
  | .none => .none
  | .consume r v => .consume (names.register r) v
  | .assign r v => .assign (names.register r) v
  | .emit v => .emit v
  | .push k v depth => .push (names.stack k) v depth
  | .pop k r v => .pop (names.stack k) (names.register r) v

section Same

end Same

@[simp] theorem isTerminal_mapStatus (s : Status) :
    (names.mapStatus s).isTerminal = s.isTerminal := by
  cases s <;> rfl

@[simp] theorem haltIndex_mapCode (c : Code) : (names.mapCode c).haltIndex = c.haltIndex :=
  Array.size_map

theorem userRegisters_mapInstruction (i : MachineInstruction) :
    (names.mapInstruction i).userRegisters = i.userRegisters.map names.register := by
  have value (v : Value) : (names.mapValue v).user? = v.user?.map names.register := by
    rcases v with x | _ | k | r <;> rfl
  have toList (o : Option UInt64) : (o.map names.register).toList = o.toList.map names.register :=
    Option.toList_map ..
  cases i <;> simp [mapInstruction, Instruction.map, Instruction.userRegisters, value, toList]

-- The second outcome is the first one under other names. With more room it need not be, where the
-- first one is a shortage.
def Follows (room : Prop) {α β : Type} (f : α → β) : Except Stop α → Except Stop β → Prop
  | .ok a, y => y = .ok (f a)
  | .error (.fault kind), y =>
      room ∧ kind.isShortage = true ∨ y = .error (.fault (names.mapKind kind))
  | .error (.breach b), y => y = .error (.breach b)

variable {names} {room : Prop}

theorem Follows.bind {α β γ δ : Type} {f : α → β} {g : γ → δ} {x : Except Stop α}
    {y : Except Stop β} {u : α → Except Stop γ} {w : β → Except Stop δ}
    (first : names.Follows room f x y) (next : ∀ a, names.Follows room g (u a) (w (f a))) :
    names.Follows room g (x >>= u) (y >>= w) := by
  rcases x with (kind | b) | a
  · rcases first with short | rfl
    · exact .inl short
    · exact .inr rfl
  · cases first
    rfl
  · cases first
    exact next a

theorem Follows.map {α β γ δ : Type} {f : α → β} {g : γ → δ} {x : Except Stop α}
    {y : Except Stop β} {u : α → γ} {w : β → δ} (first : names.Follows room f x y)
    (same : ∀ a, w (f a) = g (u a)) : names.Follows room g (x.map u) (y.map w) := by
  rcases x with (kind | b) | a
  · rcases first with short | rfl
    · exact .inl short
    · exact .inr rfl
  · cases first
    rfl
  · cases first
    exact congrArg Except.ok (same a)

end Naming

/-- What `xs` has, `ys` has under other names. It has nothing but blanks elsewhere, and nothing at
all without more room. -/
structure Held {α : Type} (name : UInt64 ↪ UInt64) (room : Prop) (blank : α) (xs ys : Array α) :
    Prop where
  here : ∀ i v, xs[i.toNat]? = some v → ys[(name i).toNat]? = some v
  missing : room ∨ ∀ i, xs[i.toNat]? = none → ys[(name i).toNat]? = none
  elsewhere : ∀ j v, ys[j.toNat]? = some v → v = blank ∨ ∃ i, name i = j ∧ i.toNat < xs.size

section Held

variable {α : Type} {name : UInt64 ↪ UInt64} {room : Prop} {blank : α} {xs ys : Array α} {k : UInt64}

theorem Held.cases (held : Held name room blank xs ys) (i : UInt64) :
    (∃ v, xs[i.toNat]? = some v ∧ ys[(name i).toNat]? = some v) ∨
      xs[i.toNat]? = none ∧ (room ∨ ys[(name i).toNat]? = none) := by
  cases here : xs[i.toNat]? with
  | some v => exact .inl ⟨v, rfl, held.here i v here⟩
  | none => exact .inr ⟨rfl, held.missing.imp_right fun missing => missing i here⟩

theorem toNat_name_ne {i : UInt64} (other : k ≠ i) : (name k).toNat ≠ (name i).toNat :=
  fun index => other (name.injective (UInt64.toNat_inj.mp index))

theorem Held.set (held : Held name room blank xs ys) (inside : k.toNat < xs.size) (v : α) :
    Held name room blank (xs.setIfInBounds k.toNat v) (ys.setIfInBounds (name k).toNat v) where
  here i w there := by
    by_cases same : k = i
    next =>
      subst same
      have named := held.here k _ (Array.getElem?_eq_getElem inside)
      have inside' := (Array.getElem?_eq_some_iff.mp named).1
      rw [Array.getElem?_setIfInBounds_self_of_lt inside] at there
      rwa [Array.getElem?_setIfInBounds_self_of_lt inside']
    next =>
      rw [Array.getElem?_setIfInBounds_ne fun index => same (UInt64.toNat_inj.mp index)] at there
      rw [Array.getElem?_setIfInBounds_ne (toNat_name_ne same)]
      exact held.here i w there
  missing := held.missing.imp_right fun missing i none => by
    simp only [Array.getElem?_eq_none_iff, Array.size_setIfInBounds] at missing none ⊢
    exact missing i none
  elsewhere j w there := by
    rw [Array.size_setIfInBounds]
    by_cases same : name k = j
    next => exact .inr ⟨k, same, inside⟩
    next =>
      rw [Array.getElem?_setIfInBounds_ne fun index => same (UInt64.toNat_inj.mp index)] at there
      exact held.elsewhere j w there

theorem modify_eq_set {i : Nat} {v : α} (here : xs[i]? = some v) (f : α → α) :
    xs.modify i f = xs.setIfInBounds i (f v) := by
  obtain ⟨inside, rfl⟩ := Array.getElem?_eq_some_iff.mp here
  refine Array.ext_getElem? fun j => ?_
  rw [Array.getElem?_modify, Array.getElem?_setIfInBounds]
  by_cases same : i = j
  next =>
    subst same
    simp [inside]
  next => simp [same]

theorem Held.modify (held : Held name room blank xs ys) {v : α} (here : xs[k.toNat]? = some v)
    (f : α → α) :
    Held name room blank (xs.modify k.toNat f) (ys.modify (name k).toNat f) := by
  rw [modify_eq_set here, modify_eq_set (held.here k v here)]
  exact held.set (Array.getElem?_eq_some_iff.mp here).1 (f v)

end Held

namespace Memory

/-- The second memory has what the first one has, under other names and perhaps with more room. -/
structure Holds (names : Naming) (room : Prop) (m m' : Memory) : Prop where
  registers : Held names.register room 0 m.registers m'.registers
  contents : Held names.stack room #[] m.contents m'.contents
  limited : ∀ k c, m.capacities[k.toNat]? = some c →
    ∃ c', m'.capacities[(names.stack k).toNat]? = some c' ∧ c ≤ c' ∧ (room ∨ c' = c)
  unlimited : room ∨ ∀ k : UInt64, m.capacities[k.toNat]? = none →
    m'.capacities[(names.stack k).toNat]? = none
  input : m'.input = m.input
  cursor : m'.cursor = m.cursor
  output : m'.output = m.output
  peak : m'.peak = m.peak

namespace Holds

variable {names : Naming} {room : Prop} {m m' : Memory} (held : m.Holds names room m')

include held

theorem register (r : UInt64) :
    names.Follows room id (m.register r) (m'.register (names.register r)) := by
  rw [Memory.register, Memory.register]
  rcases held.registers.cases r with ⟨v, here, there⟩ | ⟨here, wide | there⟩
  · rw [here, there]
    rfl
  · rw [here]
    exact .inl ⟨wide, rfl⟩
  · rw [here, there]
    exact .inr rfl

theorem stack (k : UInt64) : names.Follows room id (m.stack k) (m'.stack (names.stack k)) := by
  rw [Memory.stack, Memory.stack]
  rcases held.contents.cases k with ⟨vs, here, there⟩ | ⟨here, wide | there⟩
  · rw [here, there]
    rfl
  · rw [here]
    exact .inl ⟨wide, rfl⟩
  · rw [here, there]
    exact .inr rfl

theorem inputLength : names.Follows room id m.inputLength m'.inputLength := by
  rw [Memory.inputLength, Memory.inputLength, held.input, held.cursor]
  split <;> rfl

theorem value (v : Value) : names.Follows room id (m.value v) (m'.value (names.mapValue v)) := by
  rcases v with x | _ | k | r
  · rfl
  · exact held.inputLength.map fun _ => rfl
  · exact (held.stack k).map fun _ => rfl
  · exact held.register r

theorem assign (r : UInt64) (v : Int32) :
    names.Follows room names.mapEffect (m.assign r v) (m'.assign (names.register r) v) :=
  (held.register r).bind fun _ => rfl

theorem read (r : UInt64) :
    names.Follows room names.mapEffect (m.read r) (m'.read (names.register r)) := by
  rw [Memory.read, Memory.read, held.input, held.cursor]
  cases m.input[m.cursor]? with
  | none => exact .inr rfl
  | some v => exact (held.register r).bind fun _ => rfl

theorem operate (op : Arith) (r : UInt64) (v : Value) :
    names.Follows room names.mapEffect (m.operate op r v)
      (m'.operate op (names.register r) (names.mapValue v)) := by
  refine (held.register r).bind fun a => (held.value v).bind fun b => ?_
  simp only [id_eq]
  cases op.apply? a b with
  | none => exact .inr rfl
  | some result => rfl

theorem arith (op : Arith) (r : UInt64) (v : Value) :
    names.Follows room names.mapEffect (m.arith op r v)
      (m'.arith op (names.register r) (names.mapValue v)) := by
  by_cases divides : op = .div
  next =>
    simp only [Memory.arith, divides, if_true]
    refine (held.value v).bind fun divisor => ?_
    by_cases zero : divisor = 0
    next =>
      simp only [id_eq, zero, if_true]
      exact .inr rfl
    next =>
      simp only [id_eq, zero, if_false]
      exact held.operate .div r v
  next => simpa only [Memory.arith, divides, if_false] using held.operate op r v

theorem push (v : Int32) (k : UInt64) :
    names.Follows room names.mapEffect (m.push v k) (m'.push v (names.stack k)) := by
  refine (held.stack k).bind fun vs => ?_
  cases limit : m.capacities[k.toNat]? with
  | none =>
    rcases held.unlimited with wide | unlimited
    · exact .inl ⟨wide, rfl⟩
    · rw [unlimited k limit]
      exact .inr rfl
  | some capacity =>
    obtain ⟨capacity', limit', le, alike⟩ := held.limited k capacity limit
    have le : capacity.toNat ≤ capacity'.toNat := le
    rw [limit']
    simp only [id_eq]
    by_cases full : capacity.toNat ≤ vs.size
    next =>
      rw [if_pos full]
      rcases alike with wide | rfl
      · exact .inl ⟨wide, rfl⟩
      · rw [if_pos full]
        exact .inr rfl
    next =>
      rw [if_neg full, if_neg (by omega)]
      rfl

theorem pop (k r : UInt64) :
    names.Follows room names.mapEffect (m.pop k r) (m'.pop (names.stack k) (names.register r)) := by
  refine (held.register r).bind fun _ => (held.stack k).bind fun vs => ?_
  simp only [id_eq]
  cases vs.back? with
  | none => exact .inr rfl
  | some v => rfl

omit held in
theorem jump (haltIndex target next : Nat) (taken : Bool) :
    names.Follows room id (Memory.jump haltIndex target next taken)
      (Memory.jump haltIndex target next taken) := by
  rw [Memory.jump]
  split
  · exact .inr rfl
  · rfl

theorem plan (pc haltIndex : Nat) (i : MachineInstruction) :
    names.Follows room (fun planned => (names.mapEffect planned.1, planned.2))
      (m.plan pc haltIndex i) (m'.plan pc haltIndex (names.mapInstruction i)) := by
  cases i with
  | read r => exact (held.read r).bind fun _ => rfl
  | write v => exact (held.value v).bind fun _ => rfl
  | set r v => exact (held.value v).bind fun x => (held.assign r x).bind fun _ => rfl
  | arith op r v => exact (held.arith op r v).bind fun _ => rfl
  | cmp r a b =>
    exact (held.value a).bind fun x => (held.value b).bind fun y =>
      (held.assign r (compareValues x y)).bind fun _ => rfl
  | push v k => exact (held.value v).bind fun x => (held.push x k).bind fun _ => rfl
  | pop k r => exact (held.pop k r).bind fun _ => rfl
  | jump target => exact (jump haltIndex target (pc + 1) true).bind fun _ => rfl
  | branch test v target =>
    exact (held.value v).bind fun x =>
      (jump haltIndex target (pc + 1) (test.holds x)).bind fun _ => rfl

theorem apply {pc haltIndex next : Nat} {i : MachineInstruction} {effect : Effect}
    (planned : m.Planned pc haltIndex i effect next) :
    (m.apply effect).Holds names room (m'.apply (names.mapEffect effect)) := by
  have inside {r : UInt64} {old : Int32} (dest : m.registers[r.toNat]? = some old) :
      r.toNat < m.registers.size := (Array.getElem?_eq_some_iff.mp dest).1
  cases planned with
  | read dest =>
    exact { held with
      registers := held.registers.set (inside dest) _
      cursor := congrArg (· + 1) held.cursor }
  | set dest | arith dest | cmp dest =>
    exact { held with registers := held.registers.set (inside dest) _ }
  | write => exact { held with output := congrArg (Array.push · _) held.output }
  | @push v k capacity x vs source here =>
    exact { held with
      contents := held.contents.modify here (·.push x)
      peak := congrArg (max · _) held.peak }
  | pop dest here =>
    exact { held with
      registers := held.registers.set (inside dest) _
      contents := held.contents.modify here Array.pop }
  | jump | branch => exact held

end Holds

end Memory

structure State.Holds (names : Naming) (room : Prop) (s s' : State) : Prop
    extends s.toMemory.Holds names room s'.toMemory where
  pc : s'.pc = s.pc
  cycles : s'.cycles = s.cycles
  executed : s'.executed = s.executed
  tracked : s.touched.size = s.registers.size
  tracked' : s'.touched.size = s'.registers.size
  marks : ∃ named, Marked s.touched named ∧ Marked s'.touched (named.map names.register)
  status : s'.status = names.mapStatus s.status

theorem State.Holds.registersUsed {names : Naming} {room : Prop} {s s' : State}
    (held : s.Holds names room s') : s'.registersUsed = s.registersUsed := by
  obtain ⟨named, marked, marked'⟩ := held.marks
  rw [State.registersUsed, State.registersUsed, marked.count, marked'.count, Finset.card_map]

theorem State.Holds.marks_touch {names : Naming} {room : Prop} {s s' : State}
    (held : s.Holds names room s') {i : MachineInstruction}
    (inside : ∀ r ∈ i.userRegisters, r.toNat < s.registers.size) :
    ∃ named, Marked (touch s.touched i.userRegisters) named ∧
      Marked (touch s'.touched (names.mapInstruction i).userRegisters)
        (named.map names.register) := by
  obtain ⟨named, marked, marked'⟩ := held.marks
  rw [names.userRegisters_mapInstruction]
  have inside' (r : UInt64) (member : r ∈ i.userRegisters.map names.register) :
      r.toNat < s'.touched.size := by
    obtain ⟨r₀, listed, rfl⟩ := List.mem_map.mp member
    have here := Array.getElem?_eq_getElem (inside r₀ listed)
    rw [held.tracked']
    exact (Array.getElem?_eq_some_iff.mp (held.registers.here r₀ _ here)).1
  have renamed : (i.userRegisters.map names.register).toFinset =
      i.userRegisters.toFinset.map names.register := by
    ext r
    simp
  refine ⟨_, marked.touch (held.tracked ▸ inside), ?_⟩
  rw [Finset.map_union, ← renamed]
  exact marked'.touch inside'

namespace Machine

structure Holds (names : Naming) (room : Prop) (m m' : Machine) : Prop where
  code : m'.code = names.mapCode m.code
  state : m.state.Holds names room m'.state
  ceiling : m'.ceiling = m.ceiling
  trace : m'.trace = m.trace

section Turn

variable {names : Naming} {room : Prop} {m m' m₁ : Machine} {span : Span} {i : MachineInstruction}

theorem Holds.withStatus (held : m.Holds names room m') (status : Status) :
    (m.withStatus status).Holds names room (m'.withStatus (names.mapStatus status)) :=
  { held with state := { held.state with status := rfl } }

theorem Holds.faulted (held : m.Holds names room m') (kind : FaultKind) (span : Span) :
    (m.faulted kind span).Holds names room (m'.faulted (names.mapKind kind) span) := by
  have stopped := held.withStatus (.faulted ⟨kind, m.state.pc, span⟩)
  rwa [Machine.faulted, Machine.faulted, held.state.pc]

theorem Holds.haltIndex (held : m.Holds names room m') : m'.code.haltIndex = m.code.haltIndex := by
  rw [held.code, Naming.haltIndex_mapCode]

theorem Holds.active (held : m.Holds names room m') (active : m.Active span) : m'.Active span where
  working := by rw [held.state.status, Naming.isTerminal_mapStatus, active.working]
  inside := by rw [held.state.pc, held.haltIndex]; exact active.inside
  here := by rw [held.state.pc, held.code]; exact active.here

theorem Holds.fetched (held : m.Holds names room m') (fetched : m.Fetched i span) :
    m'.Fetched (names.mapInstruction i) span where
  toActive := held.active fetched.toActive
  early := by rw [held.state.cycles, held.ceiling]; exact fetched.early
  coded := by
    rw [held.state.pc, held.code]
    exact Array.getElem?_map.trans (congrArg (Option.map names.mapInstruction) fetched.coded)

theorem Holds.planned (held : m.Holds names room m') (i : MachineInstruction) :
    names.Follows room (fun planned => (names.mapEffect planned.1, planned.2))
      (m.planned i) (m'.planned (names.mapInstruction i)) := by
  rw [Machine.planned, Machine.planned, held.state.pc, held.haltIndex]
  exact held.state.plan m.state.pc m.code.haltIndex i

theorem Holds.executed (held : m.Holds names room m') {effect : Effect} {next : Nat}
    (succeeds : m.planned i = .ok (effect, next)) :
    (m.executed i span effect next).Holds names room
      (m'.executed (names.mapInstruction i) span (names.mapEffect effect) next) where
  code := held.code
  ceiling := held.ceiling
  trace := by
    simp only [Machine.executed, held.trace, held.state.cycles, held.state.pc]
  state := by
    have planned := Memory.planned_of_plan succeeds
    exact {
      toHolds := held.state.toHolds.apply planned
      pc := rfl
      cycles := congrArg (· + 1) held.state.cycles
      executed := congrArg (· + 1) held.state.executed
      tracked := by
        rw [Machine.executed, State.touch_size, Memory.size_registers_apply, held.state.tracked]
      tracked' := by
        rw [Machine.executed, State.touch_size, Memory.size_registers_apply, held.state.tracked']
      marks := held.state.marks_touch fun _ => planned.inside
      status := by
        simp only [Machine.executed, held.haltIndex]
        split <;> rfl }

def Ample (m : Machine) : Prop :=
  ∀ f, m.state.status = .faulted f → f.kind.isShortage = false

-- A step of the first machine is one of the second, unless that has more room and the first one
-- runs short of something.
theorem Turn.held (turn : m.Turn m₁) (held : m.Holds names room m')
    (ample : room → m₁.Ample) : ∃ m₁', m'.Turn m₁' ∧ m₁.Holds names room m₁' := by
  cases turn with
  | rest terminal =>
    refine ⟨m', .rest ?_, held⟩
    rw [held.state.status, Naming.isTerminal_mapStatus, terminal]
  | halt working atEnd =>
    refine ⟨m'.withStatus .halted, .halt ?_ ?_, held.withStatus .halted⟩
    · rw [held.state.status, Naming.isTerminal_mapStatus, working]
    · rw [held.state.pc, held.haltIndex, atEnd]
  | @timeout span active late =>
    refine ⟨m'.faulted (.timeout m'.ceiling) span, .timeout (held.active active) ?_, ?_⟩
    · rw [held.ceiling, held.state.cycles]
      exact late
    · rw [held.ceiling]
      exact held.faulted _ span
  | @fault i span kind fetched fails =>
    have follows := held.planned i
    rw [fails] at follows
    rcases follows with ⟨wide, short⟩ | fails'
    · cases short.symm.trans (ample wide _ rfl)
    exact ⟨_, .fault (held.fetched fetched) fails', held.faulted kind span⟩
  | @execute i span effect next fetched succeeds cycles executed =>
    have succeeds' := held.planned i
    rw [succeeds] at succeeds'
    refine ⟨_, .execute (held.fetched fetched) succeeds' ?_ ?_, held.executed succeeds⟩
    · rw [held.state.cycles]
      exact cycles
    · rw [held.state.executed]
      exact executed

end Turn

section Runs

variable {names : Naming} {room : Prop} {m m' m₁ : Machine} {n : Nat}

theorem Runs.ample_before (runs : m.Runs n m₁) (ample : m₁.Ample) : m.Ample :=
  fun f faulted => ample f (runs.faulted faulted)

theorem Runs.held (runs : m.Runs n m₁) (held : m.Holds names room m')
    (ample : room → m₁.Ample) : ∃ m₁', m'.Runs n m₁' ∧ m₁.Holds names room m₁' := by
  induction runs generalizing m' with
  | stop terminal =>
    refine ⟨m', .stop ?_, held⟩
    rw [held.state.status, Naming.isTerminal_mapStatus, terminal]
  | step working stepped later ih =>
    obtain ⟨m₂', turn, held'⟩ := (step?_ok_iff.mp stepped).held held
      fun wide => later.ample_before (ample wide)
    obtain ⟨m₁', later', last⟩ := ih held' ample
    refine ⟨m₁', .step ?_ (step?_ok_iff.mpr turn) later', last⟩
    rw [held.state.status, Naming.isTerminal_mapStatus, working]

end Runs

end Machine

structure Hardware.Holds (names : Naming) (room : Prop) (hw hw' : Hardware) : Prop where
  registers : ∀ r, r.toNat < hw.registers.toNat → (names.register r).toNat < hw'.registers.toNat
  registered : room ∨ ∀ r, (names.register r).toNat < hw'.registers.toNat →
    r.toNat < hw.registers.toNat
  limited : ∀ k c, hw.capacities[k.toNat]? = some c →
    ∃ c', hw'.capacities[(names.stack k).toNat]? = some c' ∧ c ≤ c' ∧ (room ∨ c' = c)
  unlimited : room ∨ ∀ k : UInt64, hw.capacities[k.toNat]? = none →
    hw'.capacities[(names.stack k).toNat]? = none

section Fresh

variable {names : Naming} {room : Prop} {hw hw' : Hardware}

theorem held_replicate {α : Type} {name : UInt64 ↪ UInt64} (blank : α) {size size' : Nat}
    (inside : ∀ i : UInt64, i.toNat < size → (name i).toNat < size')
    (outside : room ∨ ∀ i, (name i).toNat < size' → i.toNat < size) :
    Held name room blank (Array.replicate size blank) (Array.replicate size' blank) where
  here i v there := by
    obtain ⟨bound, rfl⟩ := by simpa [Array.getElem?_replicate] using there
    simpa [Array.getElem?_replicate] using inside i bound
  missing := outside.imp_right fun outside i none => by
    simp only [Array.getElem?_eq_none_iff, Array.size_replicate] at none ⊢
    exact Nat.le_of_not_lt fun bound => Nat.not_lt.mpr none (outside i bound)
  elsewhere j v there := by
    obtain ⟨-, rfl⟩ := by simpa [Array.getElem?_replicate] using there
    exact .inl rfl

theorem Hardware.Holds.fresh (held : hw.Holds names room hw') (input : List Int32) :
    (Memory.fresh hw input).Holds names room (Memory.fresh hw' input) where
  registers := held_replicate 0 held.registers held.registered
  contents := by
    refine held_replicate #[] (fun k inside => ?_) (held.unlimited.imp_right fun unlimited k => ?_)
    · obtain ⟨c, limit, -⟩ := held.limited k _ (List.getElem?_eq_getElem inside)
      exact (List.getElem?_eq_some_iff.mp limit).1
    · contrapose
      simpa using unlimited k
  limited := by simpa [Memory.fresh] using held.limited
  unlimited := by simpa [Memory.fresh] using held.unlimited
  input := rfl
  cursor := rfl
  output := rfl
  peak := rfl

theorem Hardware.Holds.state (held : hw.Holds names room hw') (input : List Int32) :
    (State.fresh hw input).Holds names room (State.fresh hw' input) where
  toHolds := held.fresh input
  pc := rfl
  cycles := rfl
  executed := rfl
  tracked := by simp [State.fresh, Memory.fresh]
  tracked' := by simp [State.fresh, Memory.fresh]
  marks := ⟨∅, .none _, .none _⟩
  status := rfl

theorem Hardware.Holds.launched (held : hw.Holds names room hw') (code : Code)
    (input : List Int32) (traced : Bool) (c : UInt64) :
    (Machine.launched code hw input traced c).Holds names room
      (Machine.launched (names.mapCode code) hw' input traced c) := by
  cases traced <;> exact ⟨rfl, held.state input, rfl, rfl⟩

end Fresh
end PuzzleMachine
