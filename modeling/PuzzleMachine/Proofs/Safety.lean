import PuzzleMachine.Proofs.Turn

set_option autoImplicit false

namespace PuzzleMachine

def FaultKind.isInvalid : FaultKind → Bool
  | .invalidJump _ | .invalidRegister _ | .invalidStack _ => true
  | .stackOverflow _ _ | .stackUnderflow _ | .arithmetic _ | .inputExhausted | .timeout _ => false

namespace Hardware

def Has (hw : Hardware) : Register → Prop
  | .inputLength => True
  | .stackLength k => k.toNat < hw.capacities.length
  | .user r => r.toNat < hw.registers.toNat

def Fits (hw : Hardware) (haltIndex : Nat) : Operand UInt64 Value UInt64 Nat → Prop
  | .dest r => hw.Has (.user r)
  | .value (.literal _) => True
  | .value (.register r) => hw.Has r
  | .stack k => k.toNat < hw.capacities.length
  | .target t => t ≤ haltIndex

structure Admits (hw : Hardware) (haltIndex : Nat) (i : MachineInstruction) : Prop where
  opcode : hw.permits i.opcode
  operands : ∀ o ∈ i.operands, hw.Fits haltIndex o

end Hardware

-- The outcome satisfies `P`, or else is a fault that code can meet on any hardware.
def Safely {α : Type} (P : α → Prop) : Except Stop α → Prop
  | .ok a => P a
  | .error (.fault kind) => kind.isInvalid = false
  | .error (.breach _) => False

theorem Safely.bind {α β : Type} {P : α → Prop} {Q : β → Prop} {x : Except Stop α}
    {f : α → Except Stop β} (first : Safely P x) (next : ∀ a, P a → Safely Q (f a)) :
    Safely Q (x >>= f) := by
  rcases x with (kind | b) | a
  · exact first
  · exact first
  · exact next a first

namespace Memory

structure Sized (hw : Hardware) (m : Memory) : Prop where
  registers : m.registers.size = hw.registers.toNat
  contents : m.contents.size = hw.capacities.length
  capacities : m.capacities.size = hw.capacities.length
  cursor : m.cursor ≤ m.input.size

theorem fresh_sized (hw : Hardware) (input : List Int32) : (fresh hw input).Sized hw := by
  constructor <;> simp [fresh]

section Sized

variable {hw : Hardware} {m : Memory}

theorem Sized.apply (sized : m.Sized hw) {effect : Effect}
    (unread : ∀ r v, effect = .consume r v → m.cursor < m.input.size) :
    (m.apply effect).Sized hw := by
  obtain ⟨registers, contents, capacities, cursor⟩ := sized
  cases effect with
  | consume r v => exact ⟨by simpa [Memory.apply], contents, capacities, unread r v rfl⟩
  | _ => constructor <;> simpa [Memory.apply]

theorem Sized.register (sized : m.Sized hw) {r : UInt64} (has : hw.Has (.user r)) :
    ∃ v, m.register r = .ok v := by
  have inside : r.toNat < m.registers.size := sized.registers ▸ has
  exact ⟨m.registers[r.toNat], by rw [Memory.register, Array.getElem?_eq_getElem inside]⟩

theorem Sized.stack (sized : m.Sized hw) {k : UInt64} (has : k.toNat < hw.capacities.length) :
    ∃ vs, m.stack k = .ok vs := by
  have inside : k.toNat < m.contents.size := sized.contents ▸ has
  exact ⟨m.contents[k.toNat], by rw [Memory.stack, Array.getElem?_eq_getElem inside]⟩

theorem Sized.value (sized : m.Sized hw) {haltIndex : Nat} {v : Value}
    (fits : hw.Fits haltIndex (.value v)) : ∃ x, m.value v = .ok x := by
  cases v with
  | literal x => exact ⟨x, rfl⟩
  | register r =>
    cases r with
    | inputLength =>
      rw [Memory.value, inputLength, if_pos sized.cursor]
      exact ⟨_, rfl⟩
    | stackLength k =>
      obtain ⟨vs, found⟩ := sized.stack fits
      rw [Memory.value, found]
      exact ⟨_, rfl⟩
    | user r => exact sized.register fits

abbrev Keeps (hw : Hardware) (m : Memory) (effect : Effect) : Prop := (m.apply effect).Sized hw

theorem Sized.assign (sized : m.Sized hw) {r : UInt64} (has : hw.Has (.user r)) (v : Int32) :
    Safely (m.Keeps hw) (m.assign r v) := by
  obtain ⟨old, found⟩ := sized.register has
  rw [Memory.assign, found]
  exact sized.apply (by simp)

theorem Sized.read (sized : m.Sized hw) {r : UInt64} (has : hw.Has (.user r)) :
    Safely (m.Keeps hw) (m.read r) := by
  obtain ⟨old, found⟩ := sized.register has
  rw [Memory.read]
  cases next : m.input[m.cursor]? with
  | none => rfl
  | some v =>
    -- The value that is read is one of the input, so reading cannot pass its end.
    obtain ⟨unread, -⟩ := Array.getElem?_eq_some_iff.mp next
    simp only [found, ok_bind]
    exact sized.apply fun _ _ _ => unread

theorem Sized.operate (sized : m.Sized hw) (op : Arith) {r : UInt64} {haltIndex : Nat} {v : Value}
    (has : hw.Has (.user r)) (fits : hw.Fits haltIndex (.value v)) :
    Safely (m.Keeps hw) (m.operate op r v) := by
  obtain ⟨a, dest⟩ := sized.register has
  obtain ⟨b, source⟩ := sized.value fits
  rw [Memory.operate, dest, ok_bind, source, ok_bind]
  cases op.apply? a b with
  | none => rfl
  | some result => exact sized.apply (by simp)

theorem Sized.arith (sized : m.Sized hw) (op : Arith) {r : UInt64} {haltIndex : Nat} {v : Value}
    (has : hw.Has (.user r)) (fits : hw.Fits haltIndex (.value v)) :
    Safely (m.Keeps hw) (m.arith op r v) := by
  obtain ⟨b, source⟩ := sized.value fits
  rw [Memory.arith, source]
  by_cases divides : op = .div
  · by_cases zero : b = 0
    · simp only [divides, zero, ok_bind, if_true]
      rfl
    · simpa only [divides, zero, ok_bind, if_true, if_false] using sized.operate .div has fits
  · simpa only [divides, if_false] using sized.operate op has fits

theorem Sized.push (sized : m.Sized hw) (v : Int32) {k : UInt64}
    (has : k.toNat < hw.capacities.length) : Safely (m.Keeps hw) (m.push v k) := by
  obtain ⟨vs, found⟩ := sized.stack has
  have inside : k.toNat < m.capacities.size := sized.capacities ▸ has
  rw [Memory.push, found, ok_bind, Array.getElem?_eq_getElem inside]
  by_cases full : m.capacities[k.toNat].toNat ≤ vs.size
  · simp only [full, if_true]
    rfl
  · simp only [full, if_false]
    exact sized.apply (by simp)

theorem Sized.pop (sized : m.Sized hw) {k r : UInt64} (hasStack : k.toNat < hw.capacities.length)
    (has : hw.Has (.user r)) : Safely (m.Keeps hw) (m.pop k r) := by
  obtain ⟨old, dest⟩ := sized.register has
  obtain ⟨vs, found⟩ := sized.stack hasStack
  rw [Memory.pop, dest, ok_bind, found, ok_bind]
  cases vs.back? with
  | none => rfl
  | some v => exact sized.apply (by simp)

theorem jump_safely {haltIndex target next : Nat} {taken : Bool} (inside : target ≤ haltIndex)
    (next_le : next ≤ haltIndex) :
    Safely (· ≤ haltIndex) (jump haltIndex target next taken) := by
  rw [jump, if_neg (Nat.not_lt.mpr inside)]
  cases taken <;> assumption

theorem Sized.plan (sized : m.Sized hw) {pc haltIndex : Nat} {i : MachineInstruction}
    (fits : ∀ o ∈ i.operands, hw.Fits haltIndex o) (inside : pc < haltIndex) :
    Safely (fun planned => m.Keeps hw planned.1 ∧ planned.2 ≤ haltIndex)
      (m.plan pc haltIndex i) := by
  -- An instruction that is no jump continues behind itself.
  have onward : ∀ planned : Except Stop Effect, Safely (m.Keeps hw) planned →
      Safely (fun p => m.Keeps hw p.1 ∧ p.2 ≤ haltIndex)
        (planned >>= fun effect => pure (effect, pc + 1)) :=
    fun _ safely => safely.bind fun _ keeps => ⟨keeps, inside⟩
  have across : ∀ target taken, target ≤ haltIndex →
      Safely (fun p => m.Keeps hw p.1 ∧ p.2 ≤ haltIndex)
        (jump haltIndex target (pc + 1) taken >>= fun next => pure (Effect.none, next)) :=
    fun _ _ bound => (jump_safely bound inside).bind fun _ next_le =>
      ⟨sized.apply (by simp), next_le⟩
  cases i <;> simp only [Instruction.operands, List.forall_mem_cons] at fits
  case read r => exact onward _ (sized.read fits.1)
  case write v =>
    obtain ⟨x, found⟩ := sized.value fits.1
    rw [Memory.plan, found]
    exact ⟨sized.apply (by simp), inside⟩
  case set r v =>
    obtain ⟨x, found⟩ := sized.value fits.2.1
    rw [Memory.plan, found]
    exact onward _ (sized.assign fits.1 x)
  case arith op r v => exact onward _ (sized.arith op fits.1 fits.2.1)
  case cmp r a b =>
    obtain ⟨x, left⟩ := sized.value fits.2.1
    obtain ⟨y, right⟩ := sized.value fits.2.2.1
    rw [Memory.plan, left, ok_bind, right]
    exact onward _ (sized.assign fits.1 (compareValues x y))
  case push v k =>
    obtain ⟨x, found⟩ := sized.value fits.1
    rw [Memory.plan, found]
    exact onward _ (sized.push x fits.2.1)
  case pop k r => exact onward _ (sized.pop fits.1 fits.2.1)
  case jump t => exact across t true fits.1
  case branch test v t =>
    obtain ⟨x, found⟩ := sized.value fits.1
    rw [Memory.plan, found]
    exact across t (test.holds x) fits.2.1

end Sized
end Memory

namespace Machine

variable {hw : Hardware} {m m' : Machine}

structure Sound (hw : Hardware) (m : Machine) : Prop where
  admitted : ∀ i ∈ m.code.instructions, hw.Admits m.code.haltIndex i
  paired : m.code.Paired
  memory : m.state.toMemory.Sized hw
  inside : m.state.pc ≤ m.code.haltIndex
  early : m.state.cycles ≤ m.ceiling.toNat
  counted : m.state.executed = m.state.cycles
  valid : ∀ f, m.state.status = .faulted f → f.kind.isInvalid = false

theorem fresh_sound {code : Code} (admitted : ∀ i ∈ code.instructions, hw.Admits code.haltIndex i)
    (paired : code.Paired) (input : List Int32) (ceiling : UInt64) :
    (fresh code hw input ceiling).Sound hw where
  admitted := admitted
  paired := paired
  memory := Memory.fresh_sized hw input
  inside := Nat.zero_le _
  early := Nat.zero_le _
  counted := rfl
  valid := nofun

theorem Fetched.planned_safely {i : MachineInstruction} {span : Span} (sound : m.Sound hw)
    (fetched : m.Fetched i span) :
    Safely (fun planned => m.state.toMemory.Keeps hw planned.1 ∧ planned.2 ≤ m.code.haltIndex)
      (m.planned i) := by
  have admits := sound.admitted i (Array.mem_of_getElem? fetched.coded)
  exact sound.memory.plan admits.operands (Nat.lt_of_le_of_ne sound.inside fetched.inside)

theorem Sound.turn (sound : m.Sound hw) : ∃ m', m.Turn m' :=
  exists_turn sound.paired sound.inside sound.counted sound.memory.cursor

theorem Turn.sound (turn : m.Turn m') (sound : m.Sound hw) : m'.Sound hw := by
  cases turn with
  | rest => exact sound
  | halt => exact { sound with valid := nofun }
  | timeout => exact { sound with valid := fun f same => by cases same; rfl }
  | fault fetched fails =>
    have safely := fetched.planned_safely sound
    rw [fails] at safely
    exact { sound with valid := fun f same => by cases same; exact safely }
  | @execute i span effect next fetched succeeds =>
    have safely := fetched.planned_safely sound
    rw [succeeds] at safely
    obtain ⟨keeps, inside⟩ := safely
    have counted : m.state.executed + 1 = m.state.cycles + 1 := congrArg (· + 1) sound.counted
    exact ⟨sound.admitted, sound.paired, keeps, inside, fetched.early, counted,
      fun f faulted => (executed_not_faulted faulted).elim⟩

theorem Reaches.sound (reached : m.Reaches m') (sound : m.Sound hw) : m'.Sound hw := by
  induction reached with
  | start => exact sound
  | step _ stepped ih => exact (step?_ok_iff.mp stepped).sound ih
  | record _ ih => exact ⟨ih.admitted, ih.paired, ih.memory, ih.inside, ih.early, ih.counted, ih.valid⟩

end Machine
end PuzzleMachine
