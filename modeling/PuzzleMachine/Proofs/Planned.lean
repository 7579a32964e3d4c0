import PuzzleMachine.Proofs.Plan

set_option autoImplicit false

namespace PuzzleMachine
namespace Memory

/-- The instruction at `pc` is executed by writing the effect and continues at the last index. -/
inductive Planned (m : Memory) (pc haltIndex : Nat) : MachineInstruction → Effect → Nat → Prop where
  | read {r : UInt64} {old v : Int32} (dest : m.registers[r.toNat]? = some old)
      (unread : m.input[m.cursor]? = some v) :
      Planned m pc haltIndex (.read r) (.consume r v) (pc + 1)
  | write {v : Value} {x : Int32} (source : m.value v = .ok x) :
      Planned m pc haltIndex (.write v) (.emit x) (pc + 1)
  | set {r : UInt64} {v : Value} {old x : Int32} (dest : m.registers[r.toNat]? = some old)
      (source : m.value v = .ok x) : Planned m pc haltIndex (.set r v) (.assign r x) (pc + 1)
  | arith {op : Arith} {r : UInt64} {v : Value} {a b x : Int32}
      (dest : m.registers[r.toNat]? = some a) (source : m.value v = .ok b)
      (divisor : op = .div → b ≠ 0) (result : op.apply? a b = some x) :
      Planned m pc haltIndex (.arith op r v) (.assign r x) (pc + 1)
  | cmp {r : UInt64} {a b : Value} {old x y : Int32} (dest : m.registers[r.toNat]? = some old)
      (left : m.value a = .ok x) (right : m.value b = .ok y) :
      Planned m pc haltIndex (.cmp r a b) (.assign r (compareValues x y)) (pc + 1)
  | push {v : Value} {k capacity : UInt64} {x : Int32} {vs : Array Int32}
      (source : m.value v = .ok x) (here : m.contents[k.toNat]? = some vs)
      (limit : m.capacities[k.toNat]? = some capacity) (room : vs.size < capacity.toNat) :
      Planned m pc haltIndex (.push v k) (.push k x (vs.size + 1)) (pc + 1)
  | pop {k r : UInt64} {old x : Int32} {vs : Array Int32}
      (dest : m.registers[r.toNat]? = some old) (here : m.contents[k.toNat]? = some vs)
      (last : vs.back? = some x) : Planned m pc haltIndex (.pop k r) (.pop k r x) (pc + 1)
  | jump {target : Nat} (inside : target ≤ haltIndex) :
      Planned m pc haltIndex (.jump target) .none target
  | branch {test : Test} {v : Value} {target : Nat} {x : Int32} (source : m.value v = .ok x)
      (inside : target ≤ haltIndex) :
      Planned m pc haltIndex (.branch test v target) .none
        (if test.holds x then target else pc + 1)

section Success

variable {m : Memory}

theorem register_ok {r : UInt64} {v : Int32} (found : m.register r = .ok v) :
    m.registers[r.toNat]? = some v := by
  rw [register] at found
  split at found
  next here =>
    cases found
    exact here
  next => cases found

theorem stack_ok {k : UInt64} {vs : Array Int32} (found : m.stack k = .ok vs) :
    m.contents[k.toNat]? = some vs := by
  rw [stack] at found
  split at found
  next here =>
    cases found
    exact here
  next => cases found

theorem assign_ok {r : UInt64} {v : Int32} {effect : Effect} (planned : m.assign r v = .ok effect) :
    effect = .assign r v ∧ ∃ old, m.registers[r.toNat]? = some old := by
  obtain ⟨old, found, same⟩ := bind_ok_iff.mp planned
  cases same
  exact ⟨rfl, old, register_ok found⟩

theorem read_ok {r : UInt64} {effect : Effect} (planned : m.read r = .ok effect) :
    ∃ v old, effect = .consume r v ∧ m.input[m.cursor]? = some v ∧
      m.registers[r.toNat]? = some old := by
  rw [read] at planned
  split at planned
  next => cases planned
  next v unread =>
    obtain ⟨old, found, same⟩ := bind_ok_iff.mp planned
    cases same
    exact ⟨v, old, rfl, unread, register_ok found⟩

theorem operate_ok {op : Arith} {r : UInt64} {v : Value} {effect : Effect}
    (planned : m.operate op r v = .ok effect) :
    ∃ a b x, effect = .assign r x ∧ m.registers[r.toNat]? = some a ∧ m.value v = .ok b ∧
      op.apply? a b = some x := by
  obtain ⟨a, found, rest⟩ := bind_ok_iff.mp planned
  obtain ⟨b, source, rest⟩ := bind_ok_iff.mp rest
  split at rest
  next => cases rest
  next x result =>
    cases rest
    exact ⟨a, b, x, rfl, register_ok found, source, result⟩

theorem arith_ok {op : Arith} {r : UInt64} {v : Value} {effect : Effect}
    (planned : m.arith op r v = .ok effect) :
    ∃ a b x, effect = .assign r x ∧ m.registers[r.toNat]? = some a ∧ m.value v = .ok b ∧
      (op = .div → b ≠ 0) ∧ op.apply? a b = some x := by
  rw [arith] at planned
  split at planned
  next divides =>
    obtain ⟨divisor, source, rest⟩ := bind_ok_iff.mp planned
    split at rest
    next => cases rest
    next nonzero =>
      obtain ⟨a, b, x, effect, dest, again, result⟩ := operate_ok rest
      -- The divisor is read twice, with the same result.
      cases source.symm.trans again
      exact ⟨a, divisor, x, effect, dest, source, fun _ => nonzero, result⟩
  next other =>
    obtain ⟨a, b, x, effect, dest, source, result⟩ := operate_ok planned
    exact ⟨a, b, x, effect, dest, source, fun divides => absurd divides other, result⟩

theorem push_ok {v : Int32} {k : UInt64} {effect : Effect} (planned : m.push v k = .ok effect) :
    ∃ vs capacity, effect = .push k v (vs.size + 1) ∧ m.contents[k.toNat]? = some vs ∧
      m.capacities[k.toNat]? = some capacity ∧ vs.size < capacity.toNat := by
  obtain ⟨vs, found, rest⟩ := bind_ok_iff.mp planned
  split at rest
  next => cases rest
  next capacity limit =>
    split at rest
    next => cases rest
    next room =>
      cases rest
      exact ⟨vs, capacity, rfl, stack_ok found, limit, Nat.lt_of_not_le room⟩

theorem pop_ok {k r : UInt64} {effect : Effect} (planned : m.pop k r = .ok effect) :
    ∃ old vs x, effect = .pop k r x ∧ m.registers[r.toNat]? = some old ∧
      m.contents[k.toNat]? = some vs ∧ vs.back? = some x := by
  obtain ⟨old, dest, rest⟩ := bind_ok_iff.mp planned
  obtain ⟨vs, found, rest⟩ := bind_ok_iff.mp rest
  split at rest
  next => cases rest
  next x last =>
    cases rest
    exact ⟨old, vs, x, rfl, register_ok dest, stack_ok found, last⟩

theorem jump_ok {haltIndex target next last : Nat} {taken : Bool}
    (planned : jump haltIndex target next taken = .ok last) :
    target ≤ haltIndex ∧ last = if taken then target else next := by
  rw [jump] at planned
  split at planned
  next => cases planned
  next inside =>
    cases planned
    exact ⟨Nat.le_of_not_lt inside, rfl⟩

theorem planned_of_plan {pc haltIndex next : Nat} {i : MachineInstruction} {effect : Effect}
    (plan : m.plan pc haltIndex i = .ok (effect, next)) :
    m.Planned pc haltIndex i effect next := by
  cases i with
  | read r =>
    obtain ⟨effect, read, same⟩ := bind_ok_iff.mp plan
    cases same
    obtain ⟨v, old, rfl, unread, dest⟩ := read_ok read
    exact .read dest unread
  | write v =>
    obtain ⟨x, source, same⟩ := bind_ok_iff.mp plan
    cases same
    exact .write source
  | set r v =>
    obtain ⟨x, source, rest⟩ := bind_ok_iff.mp plan
    obtain ⟨effect, assign, same⟩ := bind_ok_iff.mp rest
    cases same
    obtain ⟨rfl, old, dest⟩ := assign_ok assign
    exact .set dest source
  | arith op r v =>
    obtain ⟨effect, arith, same⟩ := bind_ok_iff.mp plan
    cases same
    obtain ⟨a, b, x, rfl, dest, source, divisor, result⟩ := arith_ok arith
    exact .arith dest source divisor result
  | cmp r a b =>
    obtain ⟨x, left, rest⟩ := bind_ok_iff.mp plan
    obtain ⟨y, right, rest⟩ := bind_ok_iff.mp rest
    obtain ⟨effect, assign, same⟩ := bind_ok_iff.mp rest
    cases same
    obtain ⟨rfl, old, dest⟩ := assign_ok assign
    exact .cmp dest left right
  | push v k =>
    obtain ⟨x, source, rest⟩ := bind_ok_iff.mp plan
    obtain ⟨effect, push, same⟩ := bind_ok_iff.mp rest
    cases same
    obtain ⟨vs, capacity, rfl, here, limit, room⟩ := push_ok push
    exact .push source here limit room
  | pop k r =>
    obtain ⟨effect, pop, same⟩ := bind_ok_iff.mp plan
    cases same
    obtain ⟨old, vs, x, rfl, dest, here, last⟩ := pop_ok pop
    exact .pop dest here last
  | jump target =>
    obtain ⟨last, jump, same⟩ := bind_ok_iff.mp plan
    cases same
    obtain ⟨inside, rfl⟩ := jump_ok jump
    exact .jump inside
  | branch test v target =>
    obtain ⟨x, source, rest⟩ := bind_ok_iff.mp plan
    obtain ⟨last, jump, same⟩ := bind_ok_iff.mp rest
    cases same
    obtain ⟨inside, rfl⟩ := jump_ok jump
    exact .branch source inside

theorem Planned.next_le {pc haltIndex next : Nat} {i : MachineInstruction} {effect : Effect}
    (planned : m.Planned pc haltIndex i effect next) (inside : pc < haltIndex) :
    next ≤ haltIndex := by
  cases planned with
  | jump target_le => exact target_le
  | branch _ target_le =>
    split
    · exact target_le
    · exact inside
  | _ => exact inside

end Success

/-- The ceiling is none of an instruction's reasons, and nothing breaks unless more values have been
read than there are. -/
def Refuses (m : Memory) : Stop → Prop
  | .fault (.timeout _) => False
  | .fault _ => True
  | .breach _ => m.input.size < m.cursor

section Failure

variable {m : Memory} {stop : Stop}

theorem register_error {r : UInt64} (fails : m.register r = .error stop) : m.Refuses stop := by
  rw [register] at fails
  split at fails <;> cases fails
  trivial

theorem stack_error {k : UInt64} (fails : m.stack k = .error stop) : m.Refuses stop := by
  rw [stack] at fails
  split at fails <;> cases fails
  trivial

theorem inputLength_error (fails : m.inputLength = .error stop) : m.Refuses stop := by
  rw [inputLength] at fails
  split at fails
  next => cases fails
  next beyond =>
    cases fails
    exact Nat.lt_of_not_le beyond

theorem value_error {v : Value} (fails : m.value v = .error stop) : m.Refuses stop := by
  rcases v with x | _ | k | r
  · cases fails
  · exact inputLength_error (map_error_iff.mp fails)
  · exact stack_error (map_error_iff.mp fails)
  · exact register_error fails

theorem assign_error {r : UInt64} {v : Int32} (fails : m.assign r v = .error stop) :
    m.Refuses stop := by
  rcases bind_error_iff.mp fails with dest | ⟨_, _, done⟩
  · exact register_error dest
  · cases done

theorem read_error {r : UInt64} (fails : m.read r = .error stop) : m.Refuses stop := by
  rw [read] at fails
  split at fails
  next =>
    cases fails
    trivial
  next =>
    rcases bind_error_iff.mp fails with dest | ⟨_, _, done⟩
    · exact register_error dest
    · cases done

theorem operate_error {op : Arith} {r : UInt64} {v : Value}
    (fails : m.operate op r v = .error stop) : m.Refuses stop := by
  rcases bind_error_iff.mp fails with dest | ⟨a, -, rest⟩
  · exact register_error dest
  rcases bind_error_iff.mp rest with source | ⟨b, -, rest⟩
  · exact value_error source
  split at rest <;> cases rest
  trivial

theorem arith_error {op : Arith} {r : UInt64} {v : Value} (fails : m.arith op r v = .error stop) :
    m.Refuses stop := by
  rw [arith] at fails
  split at fails
  next =>
    rcases bind_error_iff.mp fails with source | ⟨b, -, rest⟩
    · exact value_error source
    split at rest
    next =>
      cases rest
      trivial
    next => exact operate_error rest
  next => exact operate_error fails

theorem push_error {v : Int32} {k : UInt64} (fails : m.push v k = .error stop) :
    m.Refuses stop := by
  rcases bind_error_iff.mp fails with here | ⟨vs, -, rest⟩
  · exact stack_error here
  split at rest
  next =>
    cases rest
    trivial
  next =>
    split at rest <;> cases rest
    trivial

theorem pop_error {k r : UInt64} (fails : m.pop k r = .error stop) : m.Refuses stop := by
  rcases bind_error_iff.mp fails with dest | ⟨old, -, rest⟩
  · exact register_error dest
  rcases bind_error_iff.mp rest with here | ⟨vs, -, rest⟩
  · exact stack_error here
  split at rest <;> cases rest
  trivial

theorem jump_error {haltIndex target next : Nat} {taken : Bool}
    (fails : jump haltIndex target next taken = .error stop) : m.Refuses stop := by
  rw [jump] at fails
  split at fails <;> cases fails
  trivial

theorem refuses_of_plan {pc haltIndex : Nat} {i : MachineInstruction}
    (fails : m.plan pc haltIndex i = .error stop) : m.Refuses stop := by
  -- What comes last in a plan only puts it together.
  have finish {α : Type} {x : Except Stop α} {f : α → Effect × Nat}
      (fails : (do return f (← x)) = .error stop) : x = .error stop := by
    rcases bind_error_iff.mp fails with first | ⟨_, _, done⟩
    · exact first
    · cases done
  cases i with
  | read r => exact read_error (finish fails)
  | write v => exact value_error (finish fails)
  | set r v =>
    rcases bind_error_iff.mp fails with source | ⟨x, -, rest⟩
    · exact value_error source
    · exact assign_error (finish rest)
  | arith op r v => exact arith_error (finish fails)
  | cmp r a b =>
    rcases bind_error_iff.mp fails with left | ⟨x, -, rest⟩
    · exact value_error left
    rcases bind_error_iff.mp rest with right | ⟨y, -, rest⟩
    · exact value_error right
    · exact assign_error (finish rest)
  | push v k =>
    rcases bind_error_iff.mp fails with source | ⟨x, -, rest⟩
    · exact value_error source
    · exact push_error (finish rest)
  | pop k r => exact pop_error (finish fails)
  | jump target => exact jump_error (finish fails)
  | branch test v target =>
    rcases bind_error_iff.mp fails with source | ⟨x, -, rest⟩
    · exact value_error source
    · exact jump_error (finish rest)

end Failure

end Memory
end PuzzleMachine
