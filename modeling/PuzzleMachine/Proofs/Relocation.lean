import PuzzleMachine.Proofs.Reading

set_option autoImplicit false

namespace PuzzleMachine

namespace Span

/-- What covers two spans moves along with them. -/
def Moves (f : Span → Span) : Prop := ∀ a b c, merge a b = .ok c → merge (f a) (f b) = .ok (f c)

def inFile (file : UInt16) (s : Span) : Span := { s with file }

-- The same place, so many files later.
def later (count : Nat) (s : Span) : Span := { s with file := s.file + .ofNat count }

theorem merge_ok_iff {a b c : Span} : a.merge b = .ok c ↔ a.file = b.file ∧ a.cover b = c := by
  rw [merge]
  split <;> simp_all

theorem moves_zero (file : UInt16) : Moves fun _ => zero file := by
  intro a b c _
  exact merge_ok_iff.mpr ⟨rfl, rfl⟩

theorem moves_inFile (file : UInt16) : Moves (inFile file) := by
  intro a b c merged
  obtain ⟨-, rfl⟩ := merge_ok_iff.mp merged
  refine merge_ok_iff.mpr ⟨rfl, ?_⟩
  by_cases first : a.start ≤ b.start <;> simp [cover, inFile, first]

theorem moves_later (count : Nat) : Moves (later count) := by
  intro a b c merged
  obtain ⟨same, rfl⟩ := merge_ok_iff.mp merged
  refine merge_ok_iff.mpr ⟨congrArg (· + .ofNat count) same, ?_⟩
  by_cases first : a.start ≤ b.start <;> simp [cover, later, first]

end Span

namespace Operand

variable {R V S T R' V' S' T' : Type}

def map (r : R → R') (v : V → V') (s : S → S') (t : T → T') :
    Operand R V S T → Operand R' V' S' T'
  | .dest d => .dest (r d)
  | .value a => .value (v a)
  | .stack k => .stack (s k)
  | .target l => .target (t l)

end Operand

namespace Instruction

variable {R V S T R' V' S' T' : Type}

def map (r : R → R') (v : V → V') (s : S → S') (t : T → T') :
    Instruction R V S T → Instruction R' V' S' T'
  | .read d => .read (r d)
  | .write a => .write (v a)
  | .set d a => .set (r d) (v a)
  | .arith op d a => .arith op (r d) (v a)
  | .cmp d a b => .cmp (r d) (v a) (v b)
  | .push a k => .push (v a) (s k)
  | .pop k d => .pop (s k) (r d)
  | .jump l => .jump (t l)
  | .branch test a l => .branch test (v a) (t l)

variable (r : R → R') (v : V → V') (s : S → S') (t : T → T') (i : Instruction R V S T)

@[simp] theorem opcode_map : (i.map r v s t).opcode = i.opcode := by
  cases i <;> rfl

theorem map_self : i.map (fun d => d) (fun a => a) (fun k => k) (fun l => l) = i := by
  cases i <;> rfl

@[simp] theorem operands_map : (i.map r v s t).operands = i.operands.map (.map r v s t) := by
  cases i <;> rfl

end Instruction

section Relocate

variable (f : Span → Span)

def Located.relocate {α : Type} (a : Located α) : Located α := ⟨a.value, f a.span⟩

def Operand.relocate (o : SourceOperand) : SourceOperand :=
  o.map (.relocate f) (.relocate f) (.relocate f) (.relocate f)

def Instruction.relocate (i : SourceInstruction) : SourceInstruction :=
  i.map (.relocate f) (.relocate f) (.relocate f) (.relocate f)

def Statement.relocate : Statement → Statement
  | .label l => .label (l.relocate f)
  | .instruction i => .instruction ⟨i.value.relocate f, f i.span⟩

@[simp] theorem Located.value_relocate {α : Type} (a : Located α) :
    (a.relocate f).value = a.value := rfl

@[simp] theorem Located.span_relocate {α : Type} (a : Located α) :
    (a.relocate f).span = f a.span := rfl

@[simp] theorem Instruction.opcode_relocate (i : SourceInstruction) :
    (i.relocate f).opcode = i.opcode :=
  opcode_map ..

@[simp] theorem Instruction.operands_relocate (i : SourceInstruction) :
    (i.relocate f).operands = i.operands.map (.relocate f) :=
  operands_map ..

theorem Statement.relocate_self (s : Statement) : (s.relocate fun span => span) = s := by
  rcases s with l | ⟨i, span⟩
  · rfl
  · cases i <;> rfl

end Relocate

section Parse

variable {f : Span → Span} {s s' later : TokenStream} {statements : List Statement}

theorem Denotes.relocate {t : Located Token} {o : SourceOperand} (denotes : Denotes t o) :
    Denotes (t.relocate f) (o.relocate f) := by
  cases denotes <;> constructor

theorem lastSpan_relocate (start : Span) (ts : List (Located Token)) :
    lastSpan (f start) (ts.map (.relocate f)) = f (lastSpan start ts) := by
  rw [lastSpan, lastSpan, List.getLast?_map]
  cases ts.getLast? <;> rfl

theorem TokenStream.restOfLine_relocate (same : s'.rest = s.rest.map (.relocate f)) :
    s'.restOfLine = s.restOfLine.map (.relocate f) := by
  rw [restOfLine, same, List.takeWhile_map]
  rfl

theorem TokenStream.skipLine_relocate (same : s'.rest = s.rest.map (.relocate f)) :
    s'.skipLine.rest = s.skipLine.rest.map (.relocate f) := by
  obtain ⟨file, taken?, rest⟩ := s
  obtain ⟨file', taken?', _⟩ := s'
  subst same
  induction rest generalizing taken? taken?' with
  | nil => rfl
  | cons t rest ih =>
    by_cases newline : t.value = .newline
    · simp [skipLine, skipLineFrom, newline]
    · simpa [skipLine, skipLineFrom, newline] using ih (some t) (some (t.relocate f))

theorem parseBody_relocate (moves : Span.Moves f)
    (same : s'.restOfLine = s.restOfLine.map (.relocate f))
    (read : parseBody.on s = .ok (.ok statements, later)) :
    ∃ later', parseBody.on s' = .ok (.ok (statements.map (.relocate f)), later') := by
  cases next : s.next? with
  | none =>
    rw [parseBody_on_end next] at read
    cases read
    rw [TokenStream.restOfLine_of_next?_eq_none next] at same
    exact ⟨s', parseBody_on_end (TokenStream.next?_eq_none_of_restOfLine same)⟩
  | some t =>
    obtain ⟨value, start⟩ := t
    rw [TokenStream.restOfLine_of_next? next] at same
    obtain ⟨next', rest⟩ := TokenStream.exists_next?_of_restOfLine same
    by_cases keyword : ∃ op, value = .opcode op
    · obtain ⟨op, rfl⟩ := keyword
      have opened := TokenStream.taken?_of_next? next
      rw [parseBody_on_opcode next] at read
      obtain ⟨i, s₁, read, done⟩ := TokenReader.bind_on_ok_iff.mp read
      cases done
      obtain ⟨opcode, denotes, place⟩ := (parseInstruction_ok_iff opened).mp ⟨_, read⟩
      have opened' : s'.advance.taken? = some ⟨.opcode op, f start⟩ :=
        TokenStream.taken?_of_next? next'
      -- The same operands, moved, are read after the opcode, and the span of the whole moves too.
      have parsed := @parseInstruction_ok_iff op (f start) s'.advance
        ⟨i.value.relocate f, f i.span⟩ opened'
      rw [rest, lastSpan_relocate, Instruction.opcode_relocate, Instruction.operands_relocate,
        List.forall₂_map_left_iff, List.forall₂_map_right_iff] at parsed
      obtain ⟨later', read'⟩ := parsed.mpr
        ⟨opcode, denotes.imp fun _ _ here => here.relocate, moves _ _ _ place⟩
      refine ⟨later', ?_⟩
      rw [parseBody_on_opcode next']
      exact TokenReader.bind_on_ok_iff.mpr ⟨_, later', read', rfl⟩
    · obtain ⟨e, unread⟩ := parseBody_on_other next fun op same => keyword ⟨op, same⟩
      rw [unread] at read
      cases read

theorem parseLine_relocate (moves : Span.Moves f) (same : s'.rest = s.rest.map (.relocate f))
    (read : parseLine.on s = .ok (.ok statements, later)) :
    ∃ later', parseLine.on s' = .ok (.ok (statements.map (.relocate f)), later') := by
  have line := TokenStream.restOfLine_relocate same
  rcases parseLine_cases s with
      ⟨name, span, colon, s₁, labelled, -, first⟩ | ⟨unlabelled, first⟩ <;>
    rcases parseLine_cases s' with
      ⟨name', span', colon', s₁', labelled', -, first'⟩ | ⟨unlabelled', first'⟩
  · rw [labelled, labelled', List.map_cons, List.map_cons, List.cons.injEq, List.cons.injEq] at line
    obtain ⟨label, -, line⟩ := line
    obtain ⟨rfl, rfl⟩ : name' = name ∧ span' = f span := by simpa [Located.relocate] using label
    rw [first] at read
    obtain ⟨body, s₂, read, done⟩ := TokenReader.bind_on_ok_iff.mp read
    cases done
    obtain ⟨later', read'⟩ := parseBody_relocate moves line read
    rw [first']
    exact ⟨later', TokenReader.bind_on_ok_iff.mpr ⟨_, later', read', rfl⟩⟩
  · rw [labelled] at line
    exact absurd line (unlabelled' name (f span) (f colon) _)
  · rw [labelled'] at line
    obtain ⟨⟨_, span⟩, _, labelled, same, later⟩ := List.map_eq_cons_iff.mp line.symm
    obtain ⟨⟨_, colon⟩, ts, rfl, same', -⟩ := List.map_eq_cons_iff.mp later
    cases same
    cases same'
    exact absurd labelled (unlabelled _ _ _ _)
  · rw [first] at read
    rw [first']
    exact parseBody_relocate moves line read

theorem parseLines_relocate (moves : Span.Moves f) {parts : List (List Statement)}
    (same : s'.rest = s.rest.map (.relocate f)) (read : parseLines s = .ok (parts.map .ok)) :
    parseLines s' = .ok ((parts.map (List.map (.relocate f))).map .ok) := by
  induction s using TokenStream.by_lines generalizing s' parts with
  | ended s ended =>
    rw [parseLines_of_nil ended] at read
    cases List.map_eq_nil_iff.mp (Except.ok.inj read).symm
    rw [ended] at same
    exact parseLines_of_nil same
  | line s more ih =>
    have more' : s'.rest ≠ [] := by
      rw [same]
      exact fun none => more (List.map_eq_nil_iff.mp none)
    obtain ⟨result, s₁, rest, line, lines, whole⟩ := (parseLines_cons_ok_iff more).mp read
    obtain ⟨part, parts, rfl, rfl, rfl⟩ := List.map_eq_cons_iff.mp whole
    obtain ⟨s₁', line'⟩ := parseLine_relocate moves same line
    have lines' := ih (TokenStream.skipLine_relocate same) lines
    exact (parseLines_cons_ok_iff more').mpr ⟨_, s₁', _, line', lines', rfl⟩

theorem parseTokens_relocate (moves : Span.Moves f) {tokens : List (Located Token)}
    {file file' : UInt16} {u : ParsedUnit} (parsed : parseTokens tokens file = .ok (.ok u)) :
    parseTokens (tokens.map (.relocate f)) file' =
      .ok (.ok ⟨file', u.statements.map (.relocate f)⟩) := by
  obtain ⟨results, lines, same⟩ := bind_ok_iff.mp parsed
  obtain ⟨parts, collected, rfl⟩ := map_ok_iff.mp (Except.ok.inj same)
  cases collect_ok collected
  have lines' := @parseLines_relocate f _ (.ofTokens file' (tokens.map (.relocate f))) moves _ rfl
    lines
  rw [parseTokens, lines', ok_bind, collect_map_ok]
  simp [Except.map, List.map_flatten, pure, Except.pure]

end Parse

end PuzzleMachine
