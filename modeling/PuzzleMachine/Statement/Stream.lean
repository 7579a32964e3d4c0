import PuzzleMachine.Statement.ParseError

set_option autoImplicit false

namespace PuzzleMachine

structure TokenStream where
  file : UInt16
  -- The token that was taken last.
  taken? : Option (Located Token)
  rest : List (Located Token)
deriving DecidableEq, Repr

namespace TokenStream

def ofTokens (file : UInt16) (tokens : List (Located Token)) : TokenStream := ⟨file, none, tokens⟩

def advance (s : TokenStream) : TokenStream :=
  match s.rest with
  | [] => s
  | t :: rest => { s with taken? := some t, rest }

def next? (s : TokenStream) : Option (Located Token) :=
  match s.rest with
  | [] | ⟨.newline, _⟩ :: _ => none
  | t :: _ => some t

def restOfLine (s : TokenStream) : List (Located Token) := s.rest.takeWhile (·.value ≠ .newline)

-- Where the next token is, be it a newline. At the end this is just past the last one.
def here (s : TokenStream) : Checked Span :=
  match s.rest, s.taken? with
  | t :: _, _ => .ok t.span
  | [], some last => last.span.justAfter s.file
  | [], none => .ok (.zero s.file)

def spanFrom (start : Span) (s : TokenStream) : Checked Span :=
  start.merge ((s.taken?.map Located.span).getD start)

def skipLineFrom (file : UInt16) : Option (Located Token) → List (Located Token) → TokenStream
  | taken?, [] => ⟨file, taken?, []⟩
  | _, t :: ts => if t.value = .newline then ⟨file, some t, ts⟩ else skipLineFrom file (some t) ts

def skipLine (s : TokenStream) : TokenStream := skipLineFrom s.file s.taken? s.rest

/-- The second stream is the first one after some tokens of its line, but not the newline, are
taken. -/
inductive SameLine : TokenStream → TokenStream → Prop where
  | start (s : TokenStream) : SameLine s s
  | take {file : UInt16} {taken? : Option (Located Token)} {t : Located Token}
      {rest : List (Located Token)} {s : TokenStream} (inLine : t.value ≠ .newline)
      (later : SameLine ⟨file, some t, rest⟩ s) : SameLine ⟨file, taken?, t :: rest⟩ s

theorem SameLine.trans {s s' s'' : TokenStream} (first : SameLine s s') (later : SameLine s' s'') :
    SameLine s s'' := by
  induction first with
  | start => exact later
  | take inLine _ ih => exact .take inLine (ih later)

theorem SameLine.skipLine_eq {s s' : TokenStream} (same : SameLine s s') :
    s'.skipLine = s.skipLine := by
  induction same with
  | start => rfl
  | take inLine _ ih => rw [ih, skipLine, skipLine, skipLineFrom, if_neg inLine]

theorem sameLine_advance {s : TokenStream} {t : Located Token} (next : s.next? = some t) :
    SameLine s s.advance := by
  obtain ⟨file, taken?, rest⟩ := s
  unfold next? at next
  split at next
  next => cases next
  next => cases next
  next t' later inLine same =>
    dsimp only at same
    subst same
    refine .take (fun newline => ?_) (.start _)
    obtain ⟨value, span⟩ := t'
    cases newline
    exact inLine span rfl

-- A line that has been taken up to its end is left by taking the newline, if there is one.
theorem skipLine_of_next?_eq_none {s : TokenStream} (ended : s.next? = none) :
    s.skipLine = s.advance := by
  obtain ⟨file, taken?, rest⟩ := s
  unfold next? at ended
  split at ended
  next same =>
    cases same
    rfl
  next same =>
    cases same
    rfl
  next => cases ended

theorem skipLineFrom_length_le {file : UInt16} {taken? : Option (Located Token)}
    {ts : List (Located Token)} : (skipLineFrom file taken? ts).rest.length ≤ ts.length := by
  induction ts generalizing taken? with
  | nil => exact Nat.le_refl _
  | cons t ts ih =>
    rw [skipLineFrom]
    split
    · exact Nat.le_succ _
    · exact Nat.le_succ_of_le ih

theorem skipLine_length_lt {s : TokenStream} (more : s.rest ≠ []) :
    s.skipLine.rest.length < s.rest.length := by
  obtain ⟨file, taken?, rest⟩ := s
  cases rest with
  | nil => exact absurd rfl more
  | cons t ts =>
    rw [skipLine, skipLineFrom]
    split
    · exact Nat.lt_succ_self _
    · exact Nat.lt_succ_of_le skipLineFrom_length_le

end TokenStream

abbrev TokenReader := ExceptT ParseError (StateT TokenStream Checked)

namespace TokenReader

variable {α β : Type}

def on (p : TokenReader α) (s : TokenStream) : Checked (Except ParseError α × TokenStream) :=
  p.run.run s

theorem on_get (s : TokenStream) : (get : TokenReader TokenStream).on s = .ok (.ok s, s) := rfl

theorem on_bind (p : TokenReader α) (f : α → TokenReader β) (s : TokenStream) :
    (p >>= f).on s = (p.on s).bind fun (result, later) =>
      match result with
      | .ok a => (f a).on later
      | .error e => .ok (.error e, later) := by
  change (p.on s).bind _ = _
  congr 1
  funext result
  rcases result with ⟨_ | _, later⟩ <;> rfl

theorem bind_on_ok_iff {p : TokenReader α} {f : α → TokenReader β} {s later : TokenStream} {b : β} :
    (p >>= f).on s = .ok (.ok b, later) ↔
      ∃ a s', p.on s = .ok (.ok a, s') ∧ (f a).on s' = .ok (.ok b, later) := by
  rw [on_bind]
  cases taken : p.on s with
  | error => simp [Except.bind]
  | ok reached =>
    obtain ⟨_ | a, s'⟩ := reached
    · simp [Except.bind]
    · simp [Except.bind, and_assoc]

def StaysInLine (p : TokenReader α) : Prop :=
  ∀ s result later, p.on s = .ok (result, later) → s.SameLine later

namespace StaysInLine

variable {p : TokenReader α} {f : α → TokenReader β}

theorem pure (a : α) : StaysInLine (pure a : TokenReader α) := by
  intro s result later read
  cases read
  exact .start s

theorem bind (first : p.StaysInLine) (next : ∀ a, (f a).StaysInLine) : (p >>= f).StaysInLine := by
  intro s result later read
  rw [on_bind] at read
  cases taken : p.on s with
  | error => simp [taken, Except.bind] at read
  | ok middle =>
    obtain ⟨reached, s'⟩ := middle
    have same := first s reached s' taken
    rw [taken] at read
    cases reached with
    | error =>
      cases read
      exact same
    | ok a => exact same.trans (next a s' result later read)

end StaysInLine

def EndsLine (p : TokenReader α) : Prop :=
  ∀ s a later, p.on s = .ok (.ok a, later) → later.next? = none

theorem EndsLine.bind {p : TokenReader α} {f : α → TokenReader β} (ends : ∀ a, (f a).EndsLine) :
    (p >>= f).EndsLine := by
  intro s b later read
  obtain ⟨a, s', -, read⟩ := bind_on_ok_iff.mp read
  exact ends a s' b later read

theorem EndsLine.map {p : TokenReader α} {f : α → β} (ends : p.EndsLine) : (f <$> p).EndsLine := by
  intro s b later read
  rw [map_eq_pure_bind] at read
  obtain ⟨a, s', taken, read⟩ := bind_on_ok_iff.mp read
  cases read
  exact ends s a later taken

end TokenReader
end PuzzleMachine
