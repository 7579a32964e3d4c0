import PuzzleMachine.Verdict

set_option autoImplicit false

namespace PuzzleMachine

inductive Command where
  | compile (sources : List String) (hardware : Option String)
  | run (sources : List String) (hardware puzzle : Option String) (config : RunConfig)
      (json : Bool)
  | checkSpec (hardware puzzle : Option String)
deriving DecidableEq, Repr

inductive Request where
  | command (command : Command)
  | version
  | help
deriving DecidableEq, Repr

namespace Command

inductive Arity where
  | flag
  | path
  | paths
  | number
deriving DecidableEq, Repr

abbrev Given := List (String × List String)

inductive Stop where
  | misuse
  | help
deriving DecidableEq, Repr

def number? (s : String) : Option UInt64 :=
  let digits := if s.startsWith "+" then s.toList.drop 1 else s.toList
  let n := Nat.ofDigitChars 10 digits 0
  if !digits.isEmpty && digits.all Char.isDigit && n < UInt64.size then some (.ofNat n) else none

def Arity.accepts : Arity → String → Bool
  | .flag, _ => false
  | .path, v | .paths, v => v ≠ ""
  | .number, v => (number? v).isSome

def isValue (s : String) : Bool := s = "-" || !s.startsWith "-"

def give (arity : Arity) (name : String) (values : List String) (given : Given) :
    Except Stop Given :=
  if arity ≠ .paths ∧ (given.lookup name).isSome then .error .misuse
  else if values.all arity.accepts then .ok ((name, values) :: given)
  else .error .misuse

def valueCount (arity : Arity) (rest : List String) : Nat :=
  match arity with
  | .flag => 0
  | .paths => (rest.takeWhile isValue).length
  | .path | .number => if rest.head?.any isValue then 1 else 0

def splitOption (word : String) : String × Option String :=
  match (word.drop 2).toString.splitOn "=" with
  | name :: value :: more => (name, some (String.intercalate "=" (value :: more)))
  | parts => (String.join parts, none)

def readOptions (options : List (String × Arity)) (given : Given) :
    List String → Except Stop Given
  | [] => .ok given
  | word :: rest =>
      if word = "--" then
        if rest.isEmpty then .ok given else .error .misuse
      else if word.startsWith "--" then
        match splitOption word with
        | ("help", none) => .error .help
        | (name, attached) =>
            match options.lookup name, attached with
            | none, _ => .error .misuse
            | some arity, some value =>
                match give arity name [value] given with
                | .ok given => readOptions options given rest
                | .error stop => .error stop
            | some arity, none =>
                let count := valueCount arity rest
                if arity ≠ .flag ∧ count = 0 then .error .misuse
                else match give arity name (rest.take count) given with
                  | .ok given => readOptions options given (rest.drop count)
                  | .error stop => .error stop
      else if word.startsWith "-h" then .error .help
      else .error .misuse
termination_by words => words.length
decreasing_by all_goals simp only [List.length_cons, List.length_drop]; omega

def sourceOptions : List (String × Arity) := [("source", .paths), ("hardware", .path)]

def runOptions : List (String × Arity) :=
  sourceOptions ++ [("program", .path), ("max-cycles", .number), ("parallel", .flag),
    ("json", .flag), ("trace", .flag)]

def specOptions : List (String × Arity) := [("hardware", .path), ("program", .path)]

def value? (given : Given) (name : String) : Option String := (given.lookup name).bind List.head?

def isGiven (given : Given) (name : String) : Bool := (given.lookup name).isSome

def sources (given : Given) : Except Stop (List String) :=
  match given.reverse.flatMap fun (name, values) => if name = "source" then values else [] with
  | [] => .error .misuse
  | paths => .ok paths

def config (given : Given) : RunConfig where
  ceiling := ((value? given "max-cycles").bind number?).getD RunConfig.default.ceiling
  parallel := isGiven given "parallel"
  trace := isGiven given "trace"

def parseCompile (args : List String) : Except Stop Command := do
  let given ← readOptions sourceOptions [] args
  return .compile (← sources given) (value? given "hardware")

def parseRun (args : List String) : Except Stop Command := do
  let given ← readOptions runOptions [] args
  return .run (← sources given) (value? given "hardware") (value? given "program") (config given)
    (isGiven given "json")

def parseCheckSpec (args : List String) : Except Stop Command := do
  let given ← readOptions specOptions [] args
  return .checkSpec (value? given "hardware") (value? given "program")

def reader? : String → Option (List String → Except Stop Command)
  | "compile" => some parseCompile
  | "run" => some parseRun
  | "check-spec" => some parseCheckSpec
  | _ => none

end Command

namespace Request

def isHelpTopic : List String → Bool
  | [] => true
  | [name] => (Command.reader? name).isSome || name = "help"
  | _ => false

def parse? : List String → Option Request
  | [] => none
  | word :: rest =>
      if word = "--version" ∨ word.startsWith "-V" then some .version
      else if word = "--help" ∨ word.startsWith "-h" then some .help
      else if word = "help" then if isHelpTopic rest then some .help else none
      else do
        match (← Command.reader? word) rest with
        | .ok c => return .command c
        | .error .help => return .help
        | .error .misuse => none

end Request
end PuzzleMachine
