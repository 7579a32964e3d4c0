import PuzzleMachine.Json

set_option autoImplicit false

namespace PuzzleMachine.Json

def hex4 (n : Nat) : List Char :=
  let digits := Nat.toDigits 16 n
  List.replicate (4 - digits.length) '0' ++ digits

def writeChar (c : Char) : List Char :=
  match c.toNat with
  | 34 => ['\\', '"']
  | 92 => ['\\', '\\']
  | 8 => ['\\', 'b']
  | 9 => ['\\', 't']
  | 10 => ['\\', 'n']
  | 12 => ['\\', 'f']
  | 13 => ['\\', 'r']
  | n => if n < 32 then '\\' :: 'u' :: hex4 n else [c]

def writeString (s : String) : List Char := '"' :: s.toList.flatMap writeChar ++ ['"']

def writeInt : Int → List Char
  | .ofNat n => Nat.toDigits 10 n
  | .negSucc n => '-' :: Nat.toDigits 10 (n + 1)

def joinWith (separator : List Char) : List (List Char) → List Char
  | [] => []
  | [t] => t
  | t :: ts => t ++ separator ++ joinWith separator ts

mutual

def write : Json → List Char
  | .null => "null".toList
  | .bool true => "true".toList
  | .bool false => "false".toList
  | .int n => writeInt n
  | .inexact => "-0".toList
  | .str s => writeString s
  | .broken => "\"\\ud800\"".toList
  | .arr items => '[' :: joinWith [','] (writeItems items) ++ [']']
  | .obj members => '{' :: joinWith [','] (writeMembers members) ++ ['}']

def writeItems : List Json → List (List Char)
  | [] => []
  | v :: vs => write v :: writeItems vs

def writeMembers : List (String × Json) → List (List Char)
  | [] => []
  | (name, v) :: ms => (writeString name ++ ':' :: write v) :: writeMembers ms

end

def newLine (depth : Nat) : List Char := '\n' :: List.replicate (2 * depth) ' '

-- Items between brackets, one on a line; nothing at all between brackets if there are none.
def enclose (depth : Nat) (left right : Char) : List (List Char) → List Char
  | [] => [left, right]
  | items =>
      left :: newLine (depth + 1) ++ joinWith (',' :: newLine (depth + 1)) items ++
        newLine depth ++ [right]

mutual

def writeIndented (depth : Nat) : Json → List Char
  | .arr items => enclose depth '[' ']' (writeIndentedItems (depth + 1) items)
  | .obj members => enclose depth '{' '}' (writeIndentedMembers (depth + 1) members)
  | v => write v

def writeIndentedItems (depth : Nat) : List Json → List (List Char)
  | [] => []
  | v :: vs => writeIndented depth v :: writeIndentedItems depth vs

def writeIndentedMembers (depth : Nat) : List (String × Json) → List (List Char)
  | [] => []
  | (name, v) :: ms =>
      (writeString name ++ ':' :: ' ' :: writeIndented depth v) :: writeIndentedMembers depth ms

end

def compact (v : Json) : String := String.ofList (write v)

def indented (v : Json) : String := String.ofList (writeIndented 0 v)

end PuzzleMachine.Json
