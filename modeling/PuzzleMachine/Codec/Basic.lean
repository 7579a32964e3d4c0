import PuzzleMachine.Json
import PuzzleMachine.Word

set_option autoImplicit false

namespace PuzzleMachine

-- A structure is an object of its fields or an array of them; a variant without data is its name, and
-- any other one an object with its name as only member.
structure Codec (α : Type) where
  encode : α → Json
  decode? : Json → Option α

namespace Json

def member? (members : List (String × Json)) (name : String) : Option (Option Json) :=
  match members.filter (·.1 = name) with
  | [] => some none
  | [(_, v)] => some (some v)
  | _ => none

-- The fields of a structure, in the order of their names. Other members of an object do not matter;
-- an array may end early but has no further items.
def fields? (names : List String) : Json → Option (List (Option Json))
  | .arr items =>
      if items.length ≤ names.length then
        some (items.map some ++ List.replicate (names.length - items.length) none)
      else none
  | .obj members => names.mapM (member? members)
  | _ => none

def variant? : Json → Option (String × Option Json)
  | .str name => some (name, none)
  | .obj [(name, data)] => some (name, some data)
  | _ => none

def tagged (name : String) (data : Json) : Json := .obj [(name, data)]

def isArr : Json → Bool
  | .arr _ => true
  | _ => false

end Json

namespace Codec

variable {α : Type}

def required (c : Codec α) (field : Option Json) : Option α := field.bind c.decode?

def orDefault (c : Codec α) (default : α) : Option Json → Option α
  | none => some default
  | some j => c.decode? j

def noData : Option Json → Option Unit
  | none | some .null => some ()
  | _ => none

def bool : Codec Bool where
  encode := .bool
  decode?
    | .bool b => some b
    | _ => none

def string : Codec String where
  encode := .str
  decode?
    | .str s => some s
    | _ => none

def below (bound : Nat) : Codec Nat where
  encode n := .int n
  decode?
    | .int (.ofNat n) => if n < bound then some n else none
    | _ => none

def count : Codec Nat := below UInt64.size

def word16 : Codec UInt16 where
  encode n := .int n.toNat
  decode? j := ((below UInt16.size).decode? j).map .ofNat

def word32 : Codec UInt32 where
  encode n := .int n.toNat
  decode? j := ((below UInt32.size).decode? j).map .ofNat

def word64 : Codec UInt64 where
  encode n := .int n.toNat
  decode? j := (count.decode? j).bind index64?

def int32 : Codec Int32 where
  encode n := .int n.toInt
  decode?
    | .int n => value32? n
    | _ => none

def list (c : Codec α) : Codec (List α) where
  encode vs := .arr (vs.map c.encode)
  decode?
    | .arr items => items.mapM c.decode?
    | _ => none

def array (c : Codec α) : Codec (Array α) where
  encode vs := c.list.encode vs.toList
  decode? j := (c.list.decode? j).map List.toArray

def nullable (c : Codec α) : Codec (Option α) where
  encode
    | none => .null
    | some v => c.encode v
  decode?
    | .null => some none
    | j => (c.decode? j).map some

end Codec
end PuzzleMachine
