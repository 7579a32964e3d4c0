set_option autoImplicit false

namespace PuzzleMachine

inductive Json where
  | null
  | bool (value : Bool)
  | int (value : Int)
  -- Minus zero, or a number with a fraction or an exponent.
  | inexact
  | str (text : String)
  -- A string, or an object with a member name, in which a surrogate has no partner.
  | broken
  | arr (items : List Json)
  -- Members in the order of the text; a name may occur again.
  | obj (members : List (String × Json))

end PuzzleMachine
