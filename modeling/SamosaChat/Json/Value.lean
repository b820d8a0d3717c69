import SamosaChat.Lib.FloatText

set_option autoImplicit false

namespace SamosaChat.Json

open Utf8 Binary64

-- Strings and keys are C strings: the bytes before the terminator.
inductive Jval
  | null
  | bool (boolean : Bool)
  | num (num : Double)
  | str (str : Bytes)
  | arr (kids : List Jval)
  | obj (fields : List (Bytes × Jval))

def find (key : Bytes) : List (Bytes × Jval) → Option Jval
  | [] => none
  | (name, kid) :: fields => if name = key then some kid else find key fields

def jsonGet (o : Jval) (key : Bytes) : Option Jval :=
  match o with
  | .obj fields => find key fields
  | _ => none

end SamosaChat.Json
