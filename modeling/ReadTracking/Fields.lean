/-!
# Reading records

A written record is a list of named values.  Their order says nothing, but a name that the
reader asks for must not occur twice.
-/

set_option autoImplicit false

namespace ReadTracking

abbrev Fields (α : Type) : Type := List (String × α)

namespace Fields

variable {α : Type}

def all (fs : Fields α) (name : String) : List α :=
  (fs.filter fun f => f.1 == name).map (·.2)

def required (fs : Fields α) (name : String) : Option α :=
  match fs.all name with
  | [v] => some v
  | _ => none

def optional (fs : Fields α) (name : String) : Option (Option α) :=
  match fs.all name with
  | [] => some none
  | [v] => some (some v)
  | _ => none

end Fields

end ReadTracking
