import Restpose.Core.Bytes

/-!
# JSON values

The value type of the bundled JSON library, and the checks that configuration
readers run on it.  The library's own type predicates answer true for `null`
where an object or an array is asked for.
-/

namespace Restpose

/-- `RestPose::InvalidValueError`, with the message it was built from. -/
structure InvalidValueError where
  message : Bytes
  deriving DecidableEq

/-- What a call leaves behind: the state, and the exception it ended with. -/
structure Outcome (State : Type) where
  state : State
  thrown : Option InvalidValueError

/-- `Json::Value`.  The members of an object are listed in the order of their
names, which is the order the library iterates them in. -/
inductive Json where
  | null
  | int (value : ℤ)
  | uint (value : ℕ)
  | real (bits : BitVec 64)
  | string (text : Bytes)
  | bool (value : Bool)
  | array (items : List Json)
  | object (members : List (Bytes × Json))

namespace Json

def isNull : Json → Bool
  | null => true
  | _ => false

/-- `Value::isObject`, true of `null` as well. -/
def isObject : Json → Bool
  | null => true
  | object _ => true
  | _ => false

/-- `Value::isArray`, true of `null` as well. -/
def isArray : Json → Bool
  | null => true
  | array _ => true
  | _ => false

/-- The members an iterator over the value meets. -/
def members : Json → List (Bytes × Json)
  | object entries => entries
  | _ => []

/-- The items an iterator over an array meets. -/
def items : Json → List Json
  | array entries => entries
  | _ => []

private def checkError (description kind : String) : InvalidValueError :=
  ⟨ascii "JSON value for " ++ ascii description ++ ascii kind⟩

/-- `json_check_object`. -/
def checkObject (value : Json) (description : String) :
    Except InvalidValueError Unit :=
  if value.isObject then .ok ()
  else .error (checkError description " was not an object")

/-- `json_check_array`. -/
def checkArray (value : Json) (description : String) :
    Except InvalidValueError Unit :=
  if value.isArray then .ok ()
  else .error (checkError description " was not an array")

/-- `json_check_string` followed by `asString`. -/
def checkString (value : Json) (description : String) :
    Except InvalidValueError Bytes :=
  match value with
  | string text => .ok text
  | _ => .error (checkError description " was not a string")

/-- `json_check_bool` followed by `asBool`. -/
def checkBool (value : Json) (description : String) :
    Except InvalidValueError Bool :=
  match value with
  | bool value => .ok value
  | _ => .error (checkError description " was not a boolean")

end Json

end Restpose
