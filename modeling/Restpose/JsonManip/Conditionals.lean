import Restpose.JsonManip.JsonPath

/-!
# Conditionals on JSON documents

The clauses that decide whether a mapping is applied.  A clause is read from an
object with a single member, which names the kind of the clause.
-/

namespace Restpose

namespace Json

mutual

/-- `Value::operator==`. -/
def equals : Json → Json → Bool
  | null, null => true
  | int left, int right => left == right
  | uint left, uint right => left == right
  | real left, real right => Double.equals left right
  | string left, string right => cString left == cString right
  | bool left, bool right => left == right
  | array left, array right => equalsItems left right
  | object left, object right => equalsMembers left right
  | _, _ => false

def equalsItems : List Json → List Json → Bool
  | [], [] => true
  | left :: lefts, right :: rights =>
      equals left right && equalsItems lefts rights
  | _, _ => false

def equalsMembers : List (Bytes × Json) → List (Bytes × Json) → Bool
  | [], [] => true
  | (name, left) :: lefts, (other, right) :: rights =>
      name == other && equals left right && equalsMembers lefts rights
  | _, _ => false

end

end Json

/-- The value at a path, if there is one. -/
def JSONPath.find : JSONPath → Json → Option Json
  | [], current => some current
  | .key key :: path, current =>
      if current.isObject then
        (current.members.lookup (cString key)).bind (find path)
      else none
  | .index index :: path, current =>
      if current.isArray then
        if index < current.size then find path (current.item index) else none
      else none

/-- The subclasses of `ConditionalClause`. -/
inductive ConditionalClause where
  | existsAt (path : JSONPath)
  | get (path : JSONPath)
  | literal (value : Json)
  | equals (children : List ConditionalClause)

namespace ConditionalClause

/-- The name of the member that a clause is stored under. -/
def name : ConditionalClause → Bytes
  | existsAt _ => ascii "exists"
  | get _ => ascii "get"
  | literal _ => ascii "literal"
  | equals _ => ascii "equals"

mutual

/-- The `to_json` of the subclasses. -/
def body : ConditionalClause → Json
  | existsAt path => path.toJson
  | get path => path.toJson
  | literal value => value
  | equals children => .array (bodies children)

def bodies : List ConditionalClause → List Json
  | [] => []
  | clause :: clauses =>
      .object [(clause.name, body clause)] :: bodies clauses

end

def unsupported : Thrown :=
  .invalid (ascii "Unsupported conditional clause format")

/-- The constructors of the subclasses, for the member of a clause and the
clauses in it. -/
def ofMember (name : Bytes) (obj : Json)
    (children : Except Thrown (List ConditionalClause)) :
    Except Thrown ConditionalClause :=
  if name = ascii "exists" then do
    liftInvalid (obj.checkArray "exists member in ConditionalClauseExists")
    let path ← JSONPath.fromJson obj
    return existsAt path
  else if name = ascii "get" then do
    liftInvalid (obj.checkArray "get member in ConditionalClauseGet")
    let path ← JSONPath.fromJson obj
    return get path
  else if name = ascii "literal" then .ok (literal obj)
  else if name = ascii "equals" then do
    liftInvalid (obj.checkArray "equals member in ConditionalClauseEquals")
    let children ← children
    return equals children
  else .error unsupported

mutual

def fromJson : Json → Except Thrown ConditionalClause
  | .object [(name, .array entries)] =>
      ofMember name (.array entries) (fromJsonAll entries)
  | .object [(name, obj)] => ofMember name obj (.ok [])
  | value => do
      liftInvalid (value.checkObject "conditional clause")
      .error unsupported

def fromJsonAll : List Json → Except Thrown (List ConditionalClause)
  | [] => .ok []
  | value :: values => do
      let clause ← fromJson value
      let clauses ← fromJsonAll values
      return clause :: clauses

end

/-- The loop of `ConditionalClauseEquals::apply`. -/
def allEqual : List Json → Bool
  | [] => true
  | first :: rest => rest.all fun next => next.equals first

mutual

def apply (document : Json) : ConditionalClause → Json
  | existsAt path => .bool (path.find document).isSome
  | get path => (path.find document).getD .null
  | literal value => value
  | equals children => .bool (allEqual (applyAll document children))

def applyAll (document : Json) : List ConditionalClause → List Json
  | [] => []
  | clause :: clauses => apply document clause :: applyAll document clauses

end

end ConditionalClause

/-- `Conditional`; there is no clause if it is null. -/
abbrev Conditional := Option ConditionalClause

namespace Conditional

def toJson : Conditional → Json
  | none => .null
  | some clause => .object [(clause.name, clause.body)]

def fromJson (value : Json) : Except Thrown Conditional :=
  if value.isNull then .ok none
  else (ConditionalClause.fromJson value).map some

def test (document : Json) : Conditional → Except Thrown Bool
  | none => .error (.invalid (ascii "Attempt to test a null conditional"))
  | some clause => .ok (clause.apply document).asBool

end Conditional

end Restpose
