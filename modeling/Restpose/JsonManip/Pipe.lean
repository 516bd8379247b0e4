import Restpose.JsonManip.Mapping

/-!
# Input pipes

A pipe lists mappings and names the pipe that their outputs go to.
-/

namespace Restpose

structure Pipe where
  mappings : List Mapping
  applyAll : Bool
  target : Bytes

namespace Pipe

def toJson (pipe : Pipe) : Json :=
  let value := if pipe.mappings.isEmpty then Json.object []
    else (Json.object []).setMember (ascii "mappings")
      (.array (pipe.mappings.map Mapping.toJson))
  let value := if pipe.applyAll then
      value.setMember (ascii "apply_all") (.bool true)
    else value
  if pipe.target = [] then value
  else value.setMember (ascii "target") (.ofString pipe.target)

def readMappings (value : Json) : Except Thrown (List Mapping) :=
  if value.isNull then .ok []
  else do
    liftInvalid (value.checkArray "pipe mappings")
    value.items.mapM Mapping.fromJson

def readApplyAll (value : Json) : Except Thrown Bool :=
  if value.isNull then .ok false
  else liftInvalid (value.checkBool "pipe apply_all property")

def readPipeTarget (value : Json) : Except Thrown Bytes :=
  if value.isNull then .ok []
  else do
    let text ← liftInvalid (value.checkString "pipe target property")
    return cString text

def fromJson (value : Json) : Except Thrown Pipe := do
  liftInvalid (value.checkObject "pipe definition")
  let mappings ← readMappings (value.member (ascii "mappings"))
  let applyAll ← readApplyAll (value.member (ascii "apply_all"))
  let target ← readPipeTarget (value.member (ascii "target"))
  return ⟨mappings, applyAll, target⟩

end Pipe

/-- `Conditional(const Conditional &)` and the assignment, which go through
JSON. -/
def Conditional.copy (conditional : Conditional) : Except Thrown Conditional :=
  Conditional.fromJson conditional.toJson

end Restpose
