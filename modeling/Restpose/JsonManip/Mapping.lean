import Restpose.Core.KeyTree
import Restpose.JsonManip.Conditionals

/-!
# Mappings of JSON documents

A mapping lists target fields at paths, in a tree with the components of the
paths as keys.  It is applied in one walk over a document, with the nodes of the
tree that lead to the current value on a stack.
-/

namespace Restpose

structure MappingTarget where
  field : Bytes
  categoriser : Bytes
  deriving DecidableEq

/-- `MappingActions`; the values of a node are its `target_fields`. -/
abbrev MappingActions := KeyTree JSONPathComponent MappingTarget

/-- The path to the node that `MappingActions::find` returns.  The node is made
where it is missing when its target is added. -/
def MappingActions.find (path : Json) : Except Thrown JSONPath :=
  if !path.isArray then do
    let component ← JSONPathComponent.set path
    return [component]
  else
    match path.items with
    | [] => do
        let component ← JSONPathComponent.set .null
        return [component]
    | items => items.mapM JSONPathComponent.set

inductive DefaultAction where
  | preserveTop
  | discard
  deriving DecidableEq

structure Mapping where
  when : Conditional
  mappings : MappingActions
  defaultAction : DefaultAction

namespace Mapping

/-! ## Reading and writing -/

def readCategoriser (value : Json) : Except Thrown Bytes :=
  if value.isNull then .ok []
  else do
    let name ← liftInvalid (value.checkString "mapping target categoriser")
    return cString name

/-- An entry of the member `map`. -/
def readTarget (entry : Json) : Except Thrown (JSONPath × MappingTarget) := do
  liftInvalid (entry.checkObject "mapping definition")
  let field ← liftInvalid
    ((entry.member (ascii "to")).checkString "mapping target fieldname")
  let path ← MappingActions.find (entry.member (ascii "from"))
  let categoriser ← readCategoriser (entry.member (ascii "categoriser"))
  return (path, ⟨cString field, categoriser⟩)

def readTargets (mapval : Json) :
    Except Thrown (List (JSONPath × MappingTarget)) :=
  if mapval.isNull then .ok []
  else do
    liftInvalid (mapval.checkArray "map property in mapping")
    mapval.items.mapM readTarget

def readDefault (defval : Json) : Except Thrown DefaultAction :=
  if defval.equals (.string (ascii "preserve_top")) || defval.equals .null then
    .ok .preserveTop
  else if defval.equals (.string (ascii "discard")) then .ok .discard
  else .error (.invalid
    (ascii "Invalid value for \"default\" parameter in mapping"))

def fromJson (value : Json) : Except Thrown Mapping := do
  liftInvalid (value.checkObject "mapping")
  let when ← Conditional.fromJson (value.member (ascii "when"))
  let targets ← readTargets (value.member (ascii "map"))
  let defaultAction ← readDefault (value.member (ascii "default"))
  return ⟨when, KeyTree.addAll targets .empty, defaultAction⟩

/-- The object for a target at a path. -/
def targetToJson (path : List Json) (target : MappingTarget) : Json :=
  let obj := (Json.object []).setMember (ascii "to") (.ofString target.field)
    |>.setMember (ascii "from") (.array path)
  if target.categoriser = [] then obj
  else obj.setMember (ascii "categoriser") (.ofString target.categoriser)

/-- The loop of `Mapping::to_json`.  The children that are left at each level
are on the stack, and the path has an item for each level. -/
def writeTargets : List (List (JSONPathComponent × MappingActions)) →
    List Json → List Json → List Json
  | [], _, paths => paths
  | [] :: stack, path, paths => writeTargets stack path.dropLast paths
  | ((component, .node targets children) :: rest) :: stack, path, paths =>
      let path := path.dropLast ++ [component.get]
      writeTargets (children :: rest :: stack) (path ++ [.null])
        (paths ++ targets.map (targetToJson path))
termination_by stack => stack

def toJson (mapping : Mapping) : Json :=
  let value := match mapping.when with
    | none => Json.object []
    | some _ => (Json.object []).setMember (ascii "when") mapping.when.toJson
  let value := match mapping.defaultAction with
    | .discard => value.setMember (ascii "default") (.string (ascii "discard"))
    | .preserveTop => value
  let paths := writeTargets [mapping.mappings.children] [.null] []
  if paths.isEmpty then value
  else value.setMember (ascii "map") (.array paths)

/-! ## Applying -/

def appendField (output : Json) (key : Bytes) (value : Json) : Json :=
  let oldval := output.member (cString key)
  let oldval := if !oldval.isArray then .array [] else oldval
  let oldval :=
    if value.isArray then
      if value.size = 0 then .array [] else value.items.foldl .append oldval
    else oldval.append value
  output.setMember (cString key) oldval

/-- The text that a categoriser is given for a value. -/
def categoriserText (value : Json) : Bytes :=
  if !value.isArray then if value.isString then value.asString else []
  else value.items.flatMap fun item =>
    if item.isString then item.asString ++ ascii " " else []

/-- What `Mapping::handle` does for a target.  The first argument is
`CollectionConfig::categorise`. -/
def handleTarget (categorise : Bytes → Bytes → Except Thrown Json)
    (value output : Json) (target : MappingTarget) : Except Thrown Json :=
  if target.categoriser = [] then .ok (appendField output target.field value)
  else if categoriserText value = [] then
    .ok (appendField output target.field (.string []))
  else do
    let category ← categorise target.categoriser (categoriserText value)
    return appendField output target.field category

/-- The node for a component below the node on top of the stack. -/
def subaction (stack : List (Option MappingActions))
    (component : JSONPathComponent) : Option MappingActions :=
  match stack with
  | some actions :: _ => actions.child? component
  | _ => none

def handle (categorise : Bytes → Bytes → Except Thrown Json)
    (stack : List (Option MappingActions)) (event : JSONWalker.Event)
    (output : Json) : Except Thrown (Bool × Json) :=
  match subaction stack event.component with
  | none => .ok (false, output)
  | some actions => do
      let output ← actions.values.foldlM
        (handleTarget categorise event.value) output
      return (!actions.values.isEmpty, output)

def handleDefault (mapping : Mapping) (stack : List (Option MappingActions))
    (event : JSONWalker.Event) (output : Json) : Json :=
  match mapping.defaultAction, stack, event.component with
  | .preserveTop, [_], .key key => appendField output key event.value
  | _, _, _ => output

/-- The variables of the loop of `Mapping::apply`. -/
structure Application where
  stack : List (Option MappingActions)
  handledTop : Bool
  output : Json

/-- What the loop does with an event. -/
def handleEvent (mapping : Mapping)
    (categorise : Bytes → Bytes → Except Thrown Json)
    (state : Application) (event : JSONWalker.Event) :
    Except Thrown Application :=
  match event.type with
  | .start => do
      let (handled, output) ←
        handle categorise state.stack event state.output
      let handledTop := handled || (state.stack.length != 1 && state.handledTop)
      let pushed := match state.stack with
        | [] => some mapping.mappings
        | stack => subaction stack event.component
      return ⟨pushed :: state.stack, handledTop, output⟩
  | .leaf => do
      let (handled, output) ←
        handle categorise state.stack event state.output
      let handledTop := handled || (state.stack.length != 1 && state.handledTop)
      let output := if handledTop then output
        else mapping.handleDefault state.stack event output
      return ⟨state.stack, handledTop, output⟩
  | .ends =>
      let stack := state.stack.tail
      let output := if state.handledTop then state.output
        else mapping.handleDefault stack event state.output
      .ok ⟨stack, state.handledTop, output⟩

/-- The test of the conditional at the start of `Mapping::apply`. -/
def applies (mapping : Mapping) (input : Json) : Except Thrown Bool :=
  if mapping.when.isNone then .ok true else mapping.when.test input

/-- `Mapping::apply`: nothing if the mapping does not apply. -/
def apply (mapping : Mapping)
    (categorise : Bytes → Bytes → Except Thrown Json)
    (input : Json) : Except Thrown (Option Json) := do
  liftInvalid (input.checkObject "input to mapping")
  let applies ← mapping.applies input
  if !applies then return none
  else
    let walker ← JSONWalker.new input
    let state ← walker.walk.foldlM (mapping.handleEvent categorise)
      ⟨[], false, .object []⟩
    return some state.output

end Mapping

end Restpose
