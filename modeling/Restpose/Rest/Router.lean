import Restpose.Core.Bytes
import Restpose.Core.KeyTree

/-!
# Routing requests

A router is a tree of route levels.  The components of a URL are looked up in
it one after the other: first as they are, then as `?`, and what is left of
them as `*`.  The routes of the server are told apart by their first different
components, so that the lookup finds the pattern that matches; only for the
component `*` itself is the name of a pattern taken for that of the client.
-/

namespace Restpose

open List Option

inductive HTTPMethod where
  | unknown | head | get | post | put | delete
  deriving DecidableEq

/-- The handler factories that `setup_routes` makes. -/
inductive HandlerFactory where
  | root | file | serverStatus | serverShutdown | collList | collInfo
  | collDelete | collGetConfig | collSetConfig | collGetCheckpoints
  | collCreateCheckpoint | collGetCheckpoint | collGetCategory
  | collGetTopCategories | collPutCategory | collDeleteCategory
  | indexDocument | deleteDocument | getDocument | indexDocumentType
  | indexDocumentId | indexDocumentNoTypeId | search | notFound
  deriving DecidableEq

/-- `RouteLevel`: the handlers by method, and the levels below. -/
abbrev RouteLevel :=
  KeyTree Bytes (HTTPMethod × HandlerFactory)

/-- The parts of a string between its slashes, after what has been read of the
first part. -/
def segments : Bytes → Bytes → List Bytes
  | part, [] => [part]
  | part, byte :: rest =>
      if byte = 47 then part :: segments [] rest
      else segments (part ++ [byte]) rest

/-- What `RouteLevel::get` returns, with what it may have done. -/
inductive Lookup where
  | found (factory : HandlerFactory)
  /-- No handler; a response about the method was sent. -/
  | responded
  /-- No handler. -/
  | missing
  deriving DecidableEq

namespace RouteLevel

open KeyTree

/-- `RouteLevel::add`, with the bits of `methods` as a list. -/
def add (level : RouteLevel) (pattern : Bytes)
    (methods : List HTTPMethod) (factory : HandlerFactory) :
    Except Bytes RouteLevel :=
  let path := segments [] (pattern.drop 1)
  if methods.any fun method => ((valuesAt path level).lookup method).isSome then
    .error (ascii "Duplicate handlers specified for path")
  else .ok (addAll (methods.map fun method => (path, method, factory)) level)

/-- `RouteLevel::get_method` with the handlers of a level.  A method is allowed
if there is a handler for it. -/
def getMethod (handlers : List (HTTPMethod × HandlerFactory))
    (method : HTTPMethod) : Lookup :=
  if handlers = [] then .missing
  else
    match handlers.lookup method with
    | some factory => .found factory
    | none => .responded

/-- The entry of `routes` that the lookup goes on with. -/
def next (level : RouteLevel) (component : Bytes) :
    Option (Bytes × RouteLevel) :=
  ((level.child? component).map (Prod.mk component)).or
    ((level.child? (ascii "?")).map (Prod.mk (ascii "?")))

/-- The end of `RouteLevel::get`. -/
def getRest (level : RouteLevel) (method : HTTPMethod)
    (components params : List Bytes) : Lookup × List Bytes :=
  match level.child? (ascii "*") with
  | some child => (getMethod child.values method, params ++ components)
  | none => (.missing, params)

/-- `RouteLevel::get` for the components from the level on. -/
def get (method : HTTPMethod) : List Bytes → RouteLevel →
    List Bytes → Lookup × List Bytes
  | [], level, params => (getMethod level.values method, params)
  | component :: rest, level, params =>
      match level.next component with
      | none => level.getRest method (component :: rest) params
      | some (key, child) =>
          match get method rest child
              (if key = ascii "?" then params ++ [component] else params) with
          | (.missing, params) =>
              level.getRest method (component :: rest) params
          | answer => answer

end RouteLevel

/-- A call of `Router::add`. -/
structure Route where
  pattern : Bytes
  methods : List HTTPMethod
  factory : HandlerFactory

namespace Route

def components (route : Route) : List Bytes :=
  segments [] (route.pattern.drop 1)

end Route

namespace Router

def getHead : List HTTPMethod := [.head, .get]

/-- The calls of `setup_routes`, in their order. -/
def routes : List Route :=
  [⟨ascii "/", getHead, .root⟩,
    ⟨ascii "/static/*", getHead, .file⟩,
    ⟨ascii "/status", getHead, .serverStatus⟩,
    ⟨ascii "/shutdown", [.post], .serverShutdown⟩,
    ⟨ascii "/coll", getHead, .collList⟩,
    ⟨ascii "/coll/?", getHead, .collInfo⟩,
    ⟨ascii "/coll/?", [.delete], .collDelete⟩,
    ⟨ascii "/coll/?/config", getHead, .collGetConfig⟩,
    ⟨ascii "/coll/?/config", [.put], .collSetConfig⟩,
    ⟨ascii "/coll/?/checkpoint", getHead, .collGetCheckpoints⟩,
    ⟨ascii "/coll/?/checkpoint", [.post], .collCreateCheckpoint⟩,
    ⟨ascii "/coll/?/checkpoint/?", getHead, .collGetCheckpoint⟩,
    ⟨ascii "/coll/?/taxonomy", getHead, .collGetCategory⟩,
    ⟨ascii "/coll/?/taxonomy/?", getHead, .collGetCategory⟩,
    ⟨ascii "/coll/?/taxonomy/?/id/?", getHead, .collGetCategory⟩,
    ⟨ascii "/coll/?/taxonomy/?/id/?/parent/?", getHead, .collGetCategory⟩,
    ⟨ascii "/coll/?/taxonomy/?/top", getHead, .collGetTopCategories⟩,
    ⟨ascii "/coll/?/taxonomy/?/id/?", [.put], .collPutCategory⟩,
    ⟨ascii "/coll/?/taxonomy/?/id/?/parent/?", [.put], .collPutCategory⟩,
    ⟨ascii "/coll/?/taxonomy/?", [.delete], .collDeleteCategory⟩,
    ⟨ascii "/coll/?/taxonomy/?/id/?", [.delete], .collDeleteCategory⟩,
    ⟨ascii "/coll/?/taxonomy/?/id/?/parent/?", [.delete],
      .collDeleteCategory⟩,
    ⟨ascii "/coll/?/type/?/id/?", [.put], .indexDocument⟩,
    ⟨ascii "/coll/?/type/?/id/?", [.delete], .deleteDocument⟩,
    ⟨ascii "/coll/?/type/?/id/?", getHead, .getDocument⟩,
    ⟨ascii "/coll/?/type/?", [.post], .indexDocumentType⟩,
    ⟨ascii "/coll/?/id/?", [.post], .indexDocumentId⟩,
    ⟨ascii "/coll/?", [.post], .indexDocumentNoTypeId⟩,
    ⟨ascii "/coll/?/type/?/search", [.head, .get, .post], .search⟩,
    ⟨ascii "/coll/?/search", [.head, .get, .post], .search⟩]

def setupRoutes : Except Bytes RouteLevel :=
  routes.foldlM
    (fun level route => level.add route.pattern route.methods route.factory)
    KeyTree.empty

/-- The routes of a router after `setup_routes`. -/
def levels : RouteLevel :=
  setupRoutes.toOption.getD KeyTree.empty

/-- How a request goes on. -/
inductive Routing where
  /-- A handler is created with these parameters. -/
  | handler (factory : HandlerFactory) (params : List Bytes)
  /-- The response is that the method is not allowed. -/
  | methodNotAllowed
  deriving DecidableEq

/-- `Router::route_find`, once the URL has been split. -/
def routeFind (method : HTTPMethod) (components : List Bytes) : Routing :=
  match levels.get method components [] with
  | (.found factory, params) => .handler factory params
  | (.responded, _) => .methodNotAllowed
  | (.missing, _) => .handler .notFound []

end Router

/-! ## Patterns -/

/-- The components that the wildcards of a pattern match, if it matches. -/
def wildcards : List Bytes → List Bytes → Option (List Bytes)
  | [], [] => some []
  | [], _ :: _ => none
  | _ :: _, [] => none
  | part :: pattern, component :: components =>
      if part = ascii "*" ∧ pattern = [] then some (component :: components)
      else if part = ascii "?" then
        (wildcards pattern components).map (component :: ·)
      else if part = component then wildcards pattern components
      else none

/-- The only component that `*` matches is `*`. -/
def Confused (pattern components : List Bytes) : Prop :=
  wildcards pattern components ≠ none ∧
    pattern.getLast? = some (ascii "*") ∧
      components.getLast? = some (ascii "*") ∧
        pattern.length = components.length

theorem wildcards_any (pattern : List Bytes) (component : Bytes)
    (components : List Bytes) :
    wildcards (ascii "?" :: pattern) (component :: components) =
      (wildcards pattern components).map ([component] ++ ·) := by
  have hkey : ascii "?" ≠ ascii "*" := by decide
  simp [wildcards, hkey]

theorem wildcards_named {part : Bytes} (hany : part ≠ ascii "?")
    (hrest : part ≠ ascii "*") (pattern : List Bytes) (component : Bytes)
    (components : List Bytes) :
    wildcards (part :: pattern) (component :: components) =
      if part = component then wildcards pattern components else none := by
  simp [wildcards, hany, hrest]

theorem wildcards_cons_ne_none {part component : Bytes} {pattern components : List Bytes}
    (hpart : part = ascii "?" ∨ part = component)
    (hmatches : wildcards pattern components ≠ none) :
    wildcards (part :: pattern) (component :: components) ≠ none := by
  rw [wildcards]
  split_ifs with hrest hany hname
  · exact some_ne_none _
  · simpa using hmatches
  · exact hmatches
  · exact absurd (hpart.resolve_left hany) hname

theorem wildcards_static {components params : List Bytes} :
    wildcards [ascii "static", ascii "*"] components = some params ↔
      params ≠ [] ∧ components = ascii "static" :: params := by
  cases components with
  | nil => simp [wildcards]
  | cons first rest =>
    rw [wildcards_named (by decide) (by decide)]
    cases rest with
    | nil => simp +contextual [wildcards, eq_comm]
    | cons second rest =>
      have hrest : wildcards [ascii "*"] (second :: rest) = some (second :: rest) := rfl
      rw [hrest]
      split_ifs with hname
      · rw [← hname, cons.injEq, some.injEq]
        constructor
        · rintro rfl
          exact ⟨cons_ne_nil _ _, rfl, rfl⟩
        · exact fun hboth => hboth.2.2
      · simp [Ne.symm hname]

namespace RouteLevel

open KeyTree

/-- An answer is that of the handlers of the only pattern that can match, after
some parameters were found above the level. -/
def Reports (level : RouteLevel) (method : HTTPMethod)
    (components before : List Bytes)
    (answer : Lookup × List Bytes) : Prop :=
  ∃ pattern, answer.1 = getMethod (valuesAt pattern level) method ∧
    (valuesAt pattern level ≠ [] →
      ∃ matched, wildcards pattern components = some matched ∧
        answer.2 = before ++ matched) ∧
    ∀ other, valuesAt other level ≠ [] →
      wildcards other components ≠ none → other = pattern

mutual

/-- A wildcard has no other component beside it, and `*` nothing after it. -/
def tidy : RouteLevel → Bool
  | .node _ routes =>
      (routes.all (fun entry =>
          entry.1 ≠ ascii "?" && entry.1 ≠ ascii "*") ||
        match routes with
        | [(key, child)] => decide (key = ascii "?") || child.children.isEmpty
        | _ => false) && tidyAll routes

def tidyAll : List (Bytes × RouteLevel) → Bool
  | [] => true
  | (_, child) :: rest => tidy child && tidyAll rest

end

variable {level child : RouteLevel} {method : HTTPMethod}
  {component : Bytes} {components before pattern : List Bytes}

theorem tidy_of_mem {routes : List (Bytes × RouteLevel)} {entry : Bytes × RouteLevel}
    (htidy : tidyAll routes = true) (hentry : entry ∈ routes) : tidy entry.2 = true := by
  induction routes with
  | nil => cases hentry
  | cons first rest ih =>
    obtain ⟨key, child⟩ := first
    simp only [tidyAll, Bool.and_eq_true] at htidy
    rcases mem_cons.mp hentry with rfl | hentry
    · exact htidy.1
    · exact ih htidy.2 hentry

variable {key : Bytes}

theorem tidy_of_child (htidy : tidy level = true)
    (hchild : level.child? key = some child) :
    tidy child = true := by
  obtain ⟨values, routes⟩ := level
  simp only [tidy, Bool.and_eq_true] at htidy
  exact tidy_of_mem htidy.2 (mem_of_child? hchild)

theorem cases_of_tidy (htidy : tidy level = true) :
    (∃ child, level.children = [(ascii "?", child)]) ∨
      (∃ child, level.children = [(ascii "*", child)] ∧ child.children = []) ∨
      (level.child? (ascii "?") = none ∧ level.child? (ascii "*") = none) := by
  have hnamed : (∀ entry ∈ level.children, entry.1 ≠ ascii "?" ∧ entry.1 ≠ ascii "*") →
      level.child? (ascii "?") = none ∧ level.child? (ascii "*") = none := by
    intro hplain
    exact ⟨child?_eq_none fun entry hentry => (hplain entry hentry).1,
      child?_eq_none fun entry hentry => (hplain entry hentry).2⟩
  obtain ⟨values, routes⟩ := level
  simp only [tidy, Bool.and_eq_true, Bool.or_eq_true, List.all_eq_true,
    decide_eq_true_iff] at htidy
  obtain ⟨hplain | hsingle, -⟩ := htidy
  · exact .inr (.inr (hnamed hplain))
  · split at hsingle
    next key child =>
      by_cases hany : key = ascii "?"
      · exact .inl ⟨child, by rw [hany]; rfl⟩
      by_cases hrest : key = ascii "*"
      · simp only [hany, Bool.or_eq_true, decide_eq_true_iff, false_or,
          List.isEmpty_iff] at hsingle
        exact .inr (.inl ⟨child, by rw [hrest]; rfl, hsingle⟩)
      · refine .inr (.inr (hnamed fun entry hentry => ?_))
        rw [List.mem_singleton.mp hentry]
        exact ⟨hany, hrest⟩
    next => cases hsingle

/-- The answer of the level below the only component that can match. -/
theorem Reports.lift {lead start : List Bytes} {answer : Lookup × List Bytes}
    (hreports : Reports child method components start answer)
    (hstart : start = before ++ lead) (hchild : level.child? key = some child)
    (honly : ∀ other below, valuesAt (other :: below) level ≠ [] →
      wildcards (other :: below) (component :: components) ≠ none → other = key)
    (hlead : ∀ below, wildcards (key :: below) (component :: components) =
      (wildcards below components).map (lead ++ ·)) :
    Reports level method (component :: components) before answer := by
  have hbelow : ∀ below, valuesAt (key :: below) level = valuesAt below child := by
    intro below
    rw [valuesAt, hchild, elim_some]
  obtain ⟨pattern, hanswer, hmatches, hunique⟩ := hreports
  refine ⟨key :: pattern, by rwa [hbelow], ?_, ?_⟩
  · intro hvalues
    rw [hbelow] at hvalues
    obtain ⟨matched, hmatched, hparams⟩ := hmatches hvalues
    refine ⟨lead ++ matched, ?_, ?_⟩
    · rw [hlead, hmatched, map_some]
    · rw [hparams, hstart, append_assoc]
  · intro other hvalues hother
    cases other with
    | nil => exact absurd rfl hother
    | cons first below =>
      obtain rfl := honly first below hvalues hother
      rw [hbelow] at hvalues
      rw [hlead] at hother
      rw [hunique below hvalues (by simpa using hother)]

theorem get_of_next (hnext : next level component = some (key, child))
    (hrest : level.child? (ascii "*") = none) :
    get method (component :: components) level before = get method components child
        (if key = ascii "?" then before ++ [component] else before) := by
  rw [get, hnext]
  simp only [getRest, hrest]
  split
  next params hmissing => rw [hmissing]
  next => rfl

/-- Under `*` there is nothing to go on with. -/
theorem get_of_rest (hroutes : level.children = [(ascii "*", child)])
    (hleaf : child.children = [])
    (hclear : child.values ≠ [] → ¬(component = ascii "*" ∧ components = [])) :
    get method (component :: components) level before =
      (getMethod child.values method, before ++ component :: components) := by
  have hrest : ∀ params, getRest level method (component :: components) params =
      (getMethod child.values method, params ++ component :: components) := by
    intro params
    rw [getRest, child?_of_single hroutes]
  by_cases hname : component = ascii "*"
  · have hnext : next level component = some (ascii "*", child) := by
      rw [next, hname, child?_of_single hroutes]
      rfl
    have hmissing : get method components child before = (.missing, before) := by
      cases components with
      | nil =>
        by_cases hvalues : child.values = []
        · simp [get, getMethod, hvalues]
        · exact absurd ⟨hname, rfl⟩ (hclear hvalues)
      | cons first rest =>
        have hnone : ∀ key, child.child? key = none := by
          intro key
          apply child?_eq_none
          simp [hleaf]
        simp [get, next, getRest, hnone]
    have hkey : ascii "*" ≠ ascii "?" := by decide
    rw [get, hnext]
    simp only [if_neg hkey, hmissing, hrest]
  · have hnext : next level component = none := by
      rw [next, child?_of_single_of_ne hroutes hname,
        child?_of_single_of_ne hroutes (by decide)]
      rfl
    rw [get, hnext]
    exact hrest before

theorem child_of_valuesAt {below : List Bytes}
    (hvalues : valuesAt (key :: below) level ≠ []) : level.child? key ≠ none := by
  intro hnone
  rw [valuesAt, hnone] at hvalues
  exact hvalues rfl

section Levels

variable (hbelow : ∀ {key : Bytes} {child : RouteLevel},
  level.child? key = some child → (key = ascii "?" ∨ key = component) →
    ∀ before, Reports child method components before
      (get method components child before))

include hbelow in
theorem reports_get_any (hroutes : level.children = [(ascii "?", child)]) :
    Reports level method (component :: components) before
      (get method (component :: components) level before) := by
  have hchild := child?_of_single hroutes
  have hnext : next level component = some (ascii "?", child) := by
    by_cases hname : component = ascii "?"
    · rw [next, hname, hchild]
      rfl
    · rw [next, hchild, child?_of_single_of_ne hroutes hname]
      rfl
  rw [get_of_next hnext (child?_of_single_of_ne hroutes (by decide)), if_pos rfl]
  apply (hbelow hchild (.inl rfl) _).lift rfl hchild
  · intro other below hvalues _
    by_contra hne
    exact child_of_valuesAt hvalues (child?_of_single_of_ne hroutes hne)
  · exact fun below => wildcards_any below component components

theorem reports_get_rest (hroutes : level.children = [(ascii "*", child)])
    (hleaf : child.children = [])
    (hclear : ∀ pattern, valuesAt pattern level ≠ [] →
      ¬ Confused pattern (component :: components)) :
    Reports level method (component :: components) before
      (get method (component :: components) level before) := by
  have hvalues : valuesAt [ascii "*"] level = child.values := by
    rw [valuesAt, child?_of_single hroutes]
    rfl
  rw [get_of_rest hroutes hleaf]
  · refine ⟨[ascii "*"], by rw [hvalues], fun _ => ⟨_, rfl, rfl⟩, ?_⟩
    intro other hother hmatches
    cases other with
    | nil => exact absurd rfl hmatches
    | cons key below =>
      have hkey : key = ascii "*" := by
        by_contra hne
        exact child_of_valuesAt hother (child?_of_single_of_ne hroutes hne)
      cases below with
      | nil => rw [hkey]
      | cons first rest =>
        rw [hkey, valuesAt, child?_of_single hroutes, elim_some, valuesAt,
          child?_eq_none] at hother
        · exact absurd rfl hother
        · simp [hleaf]
  · rintro hfilled ⟨rfl, rfl⟩
    apply hclear [ascii "*"] (by rwa [hvalues])
    exact ⟨some_ne_none _, rfl, rfl, rfl⟩

include hbelow in
theorem reports_get_named (hany : level.child? (ascii "?") = none)
    (hrest : level.child? (ascii "*") = none) :
    Reports level method (component :: components) before
      (get method (component :: components) level before) := by
  have hplain : ∀ key below, valuesAt (key :: below) level ≠ [] →
      wildcards (key :: below) (component :: components) =
        if key = component then wildcards below components else none := by
    intro key below hvalues
    apply wildcards_named
    · rintro rfl
      exact child_of_valuesAt hvalues hany
    · rintro rfl
      exact child_of_valuesAt hvalues hrest
  cases hchild : level.child? component with
  | none =>
    have hnext : next level component = none := by
      rw [next, hchild, hany]
      rfl
    have hempty : valuesAt [component] level = [] := by
      rw [valuesAt, hchild]
      rfl
    rw [get, hnext]
    simp only [getRest, hrest]
    refine ⟨[component], by rw [hempty]; rfl, absurd hempty, ?_⟩
    intro other hvalues hmatches
    cases other with
    | nil => exact absurd rfl hmatches
    | cons key below =>
      rw [hplain key below hvalues, if_neg] at hmatches
      · exact absurd rfl hmatches
      · rintro rfl
        exact child_of_valuesAt hvalues hchild
  | some child =>
    have hwild : component ≠ ascii "?" ∧ component ≠ ascii "*" := by
      constructor <;> rintro rfl
      · rw [hany] at hchild
        cases hchild
      · rw [hrest] at hchild
        cases hchild
    have hnext : next level component = some (component, child) := by
      rw [next, hchild]
      rfl
    rw [get_of_next hnext hrest, if_neg hwild.1]
    apply (hbelow hchild (.inr rfl) _).lift (append_nil before).symm hchild
    · intro other below hvalues hmatches
      by_contra hne
      rw [hplain other below hvalues, if_neg hne] at hmatches
      exact hmatches rfl
    · intro below
      rw [wildcards_named hwild.1 hwild.2, if_pos rfl]
      simp

end Levels

/-- The lookup finds the pattern that matches. -/
theorem reports_get (htidy : tidy level = true)
    (hclear : ∀ pattern, valuesAt pattern level ≠ [] → ¬ Confused pattern components) :
    Reports level method components before (get method components level before) := by
  induction components generalizing level before with
  | nil =>
    refine ⟨[], rfl, fun _ => ⟨[], rfl, (append_nil before).symm⟩, ?_⟩
    intro other _ hmatches
    cases other with
    | nil => rfl
    | cons => exact absurd rfl hmatches
  | cons component components ih =>
    -- What is below a component that matches is not confused either.
    have hbelow : ∀ {key : Bytes} {child : RouteLevel}, level.child? key = some child →
        (key = ascii "?" ∨ key = component) →
        ∀ before, Reports child method components before
          (get method components child before) := by
      intro key child hchild hkey before
      apply ih (tidy_of_child htidy hchild)
      rintro pattern hvalues ⟨hmatches, hrest, hlast, hlength⟩
      apply hclear (key :: pattern) (by rwa [valuesAt, hchild])
      refine ⟨wildcards_cons_ne_none hkey hmatches, ?_, ?_, ?_⟩
      · rw [getLast?_cons, hrest, getD_some]
      · rw [getLast?_cons, hlast, getD_some]
      · rw [length_cons, length_cons, hlength]
    rcases cases_of_tidy htidy with
      ⟨child, hroutes⟩ | ⟨child, hroutes, hleaf⟩ | ⟨hany, hrest⟩
    · exact reports_get_any hbelow hroutes
    · exact reports_get_rest hroutes hleaf hclear
    · exact reports_get_named hbelow hany hrest

end RouteLevel

namespace Router

open KeyTree

variable {method : HTTPMethod} {components : List Bytes}

variable {path : List Bytes}

/-- The levels are those of the routes; `/static/*` is found without what its
wildcard matches. -/
theorem levels_spec : RouteLevel.tidy levels = true ∧
    (∀ entry ∈ entries levels, ∃ route ∈ routes, route.components = entry.1 ∧
      entry.2.1 ∈ route.methods ∧ route.factory = entry.2.2) ∧
    (∀ route ∈ routes, valuesAt route.components levels ≠ [] ∧ ∀ method ∈ route.methods,
      (method, route.factory) ∈ valuesAt route.components levels) ∧
    ∀ method ∈ [.unknown, .head, .get, .post, .put, .delete],
      routeFind method [ascii "static", ascii "*"] =
        if method ∈ getHead then .handler .file [] else .methodNotAllowed := by
  decide +kernel

/-- The route of the files is the only one with a final wildcard, and the only
one that starts with a wildcard or with `static`. -/
theorem file_route : ∀ route ∈ routes,
    (route.components = [ascii "static", ascii "*"] ∧ route.methods = getHead ∧
      route.factory = .file) ∨
    (route.components.getLast? ≠ some (ascii "*") ∧ route.components.head? ∉
        [some (ascii "*"), some (ascii "?"), some (ascii "static")] ∧
      route.factory ≠ .file) := by
  decide +kernel

theorem mem_valuesAt_levels {factory : HandlerFactory} :
    (method, factory) ∈ valuesAt path levels ↔ ∃ route ∈ routes,
      route.components = path ∧ method ∈ route.methods ∧ route.factory = factory := by
  constructor
  · exact fun hvalue => levels_spec.2.1 _ (mem_entries_of_mem_valuesAt hvalue)
  · rintro ⟨route, hroute, rfl, hmethod, rfl⟩
    exact (levels_spec.2.2.1 route hroute).2 method hmethod

theorem exists_route (hvalues : valuesAt path levels ≠ []) :
    ∃ route ∈ routes, route.components = path := by
  obtain ⟨⟨method, factory⟩, hmem⟩ := exists_mem_of_ne_nil _ hvalues
  obtain ⟨route, hroute, hpath, -⟩ := mem_valuesAt_levels.mp hmem
  exact ⟨route, hroute, hpath⟩

/-- The only components that are taken for a pattern. -/
theorem eq_of_confused (hvalues : valuesAt path levels ≠ [])
    (hconfused : Confused path components) :
    components = [ascii "static", ascii "*"] := by
  obtain ⟨route, hroute, rfl⟩ := exists_route hvalues
  obtain ⟨hmatches, hrest, hlast, hlength⟩ := hconfused
  rcases file_route route hroute with ⟨hstatic, -⟩ | ⟨hother, -⟩
  swap
  · exact absurd hrest hother
  rw [hstatic] at hmatches hlength
  obtain ⟨params, hparams⟩ := ne_none_iff_exists'.mp hmatches
  obtain ⟨-, rfl⟩ := wildcards_static.mp hparams
  obtain ⟨only, rfl⟩ := length_eq_one_iff.mp (Nat.succ.inj hlength).symm
  rw [getLast?_cons_cons, getLast?_singleton] at hlast
  rw [some.inj hlast]

/-- The answer for the components of a URL is that of a route that matches them
and has the method, with what its wildcards match; or the method is not allowed
for any route that matches; or no route matches. -/
def Routed (method : HTTPMethod) (components : List Bytes) : Prop :=
  (∃ route ∈ routes, ∃ params, method ∈ route.methods ∧
    wildcards route.components components = some params ∧
      routeFind method components = .handler route.factory params) ∨
  (routeFind method components = .methodNotAllowed ∧
    (∃ route ∈ routes, wildcards route.components components ≠ none) ∧
      ∀ route ∈ routes, method ∈ route.methods →
        wildcards route.components components = none) ∨
  (routeFind method components = .handler .notFound [] ∧
    ∀ route ∈ routes, wildcards route.components components = none)

theorem routed_of_ne (hne : components ≠ [ascii "static", ascii "*"]) :
    Routed method components := by
  obtain ⟨htidy, -, hall, -⟩ := levels_spec
  have hroutes := fun route hroute => (hall route hroute).1
  have hreports : RouteLevel.Reports levels method components []
      (RouteLevel.get method components levels []) :=
    RouteLevel.reports_get htidy fun path hvalues hconfused =>
      hne (eq_of_confused hvalues hconfused)
  unfold Routed routeFind
  generalize RouteLevel.get method components levels [] = answer at hreports ⊢
  obtain ⟨lookup, params⟩ := answer
  obtain ⟨path, hlookup, hmatches, hunique⟩ := hreports
  simp only [RouteLevel.getMethod] at hlookup
  split_ifs at hlookup with hempty
  · -- No pattern matches, since the only one that can has no handlers.
    subst hlookup
    refine .inr (.inr ⟨rfl, ?_⟩)
    intro route hroute
    by_contra hother
    have hpath := hunique _ (hroutes route hroute) hother
    exact hroutes route hroute (hpath ▸ hempty)
  · obtain ⟨matched, hmatched, hparams⟩ := hmatches hempty
    cases hfind : (valuesAt path levels).lookup method with
    | some factory =>
      rw [hfind] at hlookup
      subst hlookup
      obtain ⟨left, right, heq, -⟩ := lookup_eq_some_iff.mp hfind
      obtain ⟨route, hroute, rfl, hmethod, rfl⟩ :=
        mem_valuesAt_levels.mp (heq ▸ mem_append_right _ mem_cons_self)
      exact .inl ⟨route, hroute, params, hmethod,
        hmatched.trans (congrArg some hparams.symm), rfl⟩
    | none =>
      rw [hfind] at hlookup
      subst hlookup
      obtain ⟨route, hroute, rfl⟩ := exists_route hempty
      refine .inr (.inl ⟨rfl, ⟨route, hroute, by simp [hmatched]⟩, ?_⟩)
      intro other hother hmethod
      by_contra hmatches'
      have hvalue := mem_valuesAt_levels.mpr ⟨other, hother, rfl, hmethod, rfl⟩
      rw [hunique _ (hroutes other hother) hmatches'] at hvalue
      simpa using lookup_eq_none_iff.mp hfind _ hvalue

theorem routeFind_static_star (method : HTTPMethod) :
    routeFind method [ascii "static", ascii "*"] =
      if method ∈ getHead then .handler .file [] else .methodNotAllowed := by
  apply levels_spec.2.2.2
  cases method <;> simp

/-- `/static/*` is served without the component that it names. -/
theorem static_star_lost :
    routeFind .get [ascii "static", ascii "*"] = .handler .file [] ∧
      wildcards [ascii "static", ascii "*"] [ascii "static", ascii "*"] =
        some [ascii "*"] := by
  decide +kernel

/-- All requests but this one are routed as promised. -/
theorem routed_iff (method : HTTPMethod) (components : List Bytes) :
    Routed method components ↔
      ¬(components = [ascii "static", ascii "*"] ∧ method ∈ getHead) := by
  by_cases hne : components = [ascii "static", ascii "*"]
  · subst hne
    have hmatched : ∀ route ∈ routes,
        wildcards route.components [ascii "static", ascii "*"] = none ∨
          route.methods = getHead ∧
            wildcards route.components [ascii "static", ascii "*"] ≠ some [] := by
      decide +kernel
    have hsome : ∃ route ∈ routes,
        wildcards route.components [ascii "static", ascii "*"] ≠ none := by
      decide +kernel
    rw [Routed, routeFind_static_star]
    by_cases hmethod : method ∈ getHead
    · rw [if_pos hmethod]
      refine iff_of_false ?_ fun hnot => hnot ⟨rfl, hmethod⟩
      rintro (⟨route, hroute, params, -, hparams, heq⟩ | ⟨hbad, -⟩ | ⟨hbad, -⟩)
      · rw [Routing.handler.injEq] at heq
        rw [← heq.2] at hparams
        rcases hmatched route hroute with hnone | ⟨-, hempty⟩
        · rw [hnone] at hparams
          cases hparams
        · exact hempty hparams
      · cases hbad
      · cases hbad
    · rw [if_neg hmethod]
      refine iff_of_true (.inr (.inl ⟨rfl, hsome, ?_⟩)) fun hboth =>
        hmethod hboth.2
      intro route hroute hallowed
      rcases hmatched route hroute with hnone | ⟨hmethods, -⟩
      · exact hnone
      · exact absurd (hmethods ▸ hallowed) hmethod
  · exact iff_of_true (routed_of_ne hne) fun hboth => hne hboth.1

end Router

end Restpose
