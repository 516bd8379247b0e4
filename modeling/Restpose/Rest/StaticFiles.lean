import Restpose.Rest.Router

/-!
# Static files

The part of a URL after `/static/` is put after `static/static/` as it is.
Nothing looks at the components `..` in it, so that the path can lead out of
the directory, and sometimes back into it.
-/

namespace Restpose

open List

/-! ## Lexical resolution -/

/-- One component of a path, with what those before it came to, the last one
first. -/
def resolveStep (found : List Bytes) (component : Bytes) :
    List Bytes :=
  if component = [] ∨ component = ascii "." then found
  else if component = ascii ".." then
    match found with
    | [] => [ascii ".."]
    | last :: rest => if last = ascii ".." then ascii ".." :: found else rest
  else component :: found

/-- A path without `.`, empty components and those that `..` takes back. -/
def resolve (components : List Bytes) : List Bytes :=
  (components.foldl resolveStep []).reverse

theorem resolveStep_up {last : Bytes} (hlast : last ≠ ascii "..") (rest : List Bytes) :
    resolveStep (last :: rest) (ascii "..") = rest := by
  have hdots : ¬(ascii ".." = [] ∨ ascii ".." = ascii ".") := by decide
  simp [resolveStep, hdots, hlast]

theorem resolveStep_up_replicate (ups : ℕ) :
    resolveStep (List.replicate ups (ascii "..")) (ascii "..") =
      List.replicate (ups + 1) (ascii "..") := by
  have hdots : ¬(ascii ".." = [] ∨ ascii ".." = ascii ".") := by decide
  cases ups with
  | zero => simp [resolveStep, hdots]
  | succ ups => simp [resolveStep, hdots, replicate_succ]

/-- Resolved in some directory, components go up and then down by names. -/
theorem foldl_resolveStep (components : List Bytes) : ∃ ups names, ascii ".." ∉ names ∧
      ∀ directory, ascii ".." ∉ directory →
        components.foldl resolveStep directory = names ++ (directory.drop ups ++
          List.replicate (ups - directory.length) (ascii "..")) := by
  induction components using reverseRecOn with
  | nil => exact ⟨0, [], by simp, by simp⟩
  | append_singleton components component ih =>
    obtain ⟨ups, names, hnames, hfold⟩ := ih
    simp only [foldl_append, foldl_cons, foldl_nil]
    by_cases hskip : component = [] ∨ component = ascii "."
    · refine ⟨ups, names, hnames, ?_⟩
      intro directory hdirectory
      rw [hfold directory hdirectory]
      exact if_pos hskip
    by_cases hup : component = ascii ".."
    · subst hup
      cases names with
      | cons last rest =>
        rw [mem_cons, not_or] at hnames
        refine ⟨ups, rest, hnames.2, ?_⟩
        intro directory hdirectory
        rw [hfold directory hdirectory]
        exact resolveStep_up (Ne.symm hnames.1) _
      | nil =>
        refine ⟨ups + 1, [], hnames, ?_⟩
        intro directory hdirectory
        rw [hfold directory hdirectory, nil_append, nil_append]
        by_cases hroom : ups < directory.length
        · have hlast : directory[ups] ≠ ascii ".." := fun heq =>
            hdirectory (heq ▸ getElem_mem hroom)
          have hsub : ups - directory.length = 0 := by omega
          have hsub' : ups + 1 - directory.length = 0 := by omega
          rw [hsub, hsub', drop_eq_getElem_cons hroom]
          exact resolveStep_up hlast _
        · have hsub : ups + 1 - directory.length = ups - directory.length + 1 := by omega
          rw [hsub, drop_of_length_le (by omega), drop_of_length_le (by omega)]
          exact resolveStep_up_replicate _
    · refine ⟨ups, component :: names, ?_, ?_⟩
      · rw [mem_cons, not_or]
        exact ⟨Ne.symm hup, hnames⟩
      · intro directory hdirectory
        rw [hfold directory hdirectory]
        exact (if_neg hskip).trans (if_neg hup)

namespace Router

/-- `ConnectionInfo::parse_url_components` from the second byte of the URL on,
after what has been read of a component.  A slash at the start of a component
belongs to it. -/
def parseFrom : Bytes → Bytes → List Bytes
  | component, [] => [component]
  | component, byte :: rest =>
      if byte = 47 ∧ component ≠ [] then component :: parseFrom [] rest
      else parseFrom (component ++ [byte]) rest

def parseUrlComponents (url : Bytes) : List Bytes :=
  parseFrom [] (url.drop 1)

/-- The path that `FileHandlerFactory::create` builds. -/
def filePath (params : List Bytes) : Bytes :=
  params.foldl (fun path param => path ++ ascii "/" ++ param)
    (ascii "static/static")

/-- The path is the static directory or a path below it. -/
def Inside (path : Bytes) : Prop :=
  [ascii "static", ascii "static"] <+: resolve (segments [] path)

/-- A path does not lead up, or comes back by the way it went. -/
def InBounds (path : Bytes) : Prop :=
  (resolve (segments [] path)).head? ≠ some (ascii "..") ∨
    [ascii "..", ascii "static"] <+: resolve (segments [] path) ∨
    [ascii "..", ascii "..", ascii "static", ascii "static"] <+:
      resolve (segments [] path)

variable (rest : Bytes)

theorem inside_iff : Inside (ascii "static/static/" ++ rest) ↔ InBounds rest := by
  obtain ⟨ups, names, hnames, hfold⟩ := foldl_resolveStep (segments [] rest)
  have hinside : resolve (segments [] (ascii "static/static/" ++ rest)) =
      (names ++ ([ascii "static", ascii "static"].drop ups ++
        List.replicate (ups - 2) (ascii ".."))).reverse :=
    congrArg List.reverse (hfold [ascii "static", ascii "static"] (by decide))
  have halone : resolve (segments [] rest) =
      (names ++ List.replicate ups (ascii "..")).reverse := by
    rw [resolve, hfold [] (by simp)]
    simp
  have hdots : ascii "static" ≠ ascii ".." := by decide
  have hhead : ∀ name ∈ names.reverse, ascii ".." ≠ name := by
    intro name hname heq
    exact hnames (heq ▸ mem_reverse.mp hname)
  rw [Inside, InBounds, hinside, halone]
  simp only [reverse_append, reverse_replicate]
  generalize names.reverse = names at hhead
  have hnone : ∀ names', ¬ ascii ".." :: names' <+: names := by
    rintro _ ⟨after, rfl⟩
    exact hhead _ mem_cons_self rfl
  rcases ups with _ | _ | _ | ups
  · refine iff_of_true (by simp) (.inl ?_)
    intro hfirst
    cases names with
    | nil => cases hfirst
    | cons first names =>
      exact hhead first mem_cons_self (Option.some.inj hfirst).symm
  · simp [hnone, replicate_succ]
  all_goals simp [hdots, replicate_succ]

theorem parseFrom_eq_cons {component rest name : Bytes} {params : List Bytes}
    (hparse : parseFrom component rest = name :: params) (hmore : params ≠ []) :
    ∃ left right, rest = left ++ 47 :: right ∧ component ++ left = name ∧
      params = parseFrom [] right := by
  induction rest generalizing component with
  | nil =>
    cases hparse
    exact absurd rfl hmore
  | cons byte rest ih =>
    rw [parseFrom] at hparse
    split_ifs at hparse with hslash
    · cases hparse
      exact ⟨[], rest, by rw [hslash.1]; rfl, append_nil _, rfl⟩
    · obtain ⟨left, right, rfl, rfl, hright⟩ := ih hparse
      exact ⟨byte :: left, right, rfl, by simp, hright⟩

theorem foldl_parseFrom (path component rest : Bytes) : (parseFrom component rest).foldl
        (fun path param => path ++ ascii "/" ++ param) path =
      path ++ ascii "/" ++ component ++ rest := by
  induction rest generalizing path component with
  | nil => simp [parseFrom]
  | cons byte rest ih =>
    rw [parseFrom]
    split_ifs with hslash
    · have hbyte : ascii "/" = [byte] := by rw [hslash.1]; decide
      rw [foldl_cons, ih, hbyte]
      simp
    · rw [ih]
      simp

theorem filePath_parseFrom :
    filePath (parseFrom [] rest) = ascii "static/static/" ++ rest := by
  rw [filePath, foldl_parseFrom, append_nil]
  rfl

theorem parseFrom_ne_nil : parseFrom [] rest ≠ [] := by
  intro hnil
  have hjoined := foldl_parseFrom [] [] rest
  rw [hnil] at hjoined
  cases hjoined

theorem head_of_wildcards {pattern : List Bytes} {component : Bytes}
    {components matched : List Bytes}
    (hmatched : wildcards pattern (component :: components) = some matched) :
    pattern.head? = some (ascii "*") ∨ pattern.head? = some (ascii "?") ∨
      pattern.head? = some component := by
  cases pattern with
  | nil => cases hmatched
  | cons part pattern =>
    rw [wildcards] at hmatched
    split_ifs at hmatched with hrest hany hname
    · exact .inl (congrArg some hrest.1)
    · exact .inr (.inl (congrArg some hany))
    · exact .inr (.inr (congrArg some hname))

variable {method : HTTPMethod} {components params : List Bytes}

/-- The requests that the file handler gets. -/
theorem routeFind_eq_file (hfind : routeFind method components = .handler .file params) :
    method ∈ getHead ∧ (params = [] ∨
      (params ≠ [] ∧ components = ascii "static" :: params)) := by
  by_cases hne : components = [ascii "static", ascii "*"]
  · rw [hne, routeFind_static_star] at hfind
    split_ifs at hfind with hmethod
    cases hfind
    exact ⟨hmethod, .inl rfl⟩
  · rcases routed_of_ne hne with
      ⟨route, hroute, found, hmethod, hmatched, hother⟩ | ⟨hother, -⟩ |
      ⟨hother, -⟩
    · rw [hfind, Routing.handler.injEq] at hother
      obtain ⟨hfactory, rfl⟩ := hother
      rcases file_route route hroute with ⟨hcomponents, hmethods, -⟩ | ⟨-, -, hother⟩
      swap
      · exact absurd hfactory.symm hother
      rw [hmethods] at hmethod
      rw [hcomponents, wildcards_static] at hmatched
      exact ⟨hmethod, .inr hmatched⟩
    all_goals
      rw [hfind] at hother
      cases hother

theorem routeFind_static (hmethod : method ∈ getHead) (hsome : params ≠ [])
    (hne : params ≠ [ascii "*"]) :
    routeFind method (ascii "static" :: params) = .handler .file params := by
  have hfile : (⟨ascii "/static/*", getHead, .file⟩ : Route) ∈ routes := by simp [routes]
  have hpattern : Route.components ⟨ascii "/static/*", getHead, .file⟩ =
      [ascii "static", ascii "*"] := rfl
  have hmatches : wildcards (Route.components ⟨ascii "/static/*", getHead, .file⟩)
      (ascii "static" :: params) = some params := by
    rw [hpattern, wildcards_static]
    exact ⟨hsome, rfl⟩
  have hother : ascii "static" :: params ≠ [ascii "static", ascii "*"] :=
    fun heq => hne (cons.inj heq).2
  rcases routed_of_ne hother with
    ⟨route, hroute, found, -, hmatched, hfind⟩ | ⟨-, -, hnone⟩ | ⟨-, hnone⟩
  · have hhead := head_of_wildcards hmatched
    rcases file_route route hroute with ⟨hcomponents, -, hfactory⟩ | ⟨-, hother, -⟩
    swap
    · exact absurd (by simpa using hhead) hother
    rw [hcomponents, wildcards_static] at hmatched
    rw [hfind, hfactory, ← (cons.inj hmatched.2).2]
  · rw [hnone _ hfile hmethod] at hmatches
    cases hmatches
  · rw [hnone _ hfile] at hmatches
    cases hmatches

/-- The files that a request can name are those of the static directory if and
only if the part of the URL after `/static/` is in bounds. -/
theorem static_confined_iff (method : HTTPMethod) (url : Bytes) :
    (∀ params, routeFind method (parseUrlComponents url) =
      .handler .file params → Inside (filePath params)) ↔
    (method ∈ getHead → ∀ rest, url.drop 1 = ascii "static/" ++ rest →
      InBounds rest) := by
  constructor
  · intro hconfined hmethod rest hurl
    have hparse : parseUrlComponents url =
        ascii "static" :: parseFrom [] rest := by
      rw [parseUrlComponents, hurl]
      rfl
    by_cases hstar : parseFrom [] rest = [ascii "*"]
    · have hpath := filePath_parseFrom rest
      rw [hstar] at hpath
      have hrest : rest = ascii "*" := (List.append_cancel_left hpath).symm
      rw [hrest]
      exact .inl (by decide +kernel)
    · rw [hparse] at hconfined
      have hinside := hconfined _ (routeFind_static hmethod
        (parseFrom_ne_nil rest) hstar)
      rwa [filePath_parseFrom, inside_iff] at hinside
  · intro hbounds params hfind
    obtain ⟨hmethod, rfl | ⟨hsome, hcomponents⟩⟩ := routeFind_eq_file hfind
    · have hdirectory : [ascii "static", ascii "static"] <+:
          resolve (segments [] (filePath [])) := by decide +kernel
      exact hdirectory
    · obtain ⟨left, rest, hurl, hleft, rfl⟩ :=
        parseFrom_eq_cons hcomponents hsome
      rw [filePath_parseFrom, inside_iff]
      apply hbounds hmethod rest
      rw [hurl, ← List.nil_append left, hleft]
      rfl

/-- A request can name files outside the directory of the server. -/
theorem static_escapes :
    routeFind .get (parseUrlComponents (ascii "/static/../../../etc/passwd")) =
        .handler .file [ascii "..", ascii "..", ascii "..", ascii "etc",
          ascii "passwd"] ∧
      resolve (segments [] (filePath [ascii "..", ascii "..", ascii "..",
        ascii "etc", ascii "passwd"])) =
          [ascii "..", ascii "etc", ascii "passwd"] := by
  decide +kernel

end Router

end Restpose
