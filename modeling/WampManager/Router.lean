/-
# Routes

`index.php` registers one route for each page and each action, and the router takes the
first one whose method and pattern a request fits. Two of the routes have requests in
common: to browse an instance is also a command of the route behind it. All others can be
told apart by their patterns, so the table can be read without its order.
-/

import WampManager.Lib.Captures
import WampManager.Lib.CmdLine
import WampManager.Lib.Loose
import WampManager.Lib.Url

namespace WampManager

namespace Router

/-! ## The table -/

/-- What `Router::__call` keeps of a route; a route without a target shows a view. -/
structure Route where
  method : Text
  pattern : Text
  target : Option Text
  deriving DecidableEq

/-- `$router->get` with a target. -/
def get (pattern target : String) : Route :=
  ⟨"GET".toList, pattern.toList, some target.toList⟩

/-- `$router->post` with a target. -/
def post (pattern target : String) : Route :=
  ⟨"POST".toList, pattern.toList, some target.toList⟩

/-- The route that opens the directory of an instance. -/
def browse : Route := get "/instance/(\\d+)/browse" "Instance@browse"

/-- The route of all other commands of an instance. -/
def control : Route := get "/instance/(\\d+)/(\\w+)" "Instance@control"

/-- The route that ends a process. -/
def kill : Route := get "/tools/process/(\\d+)" "Tools\\Process@kill"

/-- The routes of `index.php`. -/
def routes : List Route :=
  [get "/" "Instance@index",
    get "/sites" "Site@index",
    get "/site/add" "Site@showAdd",
    post "/site/add" "Site@doAdd",
    get "/site/(\\d+)/browse" "Site@browse",
    get "/site/(\\d+)/edit" "Site@showEdit",
    post "/site/(\\d+)/edit" "Site@doEdit",
    get "/site/(\\d+)/delete" "Site@delete",
    get "/site/(\\d+)/code" "Site@code",
    get "/packages" "Package@index",
    get "/package/(\\d+)/add" "Package@add",
    post "/package/(\\d+)/add" "Package@verify",
    get "/package/(\\d+)/install" "Package@install",
    get "/dev" "Dev@index",
    post "/dev/upload" "Dev@upload",
    post "/dev/version" "Dev@version",
    post "/dev/toggle" "Dev@toggle",
    get "/update/check" "Update@check",
    get "/update/update" "Update@update",
    get "/update/sync" "Update@sync",
    browse,
    get "/instance/(\\d+)/fopen/(\\w+)" "Instance@fopen",
    post "/instance/(\\d+)/rename" "Instance@rename",
    control,
    get "/tools/path" "Tools\\Path@index",
    post "/tools/path" "Tools\\Path@update",
    get "/tools/process" "Tools\\Process@index",
    kill,
    get "/tools/hosts" "Tools\\Host@index",
    post "/tools/hosts" "Tools\\Host@update",
    get "/tools/benchmarks" "Tools\\Benchmark@index",
    post "/tools/benchmarks" "Tools\\Benchmark@create",
    get "/tools/benchmarks/(\\d+)" "Tools\\Benchmark@report",
    get "/tools/benchmarks/(\\d+)/delete" "Tools\\Benchmark@delete",
    get "/tools/benchmarks/clear" "Tools\\Benchmark@clear",
    get "/tools/fb" "Tools\\Folder@index",
    ⟨"GET".toList, "/wizard".toList, none⟩,
    get "/settings" "Settings@index",
    post "/settings" "Settings@save",
    get "/mail" "Mail@index",
    get "/mail/delete/(.+)" "Mail@delete",
    get "/mail/open/(.+)" "Mail@open",
    get "/mail/empty" "Mail@empty",
    get "/mail/browse" "Mail@browse"]

/-! ## Dispatching -/

/-- What a request leads to. -/
inductive Answer
  | view (file : Text)
  | call (controller method : Text) (params : List Text)
  | notFound (notice : Text)
  deriving DecidableEq

/-- What a route captures of a request that it fits. -/
def Route.capture (route : Route) (method path : Text) : Option (List Text) :=
  if route.method = "ANY".toList ∨ Loose.textEq method route.method = true then
    (Captures.read route.pattern).bind (Captures.capture · path)
  else none

/-- The path of a request; a text without a path is matched like an empty one. -/
def pathOf (requestUri : Text) : Text := (Url.path? requestUri).getD []

/-- The first route that a request fits. -/
def select (table : List Route) (method requestUri : Text) : Option (Route × List Text) :=
  (table.find? fun route => (route.capture method (pathOf requestUri)).isSome).bind fun route =>
    (route.capture method (pathOf requestUri)).map (route, ·)

/-- The controller of a target. -/
def controllerOf (name : Text) : Text :=
  if name.head? = some '\\' then name ++ "Controller".toList
  else "\\App\\Controllers\\".toList ++ name ++ "Controller".toList

/-- The controller and the method that a route calls. -/
def Route.handler (route : Route) : Option (Text × Text) :=
  route.target.map fun target =>
    (controllerOf ((target.splitOn '@').getD 0 []), (target.splitOn '@').getD 1 [])

/-- The view or the call of a route. -/
def Route.answer (appPath : Text) (route : Route) (params : List Text) : Answer :=
  match route.handler with
  | none => .view (appPath ++ "/app/views".toList ++ route.pattern ++ ".php".toList)
  | some (controller, method) => .call controller method params

/-- `Router::dispatch`. -/
def dispatch (appPath : Text) (table : List Route) (method requestUri : Text) : Answer :=
  match select table method requestUri with
  | some (route, params) => route.answer appPath params
  | none =>
      .notFound ("Your request for <strong>".toList ++ requestUri ++
        "</strong> could not be found".toList)

/-! ## Which route is taken -/

/-- A path is the pattern of a route with these texts in its groups. -/
def Route.Fills (route : Route) (args : List Text) (path : Text) : Prop :=
  ∃ p, Captures.read route.pattern = some p ∧ Captures.Filled p args path

/-- Can two routes be told apart? -/
def Route.apart (route other : Route) : Bool :=
  route.method != other.method ||
    (Captures.read route.pattern).any fun p =>
      (Captures.read other.pattern).any fun q => Captures.apart p q

/-- The class that acts on mails. -/
def mailController : Text := controllerOf "Mail".toList

/-- A pattern begins with one slash and has no marks of other components of a URL. -/
def fixed : Captures.Pattern → Bool
  | .lit '/' :: p =>
      (p.all fun
        | .lit c => Url.isPlain c
        | .group _ => true) &&
      match p with
      | [] => true
      | .lit c :: _ => c != '/'
      | .group _ :: _ => false
  | _ => false

/-- What each route of the table is like. -/
def Route.regular (route : Route) : Bool :=
  route.method != "ANY".toList && (Loose.number? route.method).isNone &&
    (route.handler != kill.handler || route == kill) &&
    (Captures.read route.pattern).any fun p =>
      Captures.guarded p && fixed p &&
        (route.handler.map Prod.fst == some mailController || .group .any ∉ p)

/-- What each two routes of the table are like, the first in front of the second. -/
def Route.Before (route other : Route) : Prop :=
  route ≠ other ∧ (route.apart other = true ∨ (route = browse ∧ other = control))

instance (route other : Route) : Decidable (route.Before other) :=
  inferInstanceAs (Decidable (_ ∧ _))

theorem regular_routes :
    routes.all Route.regular = true ∧ routes.Pairwise Route.Before := by
  -- the texts are spelled out once, in front of all checks
  obtain ⟨table, htable⟩ : ∃ table, table = routes := ⟨routes, rfl⟩
  rw [← htable]
  simp only [routes, get, post, browse, control, kill, String.reduceToList] at htable
  subst htable
  decide

theorem routes_nodup : routes.Nodup := regular_routes.2.imp And.left

/-- Any two routes are apart, but for browsing and the other commands. -/
theorem routes_apart : routes.Pairwise fun route other =>
    route.apart other = true ∨ (route = browse ∧ other = control) :=
  regular_routes.2.imp And.right

theorem regular_of_mem {route : Route} (h : route ∈ routes) :
    (route.method ≠ "ANY".toList ∧ Loose.number? route.method = none) ∧
      (route.handler = kill.handler → route = kill) ∧
      ∃ p, Captures.read route.pattern = some p ∧ Captures.guarded p = true ∧ fixed p = true ∧
        (route.handler.map Prod.fst = some mailController ∨ .group .any ∉ p) := by
  have hroute := List.all_eq_true.mp regular_routes.1 route h
  simp only [Route.regular, Bool.and_eq_true, bne_iff_ne, Bool.or_eq_true, beq_iff_eq,
    Option.any_eq_true, decide_eq_true_eq, Option.isNone_iff_eq_none] at hroute
  obtain ⟨⟨hmethod, hkill⟩, p, hread, ⟨hguarded, hfixed⟩, hmail⟩ := hroute
  exact ⟨hmethod, fun heq => hkill.resolve_left fun hne => hne heq, p, hread, hguarded, hfixed,
    hmail⟩

theorem guarded_of_mem {route : Route} (h : route ∈ routes) :
    ∃ p, Captures.read route.pattern = some p ∧ Captures.guarded p = true := by
  obtain ⟨-, -, p, hread, hguarded, -⟩ := regular_of_mem h
  exact ⟨p, hread, hguarded⟩

variable {route other : Route} {method requestUri path : Text} {args args' : List Text}

theorem capture_eq_some_iff (hroute : route ∈ routes) (hpath : '\n' ∉ path) :
    route.capture method path = some args ↔ method = route.method ∧ route.Fills args path := by
  obtain ⟨p, hread, hguarded⟩ := guarded_of_mem hroute
  obtain ⟨⟨hany, hnumber⟩, -⟩ := regular_of_mem hroute
  have htext : Loose.textEq method route.method = true ↔ method = route.method := by
    rw [Loose.textEq, hnumber]
    cases Loose.number? method <;> exact beq_iff_eq
  rw [Route.capture, Option.ite_none_right_eq_some, or_iff_right hany, htext, hread,
    Option.bind_some, Captures.capture_eq_some_iff hguarded hpath]
  exact and_congr_right fun _ => ⟨fun h => ⟨p, hread, h⟩, fun ⟨q, hq, h⟩ =>
    Option.some.inj (hread.symm.trans hq) ▸ h⟩

theorem Route.Fills.unique (h : route.Fills args path) (h' : route.Fills args' path)
    (hroute : route ∈ routes) : args = args' := by
  obtain ⟨p, hread, hguarded⟩ := guarded_of_mem hroute
  obtain ⟨q, hq, h⟩ := h
  obtain ⟨q', hq', h'⟩ := h'
  rw [hread] at hq hq'
  obtain rfl := Option.some.inj hq
  obtain rfl := Option.some.inj hq'
  exact h.unique h' hguarded

theorem not_fills_of_apart (hroute : route ∈ routes) (hother : other ∈ routes)
    (h : route.apart other = true) (hmethod : route.method = other.method)
    (hfirst : route.Fills args path) : ¬ other.Fills args' path := by
  intro hsecond
  obtain ⟨p, hp, hguarded⟩ := guarded_of_mem hroute
  obtain ⟨q, hq, hguarded'⟩ := guarded_of_mem hother
  obtain ⟨p', hp', hfirst⟩ := hfirst
  obtain ⟨q', hq', hsecond⟩ := hsecond
  rw [hp] at hp'
  rw [hq] at hq'
  obtain rfl := Option.some.inj hp'
  obtain rfl := Option.some.inj hq'
  have hapart : Captures.apart p q = true := by simpa [Route.apart, hmethod, hp, hq] using h
  exact Captures.not_filled_of_apart hapart hguarded hguarded' hfirst hsecond

/-- A request that fits two routes opens the directory of an instance. -/
theorem eq_of_fills (hroute : route ∈ routes) (hother : other ∈ routes)
    (hmethod : route.method = other.method) (h : route.Fills args path)
    (h' : other.Fills args' path) :
    route = other ∨ (route = browse ∧ other = control) ∨ (route = control ∧ other = browse) := by
  by_cases heq : route = other
  · exact .inl heq
  · right
    rcases Captures.sublist_or_sublist hroute hother heq with hsub | hsub
    · rcases Captures.rel_of_sublist routes_apart hsub with hapart | hpair
      · exact absurd h' (not_fills_of_apart hroute hother hapart hmethod h)
      · exact .inl hpair
    · rcases Captures.rel_of_sublist routes_apart hsub with hapart | hpair
      · exact absurd h (not_fills_of_apart hother hroute hapart hmethod.symm h')
      · exact .inr hpair.symm

theorem browse_mem : browse ∈ routes := by decide

theorem control_mem : control ∈ routes := by decide

theorem browse_ne_control : browse ≠ control := by decide

theorem read_control : Captures.read control.pattern = some ("/instance/".toList.map .lit ++
    .group .digit :: (['/'].map .lit ++ [.group .word])) := by decide

theorem read_browse : Captures.read browse.pattern = some ("/instance/".toList.map .lit ++
    .group .digit :: (['/'].map .lit ++ ("browse".toList.map .lit ++ []))) := by decide

/-- To browse is a command. -/
theorem browse_fills_iff :
    browse.Fills args path ↔ ∃ w, args = [w] ∧ control.Fills [w, "browse".toList] path := by
  have hword : ∀ c ∈ "browse".toList, Captures.Kind.word.accepts c = true := by decide
  simp only [Route.Fills, read_control, read_browse, Option.some.injEq, exists_eq_left',
    Captures.filled_lits_append, Captures.filled_group, Captures.filled_nil]
  apply Iff.intro
  · intro h
    obtain ⟨u, rfl, w, tail, v, rfl, rfl, hne, hw, x, rfl, y, rfl, rfl, rfl⟩ := h
    exact ⟨w, rfl, _, rfl, w, _, _, rfl, rfl, hne, hw, _, rfl, "browse".toList, [], [], rfl,
      rfl, by decide, hword, rfl, rfl⟩
  · intro h
    obtain ⟨w, rfl, u, rfl, w', tail, v, hargs, rfl, hne, hw, x, rfl, w'', tail', y, rfl, rfl,
      -, -, rfl, rfl⟩ := h
    obtain ⟨rfl, htail⟩ := List.cons.inj hargs
    obtain ⟨rfl, -⟩ := List.cons.inj htail
    exact ⟨_, rfl, w, [], _, rfl, rfl, hne, hw, _, rfl, [], rfl, rfl, rfl⟩

/-- The route of the commands is taken for all other commands. -/
theorem exists_browse_iff (h : control.Fills args path) :
    (∃ found, browse.Fills found path) ↔ args[1]? = some "browse".toList := by
  apply Iff.intro
  · intro hbrowse
    obtain ⟨found, hfound⟩ := hbrowse
    obtain ⟨w, -, hw⟩ := browse_fills_iff.mp hfound
    rw [h.unique hw control_mem]
    rfl
  · intro hargs
    obtain ⟨w, rfl⟩ : ∃ w, args = [w, "browse".toList] := by
      obtain ⟨p, hp, hfilled⟩ := h
      rw [read_control] at hp
      obtain rfl := Option.some.inj hp
      simp only [Captures.filled_lits_append, Captures.filled_group, Captures.filled_nil]
        at hfilled
      obtain ⟨u, -, w, tail, v, rfl, -, -, -, x, -, w', tail', y, rfl, -, -, -, rfl, -⟩ := hfilled
      exact ⟨w, by simpa using hargs⟩
    exact ⟨[w], browse_fills_iff.mpr ⟨w, rfl, h⟩⟩

theorem not_mem_newline_pathOf (requestUri : Text) : '\n' ∉ pathOf requestUri := by
  rw [pathOf]
  cases hpath : Url.path? requestUri with
  | none => exact List.not_mem_nil
  | some path =>
      intro hmem
      have := Url.isShown_of_path? hpath _ hmem
      revert this
      decide

/-! ## The order of the table -/

section Order

variable {table : List Route} (hperm : table.Perm routes)
include hperm

theorem capture_eq_some_iff_of_perm (hroute : route ∈ table) :
    route.capture method (pathOf requestUri) = some args ↔
      method = route.method ∧ route.Fills args (pathOf requestUri) :=
  capture_eq_some_iff (hperm.mem_iff.mp hroute) (not_mem_newline_pathOf requestUri)

/-- A route takes the requests that it fits, if it stands in front of all others that they
fit. -/
theorem select_of_first (hroute : route ∈ table) (hmethod : method = route.method)
    (hfills : route.Fills args (pathOf requestUri))
    (hfirst : ∀ other ∈ routes, other.method = route.method → (∃ found,
      other.Fills found (pathOf requestUri)) → other ≠ route → [route, other].Sublist table) :
    select table method requestUri = some (route, args) := by
  have hfound := (capture_eq_some_iff_of_perm hperm hroute).mpr ⟨hmethod, hfills⟩
  have hfind : (table.find? fun route =>
      (route.capture method (pathOf requestUri)).isSome) = some route := by
    apply Captures.find?_eq_some_of_first (hperm.nodup_iff.mpr routes_nodup) hroute
      (Option.isSome_iff_exists.mpr ⟨args, hfound⟩)
    intro other hother htest hne
    obtain ⟨found, htaken⟩ := Option.isSome_iff_exists.mp htest
    obtain ⟨hmethod', hfills'⟩ := (capture_eq_some_iff_of_perm hperm hother).mp htaken
    exact hfirst other (hperm.mem_iff.mp hother) (hmethod'.symm.trans hmethod) ⟨found, hfills'⟩
      hne
  rw [select, hfind, Option.bind_some, hfound]
  rfl

/-- A request that fits a route is taken by it, unless it browses. -/
theorem select_of_fills (hbrowse : [browse, control].Sublist table) (hroute : route ∈ routes)
    (hmethod : method = route.method) (hfills : route.Fills args (pathOf requestUri))
    (hother : ¬ (route = control ∧ args[1]? = some "browse".toList)) :
    select table method requestUri = some (route, args) := by
  apply select_of_first hperm (hperm.mem_iff.mpr hroute) hmethod hfills
  intro other hmem hmethod' hfound hne
  obtain ⟨found, hfound⟩ := hfound
  rcases eq_of_fills hroute hmem hmethod'.symm hfills hfound with heq | hpair | hpair
  · exact absurd heq.symm hne
  · rw [hpair.1, hpair.2]
    exact hbrowse
  · obtain ⟨rfl, rfl⟩ := hpair
    exact absurd ⟨rfl, (exists_browse_iff hfills).mp ⟨found, hfound⟩⟩ hother

theorem fills_of_select (h : select table method requestUri = some (route, args)) :
    route ∈ routes ∧ method = route.method ∧ route.Fills args (pathOf requestUri) := by
  obtain ⟨r, hfind, hmap⟩ := Option.bind_eq_some_iff.mp h
  obtain ⟨found, hfound, hpair⟩ := Option.map_eq_some_iff.mp hmap
  obtain ⟨rfl, rfl⟩ := Prod.mk.inj hpair
  have hmem := List.mem_of_find?_eq_some hfind
  exact ⟨hperm.mem_iff.mp hmem, (capture_eq_some_iff_of_perm hperm hmem).mp hfound⟩

/-- A table of the same routes takes the route that fits, if browsing stands in front of the
commands. -/
theorem select_eq_some_iff (hbrowse : [browse, control].Sublist table) :
    select table method requestUri = some (route, args) ↔
      route ∈ routes ∧ method = route.method ∧ route.Fills args (pathOf requestUri) ∧
        ¬ (route = control ∧ args[1]? = some "browse".toList) := by
  apply Iff.intro
  · intro h
    obtain ⟨hroute, hmethod, hfills⟩ := fills_of_select hperm h
    apply And.intro hroute (And.intro hmethod (And.intro hfills _))
    intro hboth
    obtain ⟨rfl, hargs⟩ := hboth
    obtain ⟨found, hfound⟩ := (exists_browse_iff hfills).mpr hargs
    have htaken := select_of_fills hperm hbrowse browse_mem (hmethod.trans rfl) hfound
      fun hboth => browse_ne_control hboth.1
    rw [h] at htaken
    exact browse_ne_control (Prod.mk.inj (Option.some.inj htaken)).1.symm
  · intro h
    exact select_of_fills hperm hbrowse h.1 h.2.1 h.2.2.1 h.2.2.2

end Order

theorem browse_in_front : [browse, control].Sublist routes := by decide

/-- Which route takes a request, and with which parameters. -/
theorem request_routed :
    select routes method requestUri = some (route, args) ↔
      route ∈ routes ∧ method = route.method ∧ route.Fills args (pathOf requestUri) ∧
        ¬ (route = control ∧ args[1]? = some "browse".toList) :=
  select_eq_some_iff (List.Perm.refl _) browse_in_front

/-- A pattern begins with one slash and has no marks of other components of a URL. -/
theorem fixed_of_mem (h : route ∈ routes) :
    ∃ p, Captures.read route.pattern = some (.lit '/' :: p) ∧
      (∀ c, .lit c ∈ p → Url.isPlain c = true) ∧ (p = [] ∨ ∃ c q, p = .lit c :: q ∧ c ≠ '/') := by
  obtain ⟨-, -, p, hread, -, hfixed, -⟩ := regular_of_mem h
  rw [hread]
  unfold fixed at hfixed
  split at hfixed
  · next p =>
      obtain ⟨hplain, hbegins⟩ := Bool.and_eq_true_iff.mp hfixed
      refine ⟨p, rfl, fun c hc => List.all_eq_true.mp hplain _ hc, ?_⟩
      split at hbegins
      · exact .inl rfl
      · next c q => exact .inr ⟨c, q, rfl, by simpa using hbegins⟩
      · cases hbegins
  · cases hfixed

/-- The parser of URLs leaves such a link alone. -/
theorem pathOf_of_fills (hroute : route ∈ routes) (hfills : route.Fills args requestUri)
    (hargs : ∀ w ∈ args, ∀ c ∈ w, Url.isPlain c = true) : pathOf requestUri = requestUri := by
  obtain ⟨p, hread, hplain, hbegins⟩ := fixed_of_mem hroute
  obtain ⟨q, hq, hfilled⟩ := hfills
  rw [hread] at hq
  obtain rfl := Option.some.inj hq
  have hall : ∀ c ∈ requestUri, Url.isPlain c = true := by
    apply hfilled.forall_mem _ hargs
    intro c hc
    rcases List.mem_cons.mp hc with hc | hc
    · cases hc
      decide
    · exact hplain c hc
  obtain ⟨u, rfl, htail⟩ := hfilled.of_lit
  have hslash : ¬ ['/', '/'] <+: '/' :: u := by
    intro hdouble
    have hu := (List.cons_prefix_cons.mp hdouble).2
    rcases hbegins with rfl | ⟨c, q, rfl, hc⟩
    · rw [(Captures.filled_nil.mp htail).2] at hu
      simp at hu
    · obtain ⟨v, rfl, -⟩ := htail.of_lit
      exact hc (List.cons_prefix_cons.mp hu).1.symm
  rw [pathOf, Url.path?_of_isPlain hall (by simp) hslash, Option.getD_some]

/-- A link that is made from the pattern of a route leads back to it with the same
parameters. -/
theorem link_leads_back (hroute : route ∈ routes) (hfills : route.Fills args requestUri)
    (hargs : ∀ w ∈ args, ∀ c ∈ w, Url.isPlain c = true)
    (hother : ¬ (route = control ∧ args[1]? = some "browse".toList)) (appPath : Text) :
    dispatch appPath routes route.method requestUri = route.answer appPath args := by
  have hpath := pathOf_of_fills hroute hfills hargs
  have hselect : select routes route.method requestUri = some (route, args) :=
    (select_eq_some_iff (List.Perm.refl _) browse_in_front).mpr
      ⟨hroute, rfl, hpath.symm ▸ hfills, hother⟩
  rw [dispatch, hselect]

/-- The link behind a site's button leads to its form. -/
theorem link_leads_back_edit :
    dispatch [] routes "GET".toList "/site/37/edit".toList =
      .call "\\App\\Controllers\\SiteController".toList "showEdit".toList ["37".toList] := by
  have hmem : get "/site/(\\d+)/edit" "Site@showEdit" ∈ routes := by decide
  have hline : '\n' ∉ "/site/37/edit".toList := by decide
  have hfills := ((capture_eq_some_iff hmem hline).mp
    (by decide : Route.capture _ "GET".toList _ = some ["37".toList])).2
  exact link_leads_back hmem hfills (by decide) (by decide +kernel) []

/-- The order of the routes does not matter, as long as browsing stands in front of the other
commands. -/
theorem order_of_routes {table : List Route} (hperm : table.Perm routes) (appPath : Text) :
    (∀ method requestUri, dispatch appPath table method requestUri =
      dispatch appPath routes method requestUri) ↔ [browse, control].Sublist table := by
  apply Iff.intro
  · intro h
    have hmem {r : Route} (hr : r ∈ routes) : r ∈ table := hperm.mem_iff.mpr hr
    apply (Captures.sublist_or_sublist (hmem browse_mem) (hmem control_mem)
      browse_ne_control).resolve_right
    intro hcontrol
    have hfills : control.Fills ["1".toList, "browse".toList]
        (pathOf "/instance/1/browse".toList) :=
      ((capture_eq_some_iff control_mem (not_mem_newline_pathOf _)).mp
        (by decide : control.capture "GET".toList _ = _)).2
    have htable : select table "GET".toList "/instance/1/browse".toList =
        some (control, ["1".toList, "browse".toList]) := by
      apply select_of_first hperm (hmem control_mem) rfl hfills
      intro other hother hmethod hfound hne
      obtain ⟨found, hfound⟩ := hfound
      rcases eq_of_fills control_mem hother hmethod.symm hfills hfound with heq | hpair | hpair
      · exact absurd heq.symm hne
      · exact absurd hpair.1.symm browse_ne_control
      · rw [hpair.2]
        exact hcontrol
    have hroutes : select routes "GET".toList "/instance/1/browse".toList =
        some (browse, ["1".toList]) := by decide
    have hanswer := h "GET".toList "/instance/1/browse".toList
    rw [dispatch, dispatch, htable, hroutes] at hanswer
    have hcall := (Answer.call.inj hanswer).2.1
    revert hcall
    decide
  · intro hbrowse method requestUri
    have hselect : select table method requestUri = select routes method requestUri := by
      apply Option.ext
      intro found
      exact (select_eq_some_iff hperm hbrowse).trans
        (select_eq_some_iff (List.Perm.refl _) browse_in_front).symm
    rw [dispatch, dispatch, hselect]

theorem order_of_routes_rotated :
    dispatch [] (routes.rotate 7) "POST".toList "/package/3/add".toList =
      dispatch [] routes "POST".toList "/package/3/add".toList :=
  (order_of_routes (List.rotate_perm _ _) []).mpr (by decide) _ _

/-! ## Parameters -/

/-- What `Util::killPid` runs. -/
def killPid (pid : Text) : Text := "taskkill.exe /F /PID ".toList ++ pid

/-- Blanks separate words of a command line. -/
def separates (c : Char) : Bool := c == ' ' || c == '\t'

/-- A call comes from a route. -/
theorem select_of_call {appPath controller action : Text} {params : List Text}
    (h : dispatch appPath routes method requestUri = .call controller action params) :
    ∃ route, select routes method requestUri = some (route, params) ∧
      route.handler = some (controller, action) := by
  rw [dispatch] at h
  cases hselect : select routes method requestUri with
  | none => simp [hselect] at h
  | some found =>
      obtain ⟨route, args⟩ := found
      rw [hselect] at h
      dsimp only at h
      rw [Route.answer] at h
      cases hhandler : route.handler with
      | none => simp [hhandler] at h
      | some handler =>
          rw [hhandler] at h
          obtain ⟨hcontroller, haction, rfl⟩ := Answer.call.inj h
          exact ⟨route, rfl, by rw [hhandler, ← hcontroller, ← haction]⟩

theorem isPlain_of_word {c : Char} (h : Captures.Kind.word.accepts c = true) :
    Cmd.isPlain separates c = true ∧ c ≠ '%' := by
  have hsigns : ∀ d ∈ "\"^&|<>\n\x00 \t%".toList, Captures.Kind.word.accepts d = false := by
    decide
  have hnot : c ∉ "\"^&|<>\n\x00 \t%".toList := by
    intro hmem
    rw [hsigns c hmem] at h
    cases h
  simp only [String.reduceToList, List.mem_cons, List.not_mem_nil, or_false, not_or] at hnot
  simp [Cmd.isPlain, separates, hnot]

/-- But for mails, no parameter has a sign that a command line reads in its own way. -/
theorem params_stay_words {appPath controller action : Text} {params : List Text}
    (h : dispatch appPath routes method requestUri = .call controller action params)
    (hmail : controller ≠ mailController) :
    ∀ w ∈ params, w ≠ [] ∧ ∀ c ∈ w, Captures.Kind.word.accepts c = true := by
  obtain ⟨route, hselect, hhandler⟩ := select_of_call h
  obtain ⟨hroute, -, p, hread, hfilled⟩ := fills_of_select (List.Perm.refl _) hselect
  have hany : .group .any ∉ p := by
    obtain ⟨-, -, q, hq, -, -, hclass⟩ := regular_of_mem hroute
    obtain rfl := Option.some.inj (hread.symm.trans hq)
    simpa [hhandler, hmail] using hclass
  intro w hw
  obtain ⟨hne, kind, hkind, haccepts⟩ := hfilled.args_accepted w hw
  apply And.intro hne
  intro c hc
  cases kind with
  | digit =>
      have := haccepts c hc
      simp only [Captures.Kind.accepts] at this ⊢
      simp [Char.isAlphanum, this]
  | word => exact haccepts c hc
  | any => exact absurd hkind hany

/-- Behind the switches the process is read. -/
theorem read_killPid (pid : Text) :
    Cmd.read separates (killPid pid) =
      ["taskkill.exe".toList, "/F".toList, "/PID".toList].map .word ++
        Cmd.read separates pid := by
  have hswitches : (Cmd.reader separates).advance .fresh "taskkill.exe /F /PID ".toList =
      (["taskkill.exe".toList, "/F".toList, "/PID".toList].map .word, .fresh) := by
    decide
  exact Transducer.run_append_of_advance _ hswitches pid

/-- To end a process runs one command, about the process that the address names. -/
theorem kill_runs_one_command {appPath : Text} {params : List Text}
    (h : dispatch appPath routes method requestUri =
      .call "\\App\\Controllers\\Tools\\ProcessController".toList "kill".toList params)
    (vars : Text → Option Text) :
    ∃ pid, params = [pid] ∧ pathOf requestUri = "/tools/process/".toList ++ pid ∧
      Cmd.commands (Cmd.read separates (Cmd.expand vars (killPid pid))) =
        [⟨["taskkill.exe".toList, "/F".toList, "/PID".toList, pid], []⟩] := by
  obtain ⟨route, hselect, hhandler⟩ := select_of_call h
  obtain ⟨hroute, -, hfills⟩ := fills_of_select (List.Perm.refl _) hselect
  obtain rfl : route = kill := by
    apply (regular_of_mem hroute).2.1
    rw [hhandler]
    decide
  have hread : Captures.read kill.pattern =
      some ("/tools/process/".toList.map .lit ++ [.group .digit]) := by decide
  obtain ⟨pid, rfl, hpath⟩ : ∃ pid, params = [pid] ∧
      pathOf requestUri = "/tools/process/".toList ++ pid := by
    simp only [Route.Fills, hread, Option.some.injEq, exists_eq_left',
      Captures.filled_lits_append, Captures.filled_group, Captures.filled_nil] at hfills
    obtain ⟨u, hu, w, tail, v, rfl, rfl, -, -, rfl, rfl⟩ := hfills
    exact ⟨w, rfl, by rw [hu, List.append_nil]⟩
  have hmail : "\\App\\Controllers\\Tools\\ProcessController".toList ≠ mailController := by
    decide
  obtain ⟨hne, hword⟩ := params_stay_words h hmail pid List.mem_cons_self
  have hplain : ∀ c ∈ pid, Cmd.isPlain separates c = true := fun c hc =>
    (isPlain_of_word (hword c hc)).1
  have hpercent : '%' ∉ pid := by
    intro hmem
    exact (isPlain_of_word (hword '%' hmem)).2 rfl
  have hfront : Cmd.namesVariable "taskkill.exe /F /PID ".toList = false := by decide
  have hline : Cmd.expand vars (killPid pid) = killPid pid :=
    Cmd.expand_of_not_namesVariable vars ((Cmd.namesVariable_append hpercent _).trans hfront)
  have hpid : Cmd.read separates pid = [.word pid] := by
    have hrun := Cmd.run_plain hplain none []
    rw [List.append_nil, if_neg hne] at hrun
    exact hrun
  refine ⟨pid, rfl, hpath, ?_⟩
  rw [hline, read_killPid, hpid, Cmd.commands_words]
  simp only [Cmd.commands, Cmd.Command.word, List.modifyHead_cons, List.cons_append,
    List.nil_append]

theorem kill_runs_one_command_sample : ∃ pid, ["42".toList] = [pid] ∧
    pathOf "/tools/process/42".toList = "/tools/process/".toList ++ pid ∧
      Cmd.commands (Cmd.read separates (Cmd.expand (fun _ => none) (killPid pid))) =
        [⟨["taskkill.exe".toList, "/F".toList, "/PID".toList, pid], []⟩] := by
  have hkill : dispatch [] routes "GET".toList "/tools/process/42".toList =
      .call "\\App\\Controllers\\Tools\\ProcessController".toList "kill".toList
        ["42".toList] := by
    decide
  exact kill_runs_one_command hkill _

end Router

end WampManager
