/-
# Configurations of applications

The installs of WordPress, Joomla and Laravel write what was posted into a template, one
`str_replace` for each field. A later field is also searched in what an earlier one has
put in. The result is the template with all fields replaced at once exactly if no value,
with the text around it, makes the text that is searched for a later field.
-/

import WampManager.Lib.Loose
import WampManager.Lib.Translate

namespace WampManager

open Text (strReplace replaceAll translate Markers Undisturbed Clear weight)

/-- What the wizard posted, as far as a configuration reads it. -/
structure AppData where
  dbType : Text
  dbName : Text
  appName : Text
  appEnv : Text
  appDebug : Bool

/-- What `QDB::info` tells of a database server. -/
structure DatabaseInfo where
  type : Text
  interface : Text
  port : Text

/-- `$db_host`. -/
def DatabaseInfo.host (database : DatabaseInfo) : Text :=
  if Loose.textEq database.interface "0.0.0.0".toList then "127.0.0.1".toList
  else database.interface

/-- Does the application get a database? -/
def AppData.hasDatabase (data : AppData) : Bool := !Loose.textEq data.dbType "none".toList

/-! ## The installs -/

namespace Wordpress

/-- The fields of `wp-config-sample.php` in the order of their replacement. -/
def configPairs (data : AppData) (database : DatabaseInfo) : List (Text × Text) :=
  [("database_name_here".toList, data.dbName), ("username_here".toList, "wamp".toList),
    ("password_here".toList, []),
    ("localhost".toList, database.host ++ ':' :: database.port)]

/-- `install`, up to the secrets. -/
def configure (data : AppData) (database : DatabaseInfo) (config : Text) : Text :=
  if data.hasDatabase then
    let config := strReplace "database_name_here".toList data.dbName config
    let config := strReplace "username_here".toList "wamp".toList config
    let config := strReplace "password_here".toList [] config
    strReplace "localhost".toList (database.host ++ ':' :: database.port) config
  else config

end Wordpress

namespace Joomla

/-- An attribute that cannot be edited, and one for the default behind it. -/
def readonlyDefault (value : Text) : Text :=
  "readonly=\"true\"\n\t\t\t\tdefault=\"".toList ++ (value ++ ['"'])

/-- The fields of `database.xml` in the order of their replacement. -/
def formPairs (data : AppData) (database : DatabaseInfo) : List (Text × Text) :=
  [("default=\"localhost\"".toList, readonlyDefault (database.host ++ ':' :: database.port)),
    ("name=\"db_user\"".toList,
      "name=\"db_user\"".toList ++ ("\n\t\t\t\t".toList ++ readonlyDefault "wamp".toList)),
    ("name=\"db_pass\"".toList,
      "name=\"db_pass\"".toList ++ ("\n\t\t\t\t".toList ++ readonlyDefault [])),
    ("name=\"db_name\"".toList,
      "name=\"db_name\"".toList ++ ("\n\t\t\t\t".toList ++ readonlyDefault data.dbName))]

/-- `install`: the form of the installation. -/
def configure (data : AppData) (database : DatabaseInfo) (config : Text) : Text :=
  if data.hasDatabase then
    let config := strReplace "default=\"localhost\"".toList
      (readonlyDefault (database.host ++ ':' :: database.port)) config
    let config := strReplace "name=\"db_user\"".toList
      ("name=\"db_user\"".toList ++ ("\n\t\t\t\t".toList ++ readonlyDefault "wamp".toList)) config
    let config := strReplace "name=\"db_pass\"".toList
      ("name=\"db_pass\"".toList ++ ("\n\t\t\t\t".toList ++ readonlyDefault [])) config
    strReplace "name=\"db_name\"".toList
      ("name=\"db_name\"".toList ++ ("\n\t\t\t\t".toList ++ readonlyDefault data.dbName)) config
  else config

/-- The line of `database.php` that is switched off, and what takes its place. -/
def checkPairs : List (Text × Text) :=
  [("$shouldCheckLocalhost = getenv('JOOMLA_INSTALLATION_DISABLE_LOCALHOST_CHECK') !== '1';".toList,
    "$shouldCheckLocalhost = false;".toList)]

/-- `install`: the model of the installation. -/
def removeLocalhostTest (data : Text) : Text :=
  strReplace
    "$shouldCheckLocalhost = getenv('JOOMLA_INSTALLATION_DISABLE_LOCALHOST_CHECK') !== '1';".toList
    "$shouldCheckLocalhost = false;".toList data

end Joomla

namespace Laravel

/-- What goes into `.env` beside the data: the key that is drawn and the address of the
site. -/
structure AppSite where
  appKey : Text
  appUrl : Text

/-- A value behind its key. -/
def assign (key value : Text) : Text × Text := (key, key ++ value)

/-- The fields of `.env` in the order of their replacement. -/
def envPairs (data : AppData) (database : DatabaseInfo) (site : AppSite) : List (Text × Text) :=
  (if data.hasDatabase then
    [assign "DB_CONNECTION=".toList database.type, assign "DB_HOST=".toList database.host,
      assign "DB_PORT=".toList database.port, assign "DB_DATABASE=".toList data.dbName,
      assign "DB_USERNAME=".toList "wamp".toList]
  else []) ++
    [assign "APP_NAME=".toList data.appName, assign "APP_ENV=".toList data.appEnv,
      assign "APP_DEBUG=".toList (if data.appDebug then "true".toList else "false".toList),
      assign "APP_KEY=".toList site.appKey, assign "APP_URL=".toList site.appUrl]

/-- `install`. -/
def configure (data : AppData) (database : DatabaseInfo) (site : AppSite) (config : Text) : Text :=
  let config :=
    if data.hasDatabase then
      let config := strReplace "DB_CONNECTION=".toList ("DB_CONNECTION=".toList ++ database.type) config
      let config := strReplace "DB_HOST=".toList ("DB_HOST=".toList ++ database.host) config
      let config := strReplace "DB_PORT=".toList ("DB_PORT=".toList ++ database.port) config
      let config := strReplace "DB_DATABASE=".toList ("DB_DATABASE=".toList ++ data.dbName) config
      strReplace "DB_USERNAME=".toList ("DB_USERNAME=".toList ++ "wamp".toList) config
    else config
  let config := strReplace "APP_NAME=".toList ("APP_NAME=".toList ++ data.appName) config
  let config := strReplace "APP_ENV=".toList ("APP_ENV=".toList ++ data.appEnv) config
  let config := strReplace "APP_DEBUG=".toList
    ("APP_DEBUG=".toList ++ if data.appDebug then "true".toList else "false".toList) config
  let config := strReplace "APP_KEY=".toList ("APP_KEY=".toList ++ site.appKey) config
  strReplace "APP_URL=".toList ("APP_URL=".toList ++ site.appUrl) config

end Laravel

/-! ## The passes as one list -/

theorem Wordpress.configure_eq (data : AppData) (database : DatabaseInfo) (config : Text) :
    Wordpress.configure data database config =
      replaceAll (if data.hasDatabase then Wordpress.configPairs data database else []) config := by
  unfold Wordpress.configure
  split <;> rfl

theorem Joomla.configure_eq (data : AppData) (database : DatabaseInfo) (config : Text) :
    Joomla.configure data database config =
      replaceAll (if data.hasDatabase then Joomla.formPairs data database else []) config := by
  unfold Joomla.configure
  split <;> rfl

theorem Laravel.configure_eq (data : AppData) (database : DatabaseInfo) (site : Laravel.AppSite)
    (config : Text) :
    Laravel.configure data database site config =
      replaceAll (Laravel.envPairs data database site) config := by
  unfold Laravel.configure Laravel.envPairs
  cases data.hasDatabase <;> rfl

/-! ## The searched texts do not overlap -/

/-- Only the searched texts matter for that. -/
theorem markers_of_keys (keys : List Text) (hne : ∀ k ∈ keys, k ≠ [])
    (hclear : ∀ k ∈ keys, ∀ l ∈ keys, Clear k l) (hnodup : keys.Nodup)
    {pairs : List (Text × Text)} (h : (pairs.map Prod.fst).Sublist keys) : Markers pairs where
  nonempty := fun _ hp => hne _ (h.subset (List.mem_map_of_mem hp))
  clear := fun _ hp _ hq =>
    hclear _ (h.subset (List.mem_map_of_mem hp)) _ (h.subset (List.mem_map_of_mem hq))
  nodup := hnodup.sublist h

theorem Wordpress.markers (data : AppData) (database : DatabaseInfo) :
    Markers (Wordpress.configPairs data database) :=
  markers_of_keys (["database_name_here", "username_here", "password_here",
    "localhost"].map String.toList) (by decide +kernel) (by decide +kernel) (by decide +kernel)
    (List.Sublist.refl _)

theorem Joomla.markers (data : AppData) (database : DatabaseInfo) :
    Markers (Joomla.formPairs data database) :=
  markers_of_keys (["default=\"localhost\"", "name=\"db_user\"", "name=\"db_pass\"",
    "name=\"db_name\""].map String.toList) (by decide +kernel) (by decide +kernel)
    (by decide +kernel) (List.Sublist.refl _)

theorem Joomla.markers_check : Markers Joomla.checkPairs :=
  markers_of_keys (Joomla.checkPairs.map Prod.fst) (by decide +kernel) (by decide +kernel)
    (by decide +kernel) (List.Sublist.refl _)

theorem Laravel.markers (data : AppData) (database : DatabaseInfo) (site : Laravel.AppSite) :
    Markers (Laravel.envPairs data database site) := by
  refine markers_of_keys (["DB_CONNECTION=", "DB_HOST=", "DB_PORT=", "DB_DATABASE=",
    "DB_USERNAME=", "APP_NAME=", "APP_ENV=", "APP_DEBUG=", "APP_KEY=", "APP_URL="].map
    String.toList) (by decide +kernel) (by decide +kernel) (by decide +kernel) ?_
  unfold Laravel.envPairs
  cases data.hasDatabase with
  | true => exact List.Sublist.refl _
  | false => exact List.sublist_append_right (["DB_CONNECTION=", "DB_HOST=", "DB_PORT=",
      "DB_DATABASE=", "DB_USERNAME="].map String.toList) _

/-! ## What the replacements gain -/

theorem weight_one (t : Text) : weight (fun _ => 1) t = t.length := by
  induction t with
  | nil => rfl
  | cons c t ih =>
      rw [weight, List.map_cons, List.sum_cons]
      rw [weight] at ih
      rw [ih, List.length_cons]
      push_cast
      ring

/-- A colon is worth more than the underscores of a text, and an underscore costs one. -/
def colonWeight (host : Text) (c : Char) : ℤ :=
  if c = ':' then host.count '_' + 1 else if c = '_' then -1 else 0

theorem weight_cons (w : Char → ℤ) (c : Char) (t : Text) :
    weight w (c :: t) = w c + weight w t := by
  rw [weight, List.map_cons, List.sum_cons]
  rfl

theorem neg_count_le_colonWeight (host t : Text) :
    -(t.count '_' : ℤ) ≤ weight (colonWeight host) t := by
  induction t with
  | nil => exact le_refl _
  | cons c t ih =>
      rw [weight_cons, List.count_cons, colonWeight]
      by_cases hcolon : c = ':'
      · subst hcolon
        simp only [if_true]
        push_cast
        omega
      · by_cases hunder : c = '_'
        · subst hunder
          simp only [beq_self_eq_true, if_true, if_neg hcolon]
          push_cast
          omega
        · rw [if_neg hcolon, if_neg hunder, if_neg (by simpa using hunder)]
          omega

theorem colonWeight_of_not_mem {host t : Text} (h : ':' ∉ t) :
    weight (colonWeight host) t = -(t.count '_' : ℤ) := by
  induction t with
  | nil => rfl
  | cons c t ih =>
      rw [List.mem_cons, not_or] at h
      rw [weight_cons, List.count_cons, colonWeight, if_neg (Ne.symm h.1), ih h.2]
      by_cases hunder : c = '_'
      · subst hunder
        simp only [beq_self_eq_true, if_true]
        push_cast
        ring
      · rw [if_neg hunder, if_neg (by simpa using hunder)]
        simp

theorem Wordpress.gains (data : AppData) (database : DatabaseInfo) :
    ∀ p ∈ (Wordpress.configPairs data database).tail, p.2 = p.1 ∨
      weight (colonWeight (database.host ++ database.port)) p.1 <
        weight (colonWeight (database.host ++ database.port)) p.2 := by
  set host := database.host ++ database.port
  have hsearched : ∀ t ∈ ["username_here", "password_here"].map String.toList,
      weight (colonWeight host) t = -1 := by
    intro t ht
    have hshape : ':' ∉ t ∧ t.count '_' = 1 := by
      revert t
      decide +kernel
    rw [colonWeight_of_not_mem hshape.1, hshape.2]
    rfl
  have hnone : ∀ t ∈ ["wamp", "", "localhost"].map String.toList,
      weight (colonWeight host) t = 0 := by
    intro t ht
    have hshape : ':' ∉ t ∧ t.count '_' = 0 := by
      revert t
      decide +kernel
    rw [colonWeight_of_not_mem hshape.1, hshape.2]
    rfl
  have hlast : 0 < weight (colonWeight host) (database.host ++ ':' :: database.port) := by
    have hsplit : weight (colonWeight host) (database.host ++ ':' :: database.port) =
        weight (colonWeight host) host + (host.count '_' + 1) := by
      rw [Text.weight_append, weight_cons, Text.weight_append]
      change _ + (((host.count '_' : ℕ) : ℤ) + 1 + _) = _
      ring
    have hle := neg_count_le_colonWeight host host
    omega
  intro p hp
  right
  simp only [configPairs, List.tail_cons, List.mem_cons, List.not_mem_nil, or_false] at hp
  rcases hp with rfl | rfl | rfl
  · rw [hsearched _ (by decide +kernel), hnone _ (by decide +kernel)]
    decide
  · rw [hsearched _ (by decide +kernel), hnone [] (by decide +kernel)]
    decide
  · rw [hnone "localhost".toList (by decide +kernel)]
    exact hlast

/-- A text that is replaced by itself and something behind it gains length. -/
theorem gains_append (m x : Text) :
    m ++ x = m ∨ weight (fun _ => 1) m < weight (fun _ => 1) (m ++ x) := by
  rw [weight_one, weight_one, List.length_append]
  cases x with
  | nil => exact .inl (List.append_nil m)
  | cons c x =>
      right
      rw [List.length_cons]
      omega

theorem Joomla.gains (data : AppData) (database : DatabaseInfo) :
    ∀ p ∈ (Joomla.formPairs data database).tail, p.2 = p.1 ∨
      weight (fun _ => 1) p.1 < weight (fun _ => 1) p.2 := by
  intro p hp
  simp only [formPairs, List.tail_cons, List.mem_cons, List.not_mem_nil, or_false] at hp
  rcases hp with rfl | rfl | rfl <;> exact gains_append _ _

theorem Laravel.gains (data : AppData) (database : DatabaseInfo) (site : Laravel.AppSite) :
    ∀ p ∈ (Laravel.envPairs data database site).tail, p.2 = p.1 ∨
      weight (fun _ => 1) p.1 < weight (fun _ => 1) p.2 := by
  intro p hp
  obtain ⟨key, value, rfl⟩ : ∃ key value, p = assign key value := by
    have hmem := List.mem_of_mem_tail hp
    rw [envPairs, List.mem_append] at hmem
    rcases hmem with hmem | hmem
    · split at hmem
      · simp only [List.mem_cons, List.not_mem_nil, or_false] at hmem
        rcases hmem with rfl | rfl | rfl | rfl | rfl <;> exact ⟨_, _, rfl⟩
      · cases hmem
    · simp only [List.mem_cons, List.not_mem_nil, or_false] at hmem
      rcases hmem with rfl | rfl | rfl | rfl | rfl <;> exact ⟨_, _, rfl⟩
  exact gains_append key value

/-! ## When the values stand unaltered -/

theorem markers_ite {b : Bool} {pairs : List (Text × Text)} (h : Markers pairs) :
    Markers (if b then pairs else []) := by
  cases b with
  | true => exact h
  | false => exact ⟨fun _ hp => absurd hp List.not_mem_nil, fun _ hp => absurd hp List.not_mem_nil,
      List.nodup_nil⟩

/-- Each configuration is its template with all fields replaced at once exactly if no value
makes, with what is around it, the text that is searched for a later field. -/
theorem config_values_unaltered (data : AppData) (database : DatabaseInfo)
    (site : Laravel.AppSite) :
    (∀ sample,
      let pairs := if data.hasDatabase then Wordpress.configPairs data database else []
      Wordpress.configure data database sample = translate pairs sample ↔
        Undisturbed pairs sample) ∧
    (∀ form,
      let pairs := if data.hasDatabase then Joomla.formPairs data database else []
      Joomla.configure data database form = translate pairs form ↔ Undisturbed pairs form) ∧
    (∀ model, Joomla.removeLocalhostTest model = translate Joomla.checkPairs model) ∧
    ∀ env,
      let pairs := Laravel.envPairs data database site
      Laravel.configure data database site env = translate pairs env ↔ Undisturbed pairs env := by
  refine ⟨fun sample => ?_, fun form => ?_, fun model => ?_, fun env => ?_⟩
  · intro pairs
    rw [Wordpress.configure_eq]
    refine (markers_ite (Wordpress.markers data database)).replaceAll_eq_translate_iff
      (colonWeight (database.host ++ database.port)) ?_ sample
    cases data.hasDatabase with
    | true => exact Wordpress.gains data database
    | false => exact fun _ hp => absurd hp List.not_mem_nil
  · intro pairs
    rw [Joomla.configure_eq]
    refine (markers_ite (Joomla.markers data database)).replaceAll_eq_translate_iff
      (fun _ => 1) ?_ form
    cases data.hasDatabase with
    | true => exact Joomla.gains data database
    | false => exact fun _ hp => absurd hp List.not_mem_nil
  · refine Joomla.markers_check.replaceAll_eq_translate fun front p back hsplit => .inr ?_
    obtain rfl : front = [] := by
      cases front with
      | nil => rfl
      | cons q front =>
          have hlength := congrArg List.length hsplit
          simp [Joomla.checkPairs] at hlength
    rw [Text.translate_nil_pairs]
  · intro pairs
    rw [Laravel.configure_eq]
    exact (Laravel.markers data database site).replaceAll_eq_translate_iff (fun _ => 1)
      (Laravel.gains data database site) env

/-- A database with the name of the placeholder for the host. -/
theorem database_localhost_rewritten :
    ¬ ∀ (data : AppData) (database : DatabaseInfo) (sample : Text),
      Wordpress.configure data database sample =
        translate (if data.hasDatabase then Wordpress.configPairs data database else [])
          sample := by
  intro h
  have hname := h ⟨"new".toList, "localhost".toList, [], [], false⟩
    ⟨"mysql".toList, "0.0.0.0".toList, "3306".toList⟩
    "define( 'DB_NAME', 'database_name_here' );".toList
  exact absurd hname (by decide +kernel)

end WampManager
