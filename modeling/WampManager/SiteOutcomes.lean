/-
# Site requests however they end

A site request that cannot restart a web server ends there, with all that it
wrote so far left in place. Each request is described by the world it leaves in
either case, and by when it ends early.
-/

import WampManager.SiteSteps

namespace WampManager

namespace Site

variable {env : Env} {w : World} {siteId : ℤ} {name aliases root : Text}
  {httpd php : Option ℤ} {ca : Option Certificate}

/-- The server with this key can be restarted; no server needs no restart. -/
def Restartable (db : Database) (httpd : Option ℤ) : Prop :=
  ∀ instanceId ∈ httpd, Instance.canRestart db instanceId = true

instance (db : Database) (httpd : Option ℤ) : Decidable (Restartable db httpd) :=
  inferInstanceAs (Decidable (∀ instanceId ∈ httpd, _))

/-- Whether a server can be restarted depends on the instance, package and
vendor tables only. -/
theorem canRestart_congr {db db' : Database} (hinstances : db'.instances = db.instances)
    (hpackages : db'.packages = db.packages) (hvendors : db'.vendors = db.vendors)
    (instanceId : ℤ) : Instance.canRestart db' instanceId = Instance.canRestart db instanceId := by
  have hgetById : ∀ id, Package.getById db' id = Package.getById db id := by
    intro id
    unfold Package.getById Package.vendorOf
    rw [hpackages, hvendors]
  unfold Instance.canRestart Package.getByInstanceId
  simp only [hinstances, hgetById]

/-- Publishing ends the request if the new server cannot be restarted. -/
theorem publish_eq :
    publish env siteId httpd w =
      if Restartable w.db httpd then .done (settle env siteId httpd w)
      else .aborted (settle env siteId httpd w) := by
  cases httpd with
  | none => rfl
  | some instanceId =>
      have hdb : (make env siteId w).db = w.db := rfl
      have hsettle : settle env siteId (some instanceId) w = make env siteId w := rfl
      simp only [publish]
      rw [World.restart, hdb, hsettle]
      by_cases hcan : Instance.canRestart w.db instanceId <;> simp [hcan, Restartable]

theorem world_publish : (publish env siteId httpd w).world = settle env siteId httpd w := by
  rw [publish_eq]
  split <;> rfl

/-- Leaving a server ends the request if that server cannot be restarted. -/
theorem withdraw_eq {existing : SiteRow} :
    withdraw env existing httpd w =
      if Leaves existing httpd ∧ ¬ Restartable w.db existing.httpdInstanceId then
        .aborted (leave env existing httpd w)
      else .done (leave env existing httpd w) := by
  unfold withdraw leave
  cases hold : existing.httpdInstanceId with
  | none => simp [Leaves, hold]
  | some instanceId =>
      by_cases hsame : httpd = some instanceId
      · simp [Leaves, hold, hsame]
      · have hleaves : Leaves existing httpd := ⟨by simp [hold], by rwa [hold]⟩
        have hdb : (w.del (configs env w.db existing)).db = w.db := rfl
        simp only
        rw [if_neg hsame, if_pos hleaves, World.restart, hdb]
        by_cases hcan : Instance.canRestart w.db instanceId <;>
          simp [hcan, hleaves, Restartable]

/-! ## The world a request leaves -/

/-- The key that a creation goes on with: that of the new row, or 0. -/
def createdId (ca : Option Certificate) (db : Database) : ℤ :=
  if ca = none then 0 else db.sites.nextId

/-- The tables that a creation leaves; without a key the site row is missing. -/
def createdTables (env : Env) (name aliases root : Text) (httpd php : Option ℤ)
    (ca : Option Certificate) (db : Database) : Database :=
  match ca with
  | some ca => createRows ⟨name, ca.key, ca.crt, rootOf env name root, httpd, php⟩
      (stringToCleanAliasArray aliases) db
  | none => insertAliases 0 (stringToCleanAliasArray aliases) db

/-- The world in which the files of a new site are made. -/
def createdRows (env : Env) (name aliases root : Text) (httpd php : Option ℤ)
    (ca : Option Certificate) (w : World) : World :=
  { makeRoot env name root w with
    db := createdTables env name aliases root httpd php ca w.db }

/-- The row that an update leaves; without a key it is the old one. -/
def updatedRow (env : Env) (siteId : ℤ) (name root : Text) (httpd php : Option ℤ)
    (ca : Option Certificate) (db : Database) : SiteRow :=
  match ca with
  | some ca =>
      ⟨name, ca.key, ca.crt, Text.rtrimChar '\\' (rootOf env name root), httpd, php⟩
  | none => getById db siteId

/-- The world in which an updated site leaves its server. -/
def updatedRows (env : Env) (siteId : ℤ) (name aliases root : Text)
    (httpd php : Option ℤ) (ca : Option Certificate) (w : World) : World :=
  { (makeRoot env name root w).editHosts
      (Hosts.removeAll env.preg (hostnames w.db siteId)) with
    db := updateRows siteId (updatedRow env siteId name root httpd php ca w.db)
      (stringToCleanAliasArray aliases) w.db }

/-- The world in which the rows of a site are to be deleted. -/
def clearedFiles (env : Env) (siteId : ℤ) (w : World) : World :=
  (w.editHosts (Hosts.removeAll env.preg (hostnames w.db siteId))).del
    (configs env w.db (getById w.db siteId))

theorem db_makeRoot : (makeRoot env name root w).db = w.db := by
  unfold makeRoot
  split <;> rfl

theorem world_create :
    (create env name aliases root httpd php ca w).world =
      if name = [] ∨ name = ['0'] then w
      else settle env (createdId ca w.db) httpd
        (createdRows env name aliases root httpd php ca w) := by
  unfold create
  split
  · rfl
  · cases ca with
    | none =>
        simp only [db_makeRoot, world_publish]
        rfl
    | some ca =>
        simp only [db_makeRoot, world_publish]
        rfl

/-- An update ends early if the site leaves a server that cannot be restarted. -/
theorem update_eq :
    update env siteId name aliases root httpd php ca w =
      if Leaves (getById w.db siteId) httpd ∧
          ¬ Restartable w.db (getById w.db siteId).httpdInstanceId then
        .aborted (leave env (getById w.db siteId) httpd
          (updatedRows env siteId name aliases root httpd php ca w))
      else publish env siteId httpd (leave env (getById w.db siteId) httpd
        (updatedRows env siteId name aliases root httpd php ca w)) := by
  have hbind : update env siteId name aliases root httpd php ca w =
      (withdraw env (getById w.db siteId) httpd
        (updatedRows env siteId name aliases root httpd php ca w)).bind
          (publish env siteId httpd) := by
    unfold update
    simp only [World.editHosts, db_makeRoot]
    cases ca with
    | none =>
        rw [replaceAliases_eq]
        rfl
    | some ca => rfl
  have hrestart : Restartable (updatedRows env siteId name aliases root httpd php ca w).db
      (getById w.db siteId).httpdInstanceId ↔
      Restartable w.db (getById w.db siteId).httpdInstanceId := by
    unfold Restartable
    refine forall_congr' fun i => imp_congr_right fun _ => ?_
    have hsame : Instance.canRestart
        (updatedRows env siteId name aliases root httpd php ca w).db i =
          Instance.canRestart w.db i := canRestart_congr rfl rfl rfl i
    rw [hsame]
  rw [hbind, withdraw_eq]
  simp only [hrestart]
  by_cases hearly : Leaves (getById w.db siteId) httpd ∧
      ¬ Restartable w.db (getById w.db siteId).httpdInstanceId
  · rw [if_pos hearly, if_pos hearly]
    rfl
  · rw [if_neg hearly, if_neg hearly]
    rfl

theorem world_update :
    (update env siteId name aliases root httpd php ca w).world =
      if Leaves (getById w.db siteId) httpd ∧
          ¬ Restartable w.db (getById w.db siteId).httpdInstanceId then
        leave env (getById w.db siteId) httpd
          (updatedRows env siteId name aliases root httpd php ca w)
      else settle env siteId httpd (leave env (getById w.db siteId) httpd
        (updatedRows env siteId name aliases root httpd php ca w)) := by
  rw [update_eq]
  split
  · rfl
  · exact world_publish

/-- A deletion ends before the rows go if the server of the site cannot be
restarted. -/
theorem delete_eq :
    delete env siteId w =
      if Restartable w.db (getById w.db siteId).httpdInstanceId then
        .done { clearedFiles env siteId w with db := deleteRows siteId w.db }
      else .aborted (clearedFiles env siteId w) := by
  unfold delete
  cases hserver : (getById w.db siteId).httpdInstanceId with
  | none =>
      rw [if_pos (by simp [Restartable])]
      simp only [hserver]
      rfl
  | some instanceId =>
      simp only [hserver, World.restart, Restartable, World.editHosts, World.del]
      by_cases hcan : Instance.canRestart w.db instanceId <;>
        simp [hcan, Outcome.bind, clearedFiles, World.editHosts, World.del]

theorem world_delete :
    (delete env siteId w).world =
      if Restartable w.db (getById w.db siteId).httpdInstanceId then
        { clearedFiles env siteId w with db := deleteRows siteId w.db }
      else clearedFiles env siteId w := by
  rw [delete_eq]
  split <;> rfl

/-! ## The tables a request leaves -/

theorem db_create :
    (create env name aliases root httpd php ca w).world.db =
      if name = [] ∨ name = ['0'] then w.db
      else createdTables env name aliases root httpd php ca w.db := by
  rw [world_create]
  split
  · rfl
  · rw [db_settle]
    rfl

/-- The rows are updated however the request ends. -/
theorem db_update :
    (update env siteId name aliases root httpd php ca w).world.db =
      updateRows siteId (updatedRow env siteId name root httpd php ca w.db)
        (stringToCleanAliasArray aliases) w.db := by
  rw [world_update]
  split
  · rw [db_leave]
    rfl
  · rw [db_settle, db_leave]
    rfl

/-- A refused update replaces the aliases and nothing else. -/
theorem db_update_refused :
    (update env siteId name aliases root httpd php none w).world.db =
      replaceAliases siteId (stringToCleanAliasArray aliases) w.db := by
  rw [db_update, updatedRow, ← replaceAliases_eq]

theorem db_delete :
    (delete env siteId w).world.db =
      if Restartable w.db (getById w.db siteId).httpdInstanceId then deleteRows siteId w.db
      else w.db := by
  rw [world_delete]
  split <;> rfl

end Site

end WampManager
