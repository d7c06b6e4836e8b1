/-
# What a site request does

Each successful request is described once: by the rows it leaves, by its two
edits of the hosts file and by what it does to the disk. The mirrors and the
frame are derived from these descriptions alone.
-/

import WampManager.Site

namespace WampManager

namespace Site

/-! ## Rows -/

/-- What holds of the server of some row with a key holds of the server that is
read under that key. -/
theorem exists_row_iff (condition : Option ℤ → Prop) (hnone : ¬ condition none)
    {db : Database} {id : ℤ} :
    (∃ site, (id, site) ∈ db.sites.rows ∧ condition site.httpdInstanceId) ↔
      condition (getById db id).httpdInstanceId := by
  constructor
  · rintro ⟨site, hrow, hcondition⟩
    rwa [getById, Table.find?_eq_some.mpr hrow]
  · intro h
    unfold getById at h
    cases hfind : db.sites.find? id with
    | none =>
        rw [hfind] at h
        exact absurd h hnone
    | some site =>
        rw [hfind] at h
        exact ⟨site, Table.find?_eq_some.mp hfind, h⟩

theorem aliases_insertAliases (siteId : ℤ) (aliases : List Text) (db : Database) (id : ℤ) :
    aliasesOf (insertAliases siteId aliases db) id =
      if id = siteId then aliasesOf db id ++ aliases else aliasesOf db id := by
  have hfold : ∀ (as : List Text) (table : Table AliasRow),
      (((as.foldl (fun table a => table.insert ⟨siteId, a⟩) table).rows.filter
        fun row => row.2.siteId == id).map fun row => row.2.aliasText) =
      ((table.rows.filter fun row => row.2.siteId == id).map fun row => row.2.aliasText) ++
        (if id = siteId then as else []) := by
    intro as
    induction as with
    | nil => simp
    | cons a as ih =>
        intro table
        rw [List.foldl_cons, ih]
        by_cases hid : id = siteId
        · simp [hid]
        · simp [hid, Ne.symm hid]
  unfold aliasesOf insertAliases
  rw [hfold]
  by_cases hid : id = siteId <;> simp [hid]

/-- The aliases of other sites survive a deletion; those of the site are gone. -/
theorem aliases_delete (siteId : ℤ) (db : Database) (id : ℤ) :
    ((db.aliases.delete fun _ a => a.siteId == siteId).rows.filter
        fun row => row.2.siteId == id).map (fun row => row.2.aliasText) =
      if id = siteId then [] else aliasesOf db id := by
  rw [Table.rows_delete, List.filter_filter, aliasesOf]
  by_cases hid : id = siteId
  · rw [if_pos hid, List.map_eq_nil_iff, List.filter_eq_nil_iff]
    intro row _
    simp [hid]
  · rw [if_neg hid]
    congr 1
    apply List.filter_congr
    intro row _
    by_cases hrow : row.2.siteId = id <;> simp [hrow, hid]

section Update

variable (siteId : ℤ) (row : SiteRow) (aliases : List Text) (db : Database)

theorem getById_updateRows (id : ℤ) (hsite : siteId ∈ db.sites.rows.map Prod.fst) :
    getById (updateRows siteId row aliases db) id =
      if id = siteId then row else getById db id := by
  have hfind : (updateRows siteId row aliases db).sites.find? id =
      (db.sites.find? id).map fun r => if id == siteId then row else r :=
    Table.find?_update _ _ _ _
  rw [getById, hfind, getById]
  by_cases hid : id = siteId
  · subst hid
    cases hold : db.sites.find? id with
    | none => exact absurd hsite (Table.find?_eq_none.mp hold)
    | some r => simp
  · cases db.sites.find? id <;> simp [hid]

theorem aliasesOf_updateRows (id : ℤ) :
    aliasesOf (updateRows siteId row aliases db) id =
      if id = siteId then aliases else aliasesOf db id := by
  rw [updateRows, replaceAliases, aliases_insertAliases]
  have hdelete := aliases_delete siteId db id
  by_cases hid : id = siteId
  · rw [if_pos hid] at hdelete ⊢
    rw [if_pos hid]
    exact (congrArg (· ++ aliases) hdelete).trans (List.nil_append _)
  · rw [if_neg hid] at hdelete ⊢
    rw [if_neg hid]
    exact hdelete

/-- Aliases that are replaced behind a refused row leave the tables of an update that
stores the old row again. -/
theorem replaceAliases_eq :
    replaceAliases siteId aliases db = updateRows siteId (getById db siteId) aliases db := by
  have hsites : db.sites.update (fun id _ => id == siteId) (fun _ => getById db siteId) =
      db.sites := by
    apply Table.update_eq_self
    intro id row hrow hid
    obtain rfl : id = siteId := by simpa using hid
    rw [getById, Table.find?_eq_some.mpr hrow, Option.getD_some]
  rw [updateRows, hsites]

end Update

theorem getById_deleteRows (siteId : ℤ) (db : Database) (id : ℤ) :
    getById (deleteRows siteId db) id = if id = siteId then missing else getById db id := by
  have hfind : (deleteRows siteId db).sites.find? id =
      if id = siteId then none else db.sites.find? id := Table.find?_delete_key _ _ _
  rw [getById, hfind, getById]
  by_cases hid : id = siteId <;> simp [hid]

theorem aliasesOf_deleteRows (siteId : ℤ) (db : Database) (id : ℤ) :
    aliasesOf (deleteRows siteId db) id = if id = siteId then [] else aliasesOf db id :=
  aliases_delete siteId db id

theorem getById_createRows (row : SiteRow) (aliases : List Text) (db : Database) (id : ℤ) :
    getById (createRows row aliases db) id =
      if id = db.sites.nextId then row else getById db id := by
  have hfind : (createRows row aliases db).sites.find? id =
      if id = db.sites.nextId then some row else db.sites.find? id := Table.find?_insert _ _ _
  rw [getById, hfind, getById]
  by_cases hid : id = db.sites.nextId <;> simp [hid]

theorem aliasesOf_createRows (row : SiteRow) (aliases : List Text) (db : Database) (id : ℤ) :
    aliasesOf (createRows row aliases db) id =
      if id = db.sites.nextId then aliasesOf db id ++ aliases else aliasesOf db id :=
  aliases_insertAliases _ _ _ _

/-! ## Outcomes -/

variable {env : Env} {w w' : World} {siteId : ℤ} {name aliases root : Text}
  {httpd php : Option ℤ} {ca : Certificate}

/-- The world after the files of a site were made, if it has a server. -/
def settle (env : Env) (siteId : ℤ) (httpd : Option ℤ) (w : World) : World :=
  if httpd = none then w else make env siteId w

/-- The site had a server and is not going to have the same one. -/
def Leaves (existing : SiteRow) (httpd : Option ℤ) : Prop :=
  existing.httpdInstanceId ≠ none ∧ httpd ≠ existing.httpdInstanceId

instance (existing : SiteRow) (httpd : Option ℤ) : Decidable (Leaves existing httpd) :=
  inferInstanceAs (Decidable (_ ∧ _))

/-- The world after the files of a site were deleted on a server that it leaves. -/
def leave (env : Env) (existing : SiteRow) (httpd : Option ℤ) (w : World) : World :=
  if Leaves existing httpd then w.del (configs env w.db existing) else w

theorem restart_done {instanceId : ℤ} (h : w.restart instanceId = .done w') : w' = w := by
  unfold World.restart at h
  split at h
  · exact (Outcome.done.inj h).symm
  · cases h

theorem publish_done (h : publish env siteId httpd w = .done w') :
    w' = settle env siteId httpd w := by
  cases httpd with
  | none => exact (Outcome.done.inj h).symm
  | some instanceId => exact restart_done h

theorem withdraw_done {existing : SiteRow} (h : withdraw env existing httpd w = .done w') :
    w' = leave env existing httpd w := by
  unfold withdraw at h
  cases hold : existing.httpdInstanceId with
  | none =>
      rw [hold] at h
      have hstays : ¬ Leaves existing httpd := fun hleaves => hleaves.1 hold
      rw [leave, if_neg hstays]
      exact (Outcome.done.inj h).symm
  | some instanceId =>
      rw [hold] at h
      simp only at h
      by_cases hsame : httpd = some instanceId
      · have hstays : ¬ Leaves existing httpd := fun hleaves => hleaves.2 (hsame.trans hold.symm)
        rw [if_pos hsame] at h
        rw [leave, if_neg hstays]
        exact (Outcome.done.inj h).symm
      · have hleaves : Leaves existing httpd := by simp [Leaves, hold, hsame]
        rw [if_neg hsame] at h
        rw [leave, if_pos hleaves]
        exact restart_done h

/-- What a successful creation leaves behind. -/
theorem create_done (h : create env name aliases root httpd php (some ca) w = .done w') :
    name ≠ [] ∧ w' = settle env w.db.sites.nextId httpd
      { makeRoot env name root w with
        db := createRows ⟨name, ca.key, ca.crt, rootOf env name root, httpd, php⟩
          (stringToCleanAliasArray aliases) w.db } := by
  have hdb : (makeRoot env name root w).db = w.db := by
    unfold makeRoot
    split <;> rfl
  unfold create at h
  split at h
  · cases h
  · next hname =>
      have hdone := publish_done h
      simp only [hdb] at hdone
      exact ⟨fun hnil => hname (.inl hnil), hdone⟩

/-- What a successful update leaves behind. -/
theorem update_done (h : update env siteId name aliases root httpd php (some ca) w = .done w') :
    w' = settle env siteId httpd (leave env (getById w.db siteId) httpd
      { (makeRoot env name root w).editHosts
          (Hosts.removeAll env.preg (hostnames w.db siteId)) with
        db := updateRows siteId
          ⟨name, ca.key, ca.crt, Text.rtrimChar '\\' (rootOf env name root), httpd, php⟩
          (stringToCleanAliasArray aliases) w.db }) := by
  have hdb : (makeRoot env name root w).db = w.db := by
    unfold makeRoot
    split <;> rfl
  unfold update at h
  simp only [World.editHosts, hdb] at h
  obtain ⟨v, hv, hpublish⟩ := Outcome.bind_eq_done.mp h
  rw [publish_done hpublish, withdraw_done hv]
  rfl

/-- What a successful deletion leaves behind. -/
theorem delete_done (h : delete env siteId w = .done w') :
    w' = { (w.editHosts (Hosts.removeAll env.preg (hostnames w.db siteId))).del
        (configs env w.db (getById w.db siteId)) with db := deleteRows siteId w.db } := by
  unfold delete at h
  cases hserver : (getById w.db siteId).httpdInstanceId with
  | none =>
      simp only [hserver] at h
      exact (Outcome.done.inj h).symm
  | some instanceId =>
      simp only [hserver] at h
      obtain ⟨v, hv, hfinish⟩ := Outcome.bind_eq_done.mp h
      rw [restart_done hv] at hfinish
      exact (Outcome.done.inj hfinish).symm

/-! ## What making a site writes -/

/-- What the virtual host of a site is made from. -/
def vhostOf (env : Env) (db : Database) (siteId : ℤ) : Vhost :=
  let site := getById db siteId
  let slashed := FilePath.slash (confPath env db site.httpdInstanceId ++ ['/']) '/'
  { name := site.name
    aliases := aliasesOf db siteId
    documentRoot := site.documentRoot
    interface := interfaceOf db site.httpdInstanceId
    httpPort := portOf db site.httpdInstanceId "http".toList
    httpsPort := portOf db site.httpdInstanceId "https".toList
    sslKeyFile := slashed ++ site.name ++ ".key".toList
    sslCrtFile := slashed ++ site.name ++ ".crt".toList }

/-- The path of the virtual host file of a site. -/
def vhostPath (env : Env) (db : Database) (siteId : ℤ) : Text :=
  confPath env db (getById db siteId).httpdInstanceId ++
    '\\' :: (getById db siteId).name ++ ".vhost".toList

/-- The text of the virtual host file of a site. -/
def madeText (env : Env) (db : Database) (siteId : ℤ) : Text :=
  vhostText env db (getById db siteId) (vhostOf env db siteId)

theorem make_eq (env : Env) (siteId : ℤ) (w : World) :
    make env siteId w =
      (((w.editHosts (Hosts.addAll env.preg
          (hostInterface w.db (getById w.db siteId).httpdInstanceId) (hostnames w.db siteId))).put
        (vhostOf env w.db siteId).sslKeyFile (getById w.db siteId).sslKey).put
        (vhostOf env w.db siteId).sslCrtFile (getById w.db siteId).sslCrt).put
        (vhostPath env w.db siteId) (madeText env w.db siteId) := rfl

/-! ## The three parts of the world -/

theorem db_settle (env : Env) (siteId : ℤ) (httpd : Option ℤ) (w : World) :
    (settle env siteId httpd w).db = w.db := by
  unfold settle
  split <;> rfl

theorem db_leave (env : Env) (existing : SiteRow) (httpd : Option ℤ) (w : World) :
    (leave env existing httpd w).db = w.db := by
  unfold leave
  split <;> rfl

theorem hosts_leave (env : Env) (existing : SiteRow) (httpd : Option ℤ) (w : World) :
    (leave env existing httpd w).hosts = w.hosts := by
  unfold leave
  split <;> rfl

theorem hosts_makeRoot (env : Env) (name root : Text) (w : World) :
    (makeRoot env name root w).hosts = w.hosts := by
  unfold makeRoot
  split <;> rfl

/-- The hosts file after a site with a server added its hostnames. -/
def addedHosts (env : Env) (db : Database) (siteId : ℤ) (file : Text) : Text :=
  Hosts.save (Hosts.addAll env.preg (hostInterface db (getById db siteId).httpdInstanceId)
    (hostnames db siteId) (Hosts.load file))

/-- The hosts file after the hostnames of a site were removed. -/
def removedHosts (env : Env) (db : Database) (siteId : ℤ) (file : Text) : Text :=
  Hosts.save (Hosts.removeAll env.preg (hostnames db siteId) (Hosts.load file))

theorem hosts_settle (env : Env) (siteId : ℤ) (httpd : Option ℤ) (w : World) :
    (settle env siteId httpd w).hosts =
      if httpd = none then w.hosts else addedHosts env w.db siteId w.hosts := by
  unfold settle
  split <;> rfl

end Site

end WampManager
