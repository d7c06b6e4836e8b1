/-
# Addresses that can be connected to

An instance that listens on all interfaces is registered with an address that no
client can connect to. Wherever the manager connects to an instance or writes its
address down, it puts the loopback address in its place, except in the virtual host
of an Nginx site, which passes the address of its PHP version on as it is registered.
-/

import WampManager.Connections
import WampManager.SiteReferences

namespace WampManager

namespace Addresses

open Util (anyInterface)
open Site (line httpdType vhostText)
open Instance (Sound)

/-! ## Requests -/

/-- The requests that post forms, write sites or install and uninstall. -/
inductive Request
  | verify (found : VerifyFound) (packageId : ℤ) (form : PostedForm)
  | references (request : SiteReferences.Request)

/-- A request, however it ends. -/
def Step (env : Env) (sqlite : Sqlite) (m : Machine) : Request → Machine → Prop
  | .verify found packageId form, m' =>
      m' = (Instance.packageVerify sqlite found packageId form m).state
  | .references request, m' => SiteReferences.Step env sqlite m request m'

/-- Nothing is installed. -/
structure NoInstances (db : Database) : Prop where
  instances : db.instances.rows = []
  endpoints : db.endpoints.rows = []

/-! ## What should hold, and when it does -/

/-- An instance is registered with an interface. -/
def RegisteredWith (db : Database) (instanceId : ℤ) (interface : Text) : Prop :=
  ∃ key row, (key, row) ∈ db.endpoints.rows ∧ row.instanceId = instanceId ∧
    row.interface = .text interface

/-- The lines of an Nginx host that pass on to PHP at an address. -/
def nginxWrapperAt (address port : Text) : Text :=
  line 1 "location /".toList ++ line 1 ['\x7b'] ++
    line 2 "try_files $uri $uri/ /index.php?$args;".toList ++ line 1 ['\x7d'] ++
    line 1 "location ~ \\.php$".toList ++ line 1 ['\x7b'] ++
    line 2 ("fastcgi_pass ".toList ++ address ++ ':' :: port ++ [';']) ++
    line 2 "fastcgi_index index.php;".toList ++
    line 2 "fastcgi_param SCRIPT_FILENAME  $document_root$fastcgi_script_name;".toList ++
    line 2 "include fastcgi_params;".toList ++ line 1 ['\x7d']

/-- The port of the first endpoint of an instance. -/
def portOf (db : Database) (instanceId : ℤ) : SqlValue :=
  ((Site.endpoint db (some instanceId)).map EndpointRow.port).getD .null

/-- The options for a database server at an address. -/
def optionsAt (db : Database) (instanceId : ℤ) (address : Text) : QDB.Options :=
  { QDB.optionsOf (QDB.info db instanceId) with host := .text address }

/-- Every use of a database server takes one address. -/
structure DatabaseAt (db : Database) (instanceId : ℤ) (address : Text) : Prop where
  databaseExists : ∀ answer dbName, QDB.databaseExists answer db instanceId dbName =
    QDB.existsOver answer (QDB.connect (optionsAt db instanceId address))
      (QDB.showDatabases (QDB.info db instanceId)) dbName
  createDatabase : ∀ dbName, (QDB.createDatabase db instanceId dbName).1 =
    QDB.connect (optionsAt db instanceId address)
  wordpress : ∀ form : Instance.AppForm, form.databaseId = instanceId →
    form.dbType ≠ "none".toList → ∀ phrases sample,
      Instance.wordpressConfig db form phrases sample =
        phrases (Instance.wordpressWith address (Instance.databasePort db form) form.dbName
          sample)
  drupal : ∀ form : Instance.AppForm, form.databaseId = instanceId →
    form.dbType ≠ "none".toList → Instance.drupalSettings db form =
      some (Instance.drupalWith address (Instance.databasePort db form)
        (Instance.databaseType db form) form.dbName)
  joomla : ∀ form : Instance.AppForm, form.databaseId = instanceId →
    form.dbType ≠ "none".toList → ∀ sample, Instance.joomlaForm db form sample =
      Instance.joomlaWith address (Instance.databasePort db form) form.dbName sample
  laravel : ∀ form : Instance.AppForm, form.databaseId = instanceId →
    form.dbType ≠ "none".toList → ∀ appKey appUrl sample,
      Instance.laravelEnv db form appKey appUrl sample =
        Instance.laravelApp form appKey appUrl (Instance.laravelWith address
          (Instance.databasePort db form) (Instance.databaseType db form) form.dbName sample)

/-- Every use of an instance takes one address. -/
structure UsedAt (db : Database) (instanceId : ℤ) (interface address : Text) : Prop where
  /-- The hosts lines of its sites. -/
  hosts : Site.hostInterface db (some instanceId) = address
  /-- The virtual hosts that pass on to it. -/
  fastcgi : ∀ siteId site, (siteId, site) ∈ db.sites.rows → site.httpdInstanceId ≠ none →
    httpdType db site.httpdInstanceId ≠ "apache".toList →
      site.phpInstanceId = some instanceId → ∀ env v, vhostText env db site v =
        v.nginx (nginxWrapperAt address (portOf db instanceId).toText)
  /-- The uses of a database server. -/
  database : QDB.info db instanceId ≠ none → DatabaseAt db instanceId address
  /-- The command that shuts it down. -/
  mysqladmin : ∀ vars, Instance.shutdownCommand db instanceId vars =
    Instance.mysqladmin vars.path (.text address) (portOf db instanceId)
  /-- The connections of the install of PostgreSQL. -/
  postgresql : ∀ tcpPort, Instance.postgresqlConnection (.text interface) tcpPort =
    QDB.connect ⟨.text "pgsql".toList, .text address, tcpPort, .null, .null, .null⟩

/-- Every instance is used at an address that can be connected to. -/
def AllConnectable (db : Database) : Prop :=
  ∀ instanceId interface, RegisteredWith db instanceId interface →
    UsedAt db instanceId interface (connectable interface)

/-- No Nginx site uses a PHP version that listens on all interfaces. -/
def NoPhpOnAll (db : Database) : Prop :=
  ∀ instanceId, RegisteredWith db instanceId anyInterface →
    ∀ siteId site, (siteId, site) ∈ db.sites.rows → site.httpdInstanceId ≠ none →
      httpdType db site.httpdInstanceId ≠ "apache".toList → site.phpInstanceId ≠ some instanceId

/-! ## One interface for each instance -/

/-- The endpoints of an instance share their interface. -/
def OneInterface (db : Database) : Prop :=
  ∀ key row key' row', (key, row) ∈ db.endpoints.rows → (key', row') ∈ db.endpoints.rows →
    row.instanceId = row'.instanceId → row.interface = row'.interface

section

variable {db : Database} {instanceId : ℤ} {interface : Text}

/-- Any endpoint of an instance has the interface it is registered with. -/
theorem interface_of_registeredWith (hone : OneInterface db)
    (h : RegisteredWith db instanceId interface) {key : ℤ} {row : EndpointRow}
    (hrow : (key, row) ∈ db.endpoints.rows) (hid : row.instanceId = instanceId) :
    row.interface = .text interface := by
  obtain ⟨key', row', hrow', hid', hinterface⟩ := h
  rw [← hinterface]
  exact hone key row key' row' hrow hrow' (hid.trans hid'.symm)

theorem endpoint_of_registeredWith (hone : OneInterface db)
    (h : RegisteredWith db instanceId interface) :
    ∃ row, Site.endpoint db (some instanceId) = some row ∧ row.interface = .text interface := by
  obtain ⟨key, row, hrow, hid, -⟩ := id h
  have hsome : (db.endpoints.rows.find? fun row =>
      some row.2.instanceId == some instanceId).isSome := by
    rw [List.find?_isSome]
    exact ⟨(key, row), hrow, by simp [hid]⟩
  obtain ⟨found, hfound⟩ := Option.isSome_iff_exists.mp hsome
  have hmem := List.mem_of_find?_eq_some hfound
  have hfoundId : found.2.instanceId = instanceId := by
    simpa using List.find?_some hfound
  refine ⟨found.2, by rw [Site.endpoint, hfound]; rfl, ?_⟩
  exact interface_of_registeredWith hone h hmem hfoundId

/-- Loose equality with the address of all interfaces is equality. -/
theorem looseEq_anyInterface (t : Text) :
    Loose.looseEq (.text t) (.text anyInterface) = (t == anyInterface) := by
  have hnone : Loose.number? anyInterface = none := by decide
  show Loose.textEq t anyInterface = _
  unfold Loose.textEq
  rw [hnone]
  cases Loose.number? t <;> rfl

/-- The address that a client takes. -/
theorem ite_looseEq_anyInterface (interface : Text) :
    (if Loose.looseEq (SqlValue.text interface).toScalar (.text anyInterface) then
      SqlValue.text loopback else .text interface) = .text (connectable interface) := by
  have heq := looseEq_anyInterface interface
  change Loose.looseEq (SqlValue.text interface).toScalar (.text anyInterface) = _ at heq
  rw [heq, connectable]
  by_cases hany : interface = anyInterface
  · simp [hany]
  · simp [hany]

theorem hostOf_info (hone : OneInterface db) (h : RegisteredWith db instanceId interface)
    (hinfo : QDB.info db instanceId ≠ none) :
    QDB.hostOf (QDB.info db instanceId) = .text (connectable interface) := by
  obtain ⟨row, hrow⟩ := Option.ne_none_iff_exists'.mp hinfo
  have hinterface : row.interface = .text interface := by
    have hfind := hrow
    rw [QDB.info] at hfind
    split at hfind
    · obtain ⟨entry, hentry, rfl⟩ := Option.map_eq_some_iff.mp hfind
      have hid : entry.2.instanceId = instanceId := by
        have hboth := List.find?_some hentry
        simp only [Bool.and_eq_true, beq_iff_eq] at hboth
        exact hboth.2
      exact interface_of_registeredWith hone h (List.mem_of_find?_eq_some hentry) hid
    · cases hfind
  rw [hrow, QDB.hostOf]
  show (if Loose.looseEq row.interface.toScalar (.text anyInterface) then
    SqlValue.text loopback else row.interface) = _
  rw [hinterface]
  exact ite_looseEq_anyInterface interface

/-- Every use of a database server takes the address of a client. -/
theorem databaseAt_connectable (hone : OneInterface db)
    (h : RegisteredWith db instanceId interface) (hinfo : QDB.info db instanceId ≠ none) :
    DatabaseAt db instanceId (connectable interface) := by
  have hhost := hostOf_info hone h hinfo
  have hoptions : QDB.optionsOf (QDB.info db instanceId) =
      optionsAt db instanceId (connectable interface) := by
    rw [optionsAt, ← hhost]
    rfl
  constructor
  · intro answer dbName
    rw [QDB.databaseExists, hoptions]
  · intro dbName
    rw [QDB.createDatabase, hoptions]
  · intro form hform htype phrases sample
    rw [Instance.wordpressConfig, if_neg htype, hform, hhost]
    rfl
  · intro form hform htype
    rw [Instance.drupalSettings, if_neg htype, hform, hhost]
    rfl
  · intro form hform htype sample
    rw [Instance.joomlaForm, if_neg htype, hform, hhost]
    rfl
  · intro form hform htype appKey appUrl sample
    rw [Instance.laravelEnv, Instance.laravelDatabase, if_neg htype, hform, hhost]
    rfl

/-! ## The virtual hosts -/

/-- The address in the text of an Nginx site is the one that is registered. -/
theorem vhostText_nginx {env : Env} {site : SiteRow} {v : Site.Vhost}
    (hserver : httpdType db site.httpdInstanceId ≠ "apache".toList)
    (hphp : site.phpInstanceId = some instanceId) :
    vhostText env db site v = v.nginx (nginxWrapperAt
      (Site.interfaceOf db (some instanceId)) (portOf db instanceId).toText) := by
  have hport : ((Site.endpoint db (some instanceId)).map fun row => row.port.toText).getD [] =
      (portOf db instanceId).toText := by
    unfold portOf
    cases Site.endpoint db (some instanceId) <;> rfl
  rw [vhostText, if_neg hserver, hphp, nginxWrapperAt, ← hport]
  rfl

/-- Addresses of different lengths make different texts. -/
theorem nginx_wrapperAt_ne (v : Site.Vhost) {address address' : Text} (port : Text)
    (h : address.length ≠ address'.length) :
    v.nginx (nginxWrapperAt address port) ≠ v.nginx (nginxWrapperAt address' port) := by
  intro heq
  have hlength := congrArg List.length heq
  simp only [Site.Vhost.nginx, nginxWrapperAt, line, List.length_append, List.length_cons]
    at hlength
  omega

/-- The uses of an instance take the address of a client, but for Nginx sites that pass
on to an instance which listens on all interfaces. -/
theorem usedAt_connectable_iff (hone : OneInterface db)
    (h : RegisteredWith db instanceId interface) :
    UsedAt db instanceId interface (connectable interface) ↔
      (interface = anyInterface → ∀ siteId site, (siteId, site) ∈ db.sites.rows →
        site.httpdInstanceId ≠ none → httpdType db site.httpdInstanceId ≠ "apache".toList →
          site.phpInstanceId ≠ some instanceId) := by
  obtain ⟨row, hrow, hinterface⟩ := endpoint_of_registeredWith hone h
  have hinterfaceOf : Site.interfaceOf db (some instanceId) = interface := by
    rw [Site.interfaceOf, hrow, Option.map_some, Option.getD_some, hinterface]
    rfl
  constructor
  · intro hused hany siteId site hsite hassigned hserver hphp
    have htext := hused.fastcgi siteId site hsite hassigned hserver hphp Site.sampleEnv
      ⟨[], [], [], [], [], [], [], []⟩
    rw [vhostText_nginx hserver hphp, hinterfaceOf] at htext
    refine nginx_wrapperAt_ne _ _ ?_ htext
    rw [hany]
    decide
  · intro hfits
    constructor
    · rw [Site.hostInterface, hinterfaceOf]
      rfl
    · intro siteId site hsite hassigned hserver hphp env v
      have hne : interface ≠ anyInterface := fun hany =>
        hfits hany siteId site hsite hassigned hserver hphp
      rw [vhostText_nginx hserver hphp, hinterfaceOf, connectable, if_neg hne]
    · exact databaseAt_connectable hone h
    · intro vars
      have hsql : (if Util.sqlEq row.interface (.text anyInterface) then SqlValue.text loopback
          else row.interface) = .text (connectable interface) := by
        rw [hinterface, connectable]
        by_cases hany : interface = anyInterface
        · simp [Util.sqlEq, hany]
        · simp [Util.sqlEq, hany]
      simp only [Instance.shutdownCommand, Instance.getEndpoint, portOf, hrow, Option.map_some,
        Option.getD_some, hsql]
    · intro tcpPort
      rw [Instance.postgresqlConnection, Instance.postgresqlHost, ite_looseEq_anyInterface]

end

/-! ## Runs -/

section

variable {env : Env} {sqlite : Sqlite} {m m' : Machine}

/-- What the requests keep. -/
structure Kept (m : Machine) : Prop where
  sound : Sound m
  one : OneInterface m.db

/-- The endpoints of a new instance share the interface of the form. -/
theorem oneInterface_registeredRows (h : Kept m) (package : PackageInfo)
    (classFile : ClassFile) :
    OneInterface (Instance.registeredRows sqlite package classFile m) := by
  obtain ⟨extra, hrows, hvalues⟩ := Instance.rows_registeredRows sqlite package classFile m
  have hnew : ∀ entry ∈ extra, entry.2.instanceId = m.db.instances.nextId ∧
      entry.2.interface = ((m.session.pdata.getD []).value "interface".toList).asText := by
    intro entry hentry
    have hmem : entry.2 ∈ extra.map Prod.snd := List.mem_map_of_mem hentry
    rw [hvalues, List.mem_map] at hmem
    obtain ⟨spec, -, hspec⟩ := hmem
    rw [← hspec]
    exact ⟨rfl, rfl⟩
  have hold : ∀ key row, (key, row) ∈ m.db.endpoints.rows →
      row.instanceId ≠ m.db.instances.nextId := by
    intro key row hrow
    have hle := h.sound.owned key row hrow
    simp only [Table.nextId]
    omega
  intro key row key' row' hrow hrow' hid
  rw [hrows, List.mem_append] at hrow hrow'
  rcases hrow with hrow | hrow
  · rcases hrow' with hrow' | hrow'
    · exact h.one key row key' row' hrow hrow' hid
    · exact absurd (hid.trans (hnew _ hrow').1) (hold key row hrow)
  · rcases hrow' with hrow' | hrow'
    · exact absurd (hid.symm.trans (hnew _ hrow).1) (hold key' row' hrow')
    · exact (hnew _ hrow).2.trans (hnew _ hrow').2.symm

/-- Requests on sites leave instances and endpoints alone. -/
theorem tables_handle (request : SiteController.Request) (w : World) :
    (SiteController.handle env request w).world.db.instances = w.db.instances ∧
      (SiteController.handle env request w).world.db.endpoints = w.db.endpoints := by
  cases request with
  | doAdd form ca =>
      show (SiteController.doAdd env form ca w).world.db.instances = _ ∧
        (SiteController.doAdd env form ca w).world.db.endpoints = _
      rw [SiteController.db_doAdd]
      split
      · cases ca <;> exact ⟨rfl, rfl⟩
      · exact ⟨rfl, rfl⟩
  | doEdit siteId form ca =>
      show (SiteController.doEdit env siteId form ca w).world.db.instances = _ ∧
        (SiteController.doEdit env siteId form ca w).world.db.endpoints = _
      rw [SiteController.doEdit, Site.db_update]
      exact ⟨rfl, rfl⟩
  | delete siteId =>
      show (Site.delete env siteId w).world.db.instances = _ ∧
        (Site.delete env siteId w).world.db.endpoints = _
      rw [Site.db_delete]
      split <;> exact ⟨rfl, rfl⟩

theorem Kept.congr (h : Kept m) (hinstances : m'.db.instances = m.db.instances)
    (hendpoints : m'.db.endpoints = m.db.endpoints) : Kept m' := by
  constructor
  · exact ⟨hinstances ▸ h.sound.named, by rw [hendpoints, hinstances]; exact h.sound.owned⟩
  · rw [OneInterface, hendpoints]
    exact h.one

/-- What one request preserves. -/
theorem kept_step {request : Request} (h : Kept m) (hstep : Step env sqlite m request m') :
    Kept m' := by
  cases request with
  | verify found packageId form =>
      obtain rfl := hstep
      rw [Instance.packageVerify_eq]
      split
      · exact h.congr rfl rfl
      · exact h
  | references request =>
      cases request with
      | site request =>
          obtain rfl := hstep
          obtain ⟨hinstances, hendpoints⟩ := @tables_handle env request m.toWorld
          exact h.congr hinstances hendpoints
      | instances request =>
          refine ⟨Instance.sound_step h.sound hstep, ?_⟩
          cases Instance.leaves_of_step hstep with
          | same => exact h.one
          | registered => exact oneInterface_registeredRows h _ _
          | @removed request classFile package cs =>
              obtain ⟨conf, hdb⟩ := Instance.db_removed env request.found
                (Instance.initVars env request.instanceId package) classFile request.instanceId
                cs m
              rw [hdb]
              intro key row key' row' hrow hrow'
              exact h.one key row key' row' (List.mem_filter.mp hrow).1
                (List.mem_filter.mp hrow').1

/-- In every state that requests reach, every instance is used at an address that can
be connected to exactly if no Nginx site uses a PHP version that listens on all
interfaces. -/
theorem addresses_connectable {m₀ m : Machine} {requests : List Request}
    (hstart : NoInstances m₀.db)
    (run : Transition.Run (Step env sqlite) m₀ requests m) :
    AllConnectable m.db ↔ NoPhpOnAll m.db := by
  have hnone : Kept m₀ := by
    constructor
    · constructor
      · intro instanceId row hrow
        rw [hstart.instances] at hrow
        cases hrow
      · intro key row hrow
        rw [hstart.endpoints] at hrow
        cases hrow
    · intro key row key' row' hrow
      rw [hstart.endpoints] at hrow
      cases hrow
  have hkept : Kept m := run.invariant Kept hnone fun _ _ _ h hstep => kept_step h hstep
  constructor
  · intro hall instanceId hany
    exact (usedAt_connectable_iff hkept.one hany).mp (hall instanceId anyInterface hany) rfl
  · intro hphp instanceId interface hregistered
    refine (usedAt_connectable_iff hkept.one hregistered).mpr ?_
    rintro rfl
    exact hphp instanceId hregistered

end

/-! ## A PHP version and a site -/

/-- The form of a PHP version. -/
def phpForm (interface : String) : PostedForm :=
  [("package_id".toList, "3".toList), ("interface".toList, interface.toList),
    ("tcp_port".toList, "9000".toList), ("memory_limit".toList, "128".toList),
    ("max_input_vars".toList, "1000".toList), ("max_execution_time".toList, "30".toList),
    ("max_input_time".toList, "60".toList)]

/-- The form of a site of the second instance with PHP from the first. -/
def siteForm : SiteController.Form := ⟨"a".toList, [], "C:\\www".toList, 2, 1⟩

/-- PHP and Nginx are installed, then a site that uses both is added. -/
def sampleRequests (interface : String) : List Request :=
  [.verify Instance.sampleFound 3 (phpForm interface),
    .references (.instances (.install Instance.allGood 3)),
    .verify Instance.sampleFound 2 (Instance.sampleForm "2" "81" "444"),
    .references (.instances (.install Instance.allGood 2)),
    .references (.site (.doAdd siteForm SiteController.sampleCertificate))]

/-- What a request of such a run does. -/
def sampleHandle (m : Machine) : Request → Machine
  | .verify found packageId form =>
      (Instance.packageVerify Instance.sampleSqlite found packageId form m).state
  | .references (.site request) =>
      { m with toWorld := (SiteController.handle Site.sampleEnv request m.toWorld).world }
  | .references (.instances request) =>
      (Instance.handle Site.sampleEnv Instance.sampleSqlite request m).state

/-- The machine behind such a run. -/
def sampleAfter (interface : String) : Machine :=
  (sampleRequests interface).foldl sampleHandle Instance.freshMachine

theorem run_foldl_sampleHandle (m : Machine) (requests : List Request) :
    Transition.Run (Step Site.sampleEnv Instance.sampleSqlite) m requests
      (requests.foldl sampleHandle m) := by
  induction requests using List.reverseRecOn with
  | nil => exact .nil m
  | append_singleton requests request ih =>
      rw [List.foldl_append]
      refine .snoc ih ?_
      cases request with
      | verify found packageId form => exact rfl
      | references request => cases request <;> exact rfl

theorem noInstances_freshMachine : NoInstances Instance.freshMachine.db := ⟨rfl, rfl⟩

/-- The PHP version listens on the loopback address. -/
theorem addresses_connectable_loopback :
    UsedAt (sampleAfter "127.0.0.1").db 1 "127.0.0.1".toList "127.0.0.1".toList := by
  have hnone : ∀ entry ∈ (sampleAfter "127.0.0.1").db.endpoints.rows,
      entry.2.interface ≠ .text anyInterface := by decide
  have hphp : ∃ entry ∈ (sampleAfter "127.0.0.1").db.endpoints.rows,
      entry.2.instanceId = 1 ∧ entry.2.interface = .text "127.0.0.1".toList := by decide
  have hall := (addresses_connectable noInstances_freshMachine
    (run_foldl_sampleHandle Instance.freshMachine (sampleRequests "127.0.0.1"))).mpr (by
      rintro instanceId ⟨key, row, hrow, -, hany⟩
      exact absurd hany (hnone (key, row) hrow))
  obtain ⟨⟨key, row⟩, hrow, hid, hinterface⟩ := hphp
  exact hall 1 _ ⟨key, row, hrow, hid, hinterface⟩

/-- The PHP version listens on all interfaces. -/
theorem fastcgi_not_connectable :
    ¬ ∀ (env : Env) (sqlite : Sqlite) (m₀ m : Machine) (requests : List Request),
      NoInstances m₀.db → Transition.Run (Step env sqlite) m₀ requests m →
        AllConnectable m.db := by
  intro hclaim
  have hall : AllConnectable (sampleAfter "0.0.0.0").db :=
    hclaim Site.sampleEnv Instance.sampleSqlite Instance.freshMachine _ _
      noInstances_freshMachine (run_foldl_sampleHandle _ (sampleRequests "0.0.0.0"))
  have hphp : ∃ entry ∈ (sampleAfter "0.0.0.0").db.endpoints.rows,
      entry.2.instanceId = 1 ∧ entry.2.interface = .text anyInterface := by decide
  obtain ⟨⟨key, row⟩, hrow, hid, hinterface⟩ := hphp
  have hused := hall 1 anyInterface ⟨key, row, hrow, hid, hinterface⟩
  have hsite : ∃ entry ∈ (sampleAfter "0.0.0.0").db.sites.rows,
      entry.2.httpdInstanceId ≠ none ∧ entry.2.phpInstanceId = some 1 ∧
        httpdType (sampleAfter "0.0.0.0").db entry.2.httpdInstanceId ≠ "apache".toList := by
    decide
  obtain ⟨⟨siteId, site⟩, hmem, hassigned, hphpId, hserver⟩ := hsite
  change site.phpInstanceId = some 1 at hphpId
  change httpdType (sampleAfter "0.0.0.0").db site.httpdInstanceId ≠ "apache".toList at hserver
  have htext := hused.fastcgi siteId site hmem hassigned hserver hphpId Site.sampleEnv
    ⟨[], [], [], [], [], [], [], []⟩
  have hinterfaceOf : Site.interfaceOf (sampleAfter "0.0.0.0").db (some 1) = anyInterface := by
    decide
  rw [vhostText_nginx hserver hphpId, hinterfaceOf] at htext
  exact nginx_wrapperAt_ne _ _ (by decide) htext

end Addresses

end WampManager
