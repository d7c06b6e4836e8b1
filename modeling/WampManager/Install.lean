/-
# Installing a package

The parent class downloads the package, adds the row of the instance, names it
and unpacks the package into its directory; then the class file registers the
endpoints it was asked for and configures what it installed. The request can end
at any of these points, and nothing that was written is taken back.
-/

import WampManager.Uninstall

namespace WampManager

/-- An endpoint as a class file registers it: the field of the form that holds
its port. -/
structure EndpointSpec where
  proto : Text
  portField : Text
  type : Option Text
  deriving DecidableEq

namespace ClassFile

/-- The endpoints that the `install` of each class file registers. -/
def endpoints : ClassFile → List EndpointSpec
  | .apache | .nginx =>
      [⟨"tcp".toList, "http_port".toList, some "http".toList⟩,
        ⟨"tcp".toList, "https_port".toList, some "https".toList⟩]
  | .php | .php72 | .php73 | .php74 | .php80 | .php81 | .php812 =>
      [⟨"tcp".toList, "tcp_port".toList, some "php".toList⟩]
  | .mariadb | .mysql => [⟨"tcp".toList, "tcp_port".toList, some "mysql".toList⟩]
  | .mysql8 =>
      [⟨"tcp".toList, "tcp_port".toList, some "mysql".toList⟩,
        ⟨"tcp".toList, "tcp_port_x".toList, some "mysql_x".toList⟩]
  | .postgresql => [⟨"tcp".toList, "tcp_port".toList, some "pgsql".toList⟩]
  | .mongodb | .redis => [⟨"tcp".toList, "tcp_port".toList, none⟩]
  | .memcached =>
      [⟨"tcp".toList, "tcp_port".toList, none⟩, ⟨"udp".toList, "udp_port".toList, none⟩]
  | .acrylic | .wildthing => [⟨"udp".toList, "udp_port".toList, some "dns".toList⟩]
  | .adminer | .drupal | .joomla | .laravel | .phpmyadmin | .wordpress => []

end ClassFile

namespace Instance

/-- What an install finds outside: whether the download returns, what the archive that
it leaves is opened as, and what the processes do that are started and stopped. -/
structure InstallFound where
  downloads : Bool
  archive : UnzipMe.Archive Text
  initialized : Bool
  outside : Found

section Statements

variable (sqlite : Sqlite) (form : PostedForm)

/-- `Package::add`: the row of a new instance, without a name. -/
def addRow (package : PackageInfo) (db : Database) : Database :=
  { db with
    instances := db.instances.insert
      ⟨package.id, sqlite.asInteger (form.value "label".toList), none⟩ }

/-- `UPDATE instance SET name=? WHERE id=?`. -/
def setName (instanceId : ℤ) (name : Text) (db : Database) : Database :=
  { db with
    instances := db.instances.update (fun id _ => id == instanceId)
      fun row => { row with name := some name } }

/-- The row that `registerEndpoint` inserts for a posted form. -/
def endpointRow (instanceId : ℤ) (spec : EndpointSpec) : EndpointRow where
  instanceId := instanceId
  proto := spec.proto
  interface := (form.value "interface".toList).asText
  port := sqlite.asInteger (form.value spec.portField)
  type := spec.type

/-- The endpoints of a class file, registered one after another. -/
def registerEndpoints (instanceId : ℤ) (specs : List EndpointSpec) (db : Database) :
    Database :=
  { db with
    endpoints := specs.foldl
      (fun table spec => table.insert (endpointRow sqlite form instanceId spec)) db.endpoints }

end Statements

/-- What the class files of database servers do with the server they start; the
others only write their configuration. -/
def setUp (found : InstallFound) (vars : InstanceVars) : ClassFile → Machine → Course Machine
  | .mariadb | .mysql | .mysql8 => fun m =>
      if found.initialized then sleepTillProcessDead found.outside m else .stop m
  | .postgresql => stopPostgresql found.outside vars
  | _ => fun m => .next m

/-- An archive was unpacked into a directory. -/
def unpackedAt (path : Text) (archive : UnzipMe.Archive Text)
    (unpacked : Text → Option (UnzipMe.Archive Text)) :
    Text → Option (UnzipMe.Archive Text) :=
  fun other => if other = path then some archive else unpacked other

/-- `Instance::install`, with what the class file goes on to do with the key and
the paths of the new instance. -/
def install (env : Env) (sqlite : Sqlite) (found : InstallFound) (package : PackageInfo)
    (next : ℤ → InstanceVars → Machine → Course Machine) (m : Machine) : Course Machine :=
  if found.downloads then
    let instanceId := m.db.instances.nextId
    let vars := setInstanceVars env.binPath instanceId (some package)
    let m : Machine := { m with
      db := setName instanceId vars.name (addRow sqlite (m.session.pdata.getD []) package m.db) }
    -- one level of the archive's directories is stripped
    match UnzipMe.unzip found.archive vars.path 1 m.files with
    | .ok files => next instanceId vars { m with
        files := files
        unpacked := unpackedAt vars.path found.archive m.unpacked }
    | .error _ => .stop m
  else .stop m

/-- The `install` of a server: its endpoints, its configuration, the end. -/
def installServer (env : Env) (sqlite : Sqlite) (found : InstallFound) (package : PackageInfo)
    (classFile : ClassFile) : Machine → Course Machine :=
  install env sqlite found package fun instanceId vars m =>
    (setUp found vars classFile { m with
      db := registerEndpoints sqlite (m.session.pdata.getD []) instanceId classFile.endpoints
        m.db }).bind fun m => .stop m

end Instance

namespace ClassFile

/-- `install` in each class file. An application goes into the directory of a
site and leaves the tables alone. -/
def install (env : Env) (sqlite : Sqlite) (found : Instance.InstallFound)
    (package : PackageInfo) (classFile : ClassFile) (m : Machine) : Course Machine :=
  if classFile.isApp then .stop m
  else Instance.installServer env sqlite found package classFile m

end ClassFile

namespace Instance

/-- The class file that a request for a package runs. -/
def classFileOf (db : Database) (packageId : ℤ) : Option ClassFile :=
  (Package.getById db packageId).bind PackageInfo.classFile

/-- `PackageController::install`. -/
def packageInstall (env : Env) (sqlite : Sqlite) (found : InstallFound) (packageId : ℤ)
    (m : Machine) : Course Machine :=
  match Package.getById m.db packageId with
  | none => .stop m
  | some package =>
      match package.classFile with
      | none => .stop m
      | some classFile => classFile.install env sqlite found package m

/-! ## What an install does -/

variable {env : Env} {sqlite : Sqlite}

/-- The tables once the new instance has its name. -/
def namedRows (sqlite : Sqlite) (package : PackageInfo) (m : Machine) : Database :=
  setName m.db.instances.nextId (nameOf m.db.instances.nextId (some package))
    (addRow sqlite (m.session.pdata.getD []) package m.db)

/-- The tables with the endpoints of the new instance. -/
def registeredRows (sqlite : Sqlite) (package : PackageInfo) (classFile : ClassFile)
    (m : Machine) : Database :=
  registerEndpoints sqlite (m.session.pdata.getD []) m.db.instances.nextId classFile.endpoints
    (namedRows sqlite package m)

/-- The directory of the new instance. -/
def newPath (env : Env) (package : PackageInfo) (m : Machine) : Text :=
  env.binPath ++ '\\' :: nameOf m.db.instances.nextId (some package)

theorem setUp_spec (found : InstallFound) (vars : InstanceVars) (classFile : ClassFile)
    (m : Machine) : ∃ cs, (setUp found vars classFile m).state = after cs m := by
  have hsleep : ∀ cs, (sleepTillProcessDead found.outside (after cs m)).state = after cs m := by
    intro cs
    unfold sleepTillProcessDead
    split <;> rfl
  have hmysql : (if found.initialized then sleepTillProcessDead found.outside m
      else .stop m : Course Machine).state = after [] m := by
    rw [after_nil]
    split
    · have hnil := hsleep []
      rwa [after_nil] at hnil
    · rfl
  have hpostgresql : ∃ cs, (stopPostgresql found.outside vars m).state = after cs m := by
    unfold stopPostgresql
    split
    · exact ⟨_, rfl⟩
    · exact ⟨_, hsleep _⟩
  cases classFile with
  | mariadb | mysql | mysql8 => exact ⟨[], hmysql⟩
  | postgresql => exact hpostgresql
  | acrylic | adminer | apache | drupal | joomla | laravel | memcached | mongodb | nginx =>
      exact ⟨[], (after_nil m).symm⟩
  | php | php72 | php73 | php74 | php80 | php81 | php812 => exact ⟨[], (after_nil m).symm⟩
  | phpmyadmin | redis | wildthing | wordpress => exact ⟨[], (after_nil m).symm⟩

/-- The files once a package was unpacked into the directory of the new instance. -/
def unzippedFiles (env : Env) (archive : UnzipMe.Archive Text) (package : PackageInfo)
    (m : Machine) : FileTree Text :=
  (UnzipMe.rounds (newPath env package m) 1 archive.entries
    (UnzipMe.prepare (newPath env package m) m.files)).disk

/-- The machine once the new instance was unpacked, whatever came out of the archive, and
its endpoints were registered. -/
def installed (env : Env) (sqlite : Sqlite) (found : InstallFound) (package : PackageInfo)
    (classFile : ClassFile) (cs : List Command) (m : Machine) : Machine :=
  { m with
    db := registeredRows sqlite package classFile m
    files := unzippedFiles env found.archive package m
    unpacked := unpackedAt (newPath env package m) found.archive m.unpacked
    commands := m.commands ++ cs }

/-- The two ways the install of a server ends: without a download, or with everything
registered. No archive makes the unpacking throw. -/
theorem installServer_cases (env : Env) (sqlite : Sqlite) (found : InstallFound)
    (package : PackageInfo) (classFile : ClassFile) (m : Machine) :
    found.downloads = false ∧
      (installServer env sqlite found package classFile m).state = m ∨
    found.downloads = true ∧ ∃ cs,
      (installServer env sqlite found package classFile m).state =
        installed env sqlite found package classFile cs m := by
  by_cases hdownloads : found.downloads = true
  · right
    have hend : ∀ flow : Course Machine, (flow.bind fun m => .stop m).state = flow.state := by
      intro flow
      cases flow <;> rfl
    have hunzip := UnzipMe.unzip_eq_ok found.archive (newPath env package m) 1 m.files
    obtain ⟨cs, hcs⟩ := setUp_spec found
      (setInstanceVars env.binPath m.db.instances.nextId (some package)) classFile
        { m with
          db := registeredRows sqlite package classFile m
          files := unzippedFiles env found.archive package m
          unpacked := unpackedAt (newPath env package m) found.archive m.unpacked }
    refine ⟨hdownloads, cs, ?_⟩
    unfold installServer install
    simp only [if_pos hdownloads]
    change Course.state (match UnzipMe.unzip found.archive (newPath env package m) 1 m.files with
      | .ok files => _
      | .error _ => _) = _
    rw [hunzip]
    exact (hend _).trans hcs
  · left
    unfold installServer install
    simp only [if_neg hdownloads]
    exact ⟨by simpa using hdownloads, rfl⟩

/-- An install request runs the class file of a server, or it leaves the machine
as it was. -/
theorem packageInstall_cases (env : Env) (sqlite : Sqlite) (found : InstallFound)
    (packageId : ℤ) (m : Machine) :
    (∃ package classFile, Package.getById m.db packageId = some package ∧
      package.classFile = some classFile ∧ classFile.isApp = false ∧
      packageInstall env sqlite found packageId m =
        installServer env sqlite found package classFile m) ∨
    (∀ classFile ∈ classFileOf m.db packageId, classFile.isApp = true) ∧
      (packageInstall env sqlite found packageId m).state = m := by
  unfold packageInstall classFileOf
  cases hpackage : Package.getById m.db packageId with
  | none => exact .inr ⟨by simp, rfl⟩
  | some package =>
      cases hclass : package.classFile with
      | none => exact .inr ⟨by simp [hclass], by simp only [hclass]; rfl⟩
      | some classFile =>
          by_cases happ : classFile.isApp = true
          · right
            refine ⟨by simp [hclass, happ], ?_⟩
            simp only [hclass, ClassFile.install, if_pos happ]
            rfl
          · left
            refine ⟨package, classFile, rfl, hclass, by simpa using happ, ?_⟩
            simp only [hclass, ClassFile.install, if_neg happ]

/-- An install leaves the session alone. -/
theorem session_packageInstall (env : Env) (sqlite : Sqlite) (found : InstallFound)
    (packageId : ℤ) (m : Machine) :
    (packageInstall env sqlite found packageId m).state.session = m.session := by
  rcases packageInstall_cases env sqlite found packageId m with
    ⟨package, classFile, -, -, -, hruns⟩ | ⟨-, hsame⟩
  · rw [hruns]
    rcases installServer_cases env sqlite found package classFile m with
      ⟨-, hdone⟩ | ⟨-, cs, hdone⟩
    · rw [hdone]
    · rw [hdone]
      rfl
  · rw [hsame]

/-! ## Fixed inputs -/

/-- A column that reads short digit strings as numbers and keeps other text. -/
def sampleSqlite : Sqlite where
  integerAffinity t :=
    if t ≠ [] ∧ t.all Char.isDigit then .int (Loose.value t) else .text t

/-- The form of a web server with two ports. -/
def sampleForm (packageId httpPort httpsPort : String) : PostedForm :=
  [("package_id".toList, packageId.toList), ("cmd".toList, "verify".toList),
    ("label".toList, "Web".toList), ("interface".toList, "127.0.0.1".toList),
    ("http_port".toList, httpPort.toList), ("https_port".toList, httpsPort.toList)]

/-- The packages of the small deployment, none of them installed, and a form that
was accepted. -/
def freshMachine : Machine :=
  { sampleMachine with
    db := { sampleDatabase with instances := .empty, endpoints := .empty, sites := .empty, conf := [] }
    session := ⟨some (sampleForm "1" "80" "443"), some "/package/1/install".toList, false⟩ }

/-- A package with a directory and a program in it. -/
def sampleArchive : UnzipMe.Archive Text :=
  .opened [⟨"top/bin/".toList, [], by decide⟩, ⟨"top/bin/program".toList, "x".toList, by decide⟩]

/-- What an install finds when nothing goes wrong. -/
def allGood : InstallFound := ⟨true, sampleArchive, true, ⟨true, true, true, true⟩⟩

end Instance

end WampManager
