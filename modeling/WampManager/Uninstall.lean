/-
# Uninstalling an instance

`InstanceController::control` takes the class file of the instance's package and
runs its `uninstall`. The parent class stops the processes and the service, the
class files add what is theirs, and `postUninstall` removes the directory and
the rows. A PHP version in use is refused by way of a session flag, which the
class file sets and the parent takes back before anything is stopped.
-/

import WampManager.Lib.Transition
import WampManager.Machine
import WampManager.StoreSync

namespace WampManager

namespace Instance

open Loose (looseEq)

/-- What a request finds outside: a service, a running process, whether it dies
in time, whether the directory can be removed. -/
structure Found where
  service : Bool
  process : Bool
  dies : Bool
  removable : Bool

/-- `Util::sleepTillProcessDead`: an exception after the timeout. -/
def sleepTillProcessDead (found : Found) (m : Machine) : Course Machine :=
  if found.dies then .next m else .stop m

section Commands

variable (found : Found) (vars : InstanceVars)

/-- `Util::killByPath`. -/
def killByPath (m : Machine) : Machine := m.run (.kill vars.processName)

/-- The `stop` of most class files. -/
def stopServiceOrKill (m : Machine) : Course Machine :=
  if found.service then .next (m.run (.serviceStop vars.serviceName))
  else .next (killByPath vars m)

/-- The `stop` of the MySQL class files. -/
def stopMysql (m : Machine) : Course Machine :=
  if found.process then sleepTillProcessDead found (m.run (.shutdown vars.path)) else .next m

/-- The `stop` of the PostgreSQL class file. -/
def stopPostgresql (m : Machine) : Course Machine :=
  if found.service then .next (m.run (.serviceStop vars.serviceName))
  else sleepTillProcessDead found (m.run (.shutdown vars.path))

/-- `stop` in each class file; the applications have none. -/
def stop : ClassFile → Machine → Course Machine
  | .apache => fun m => .next (killByPath vars m)
  | .acrylic | .memcached | .mongodb | .nginx | .redis | .wildthing => stopServiceOrKill found vars
  | .php | .php72 | .php73 | .php74 | .php80 | .php81 | .php812 => stopServiceOrKill found vars
  | .mariadb | .mysql | .mysql8 => stopMysql found vars
  | .postgresql => stopPostgresql found vars
  | .adminer | .drupal | .joomla | .laravel | .phpmyadmin | .wordpress => fun m => .stop m

/-- Does `stop` return? The applications have none, and a database server may not
die in time. -/
def stops : ClassFile → Bool
  | .mariadb | .mysql | .mysql8 => !found.process || found.dies
  | .postgresql => found.service || found.dies
  | classFile => !classFile.isApp

/-- `serviceUninstall` in each class file. -/
def serviceUninstall (classFile : ClassFile) (m : Machine) : Course Machine :=
  (stop found vars classFile m).bind fun m =>
    .next (if found.service then m.run (.serviceRemove vars.serviceName) else m)

/-- `Instance::uninstall`. -/
def uninstall (classFile : ClassFile) (m : Machine) : Course Machine :=
  if m.session.installerAbort then
    .stop { m with session := { m.session with installerAbort := false } }
  else serviceUninstall found vars classFile m

/-- `Instance::postUninstall`, which ends the request. -/
def postUninstall (instanceId : ℤ) (m : Machine) : Course Machine :=
  .stop { m with
    disk := if vars.name ≠ [] ∧ found.removable then m.disk.deltree vars.path else m.disk
    files := if vars.name ≠ [] ∧ found.removable then m.files.removeTree (Drive.key vars.path)
      else m.files
    unpacked := fun path =>
      if vars.name ≠ [] ∧ found.removable ∧ path = vars.path then none else m.unpacked path
    db := removeRows instanceId m.db }

end Commands

/-! ## The class files -/

/-- `php_default_instance_id`. -/
def phpDefault : Text := "php_default_instance_id".toList

/-- The junction for the default PHP version. -/
def phpJunction (env : Env) : Text := env.binPath ++ "\\.php".toList

section ClassFiles

variable (env : Env) (found : Found) (vars : InstanceVars) (instanceId : ℤ)

/-- Most class files add nothing. -/
def uninstallPlain (classFile : ClassFile) (m : Machine) : Course Machine :=
  (uninstall found vars classFile m).bind (postUninstall found vars instanceId)

/-- The web servers take their sites off. -/
def uninstallHttpd (classFile : ClassFile) (m : Machine) : Course Machine :=
  (uninstall found vars classFile m).bind fun m =>
    postUninstall found vars instanceId { m with
      db := { m.db with
        sites := m.db.sites.update (fun _ site => site.httpdInstanceId == some instanceId)
          fun site => { site with httpdInstanceId := none } } }

/-- `SELECT COUNT(*) FROM site WHERE php_instance_id=?`. -/
def phpSites (db : Database) : ℕ :=
  (db.sites.rows.filter fun row => row.2.phpInstanceId == some instanceId).length

/-- Set the flag if the PHP version is in use. -/
def checkInUse (m : Machine) : Machine :=
  if 0 < phpSites instanceId m.db then
    { m with session := { m.session with installerAbort := true } }
  else m

/-- Take the PHP version off all sites. -/
def clearPhpSites (db : Database) : Database :=
  { db with
    sites := db.sites.update (fun _ site => site.phpInstanceId == some instanceId)
      fun site => { site with phpInstanceId := none } }

/-- Unassign the default PHP version if it is the one that goes. -/
def clearPhpDefault (m : Machine) : Machine :=
  if looseEq (Update.getScalar m.db phpDefault) (.text (decimal instanceId)) then
    { m.removeJunction (phpJunction env) with db := m.db.set phpDefault .null }
  else m

/-- The older PHP versions. -/
def uninstallPhp (classFile : ClassFile) (m : Machine) : Course Machine :=
  (uninstall found vars classFile (checkInUse instanceId m)).bind fun m =>
    postUninstall found vars instanceId (clearPhpDefault env instanceId m)

/-- The newer PHP versions clear the references of sites as well. -/
def uninstallPhpSites (classFile : ClassFile) (m : Machine) : Course Machine :=
  (uninstall found vars classFile (checkInUse instanceId m)).bind fun m =>
    postUninstall found vars instanceId
      (clearPhpDefault env instanceId { m with db := clearPhpSites instanceId m.db })

end ClassFiles

end Instance

namespace ClassFile

open Instance

/-- `uninstall` in each class file; the applications inherit it. -/
def uninstall (env : Env) (found : Found) (vars : InstanceVars) (instanceId : ℤ) :
    ClassFile → Machine → Course Machine
  | .acrylic => uninstallPlain found vars instanceId .acrylic
  | .adminer => Instance.uninstall found vars .adminer
  | .apache => uninstallHttpd found vars instanceId .apache
  | .drupal => Instance.uninstall found vars .drupal
  | .joomla => Instance.uninstall found vars .joomla
  | .laravel => Instance.uninstall found vars .laravel
  | .mariadb => uninstallPlain found vars instanceId .mariadb
  | .memcached => uninstallPlain found vars instanceId .memcached
  | .mongodb => uninstallPlain found vars instanceId .mongodb
  | .mysql => uninstallPlain found vars instanceId .mysql
  | .mysql8 => uninstallPlain found vars instanceId .mysql8
  | .nginx => uninstallHttpd found vars instanceId .nginx
  | .php => uninstallPhp env found vars instanceId .php
  | .php72 => uninstallPhp env found vars instanceId .php72
  | .php73 => uninstallPhp env found vars instanceId .php73
  | .php74 => uninstallPhpSites env found vars instanceId .php74
  | .php80 => uninstallPhpSites env found vars instanceId .php80
  | .php81 => uninstallPhpSites env found vars instanceId .php81
  | .php812 => uninstallPhpSites env found vars instanceId .php812
  | .phpmyadmin => Instance.uninstall found vars .phpmyadmin
  | .postgresql => uninstallPlain found vars instanceId .postgresql
  | .redis => uninstallPlain found vars instanceId .redis
  | .wildthing => uninstallPlain found vars instanceId .wildthing
  | .wordpress => Instance.uninstall found vars .wordpress

end ClassFile

namespace Instance

/-- What `init` sets; without a key it sets nothing. -/
def initVars (env : Env) (instanceId : ℤ) (package : PackageInfo) : InstanceVars :=
  if instanceId = 0 then ⟨[], [], [], []⟩
  else setInstanceVars env.binPath instanceId (some package)

/-- The package of a request. A key of zero reads as no key, and the package is
then the one that is asked for. -/
def controlPackage (db : Database) (instanceId packageId : ℤ) : Option PackageInfo :=
  if instanceId = 0 then Package.getById db packageId
  else Package.getByInstanceId db instanceId

/-- `InstanceController::control` for `uninstall`. -/
def controlUninstall (env : Env) (found : Found) (instanceId packageId : ℤ) (m : Machine) :
    Course Machine :=
  match controlPackage m.db instanceId packageId with
  | none => .stop m
  | some package =>
      match package.classFile with
      | none => .stop m
      | some classFile =>
          classFile.uninstall env found (initVars env instanceId package) instanceId m

/-! ## What an uninstall does -/

variable {env : Env} {found : Found} {vars : InstanceVars} {instanceId : ℤ}
  {classFile : ClassFile} {m : Machine}

/-- The machine after some more commands. -/
def after (commands : List Command) (m : Machine) : Machine :=
  { m with commands := m.commands ++ commands }

/-- The machine with the flag taken back. -/
def takeBack (m : Machine) : Machine :=
  { m with session := { m.session with installerAbort := false } }

theorem run_eq (command : Command) (m : Machine) : m.run command = after [command] m := rfl

theorem after_after (cs ds : List Command) (m : Machine) :
    after ds (after cs m) = after (cs ++ ds) m := by
  simp [after, List.append_assoc]

theorem after_nil (m : Machine) : after [] m = m := by simp [after]

/-- Stopping runs some commands, whether it returns or ends the request. -/
theorem stop_spec (classFile : ClassFile) (m : Machine) :
    ∃ cs, stop found vars classFile m =
      if stops found classFile then .next (after cs m) else .stop (after cs m) := by
  have hservice : ∃ cs, stopServiceOrKill found vars m = .next (after cs m) := by
    unfold stopServiceOrKill
    split
    · exact ⟨_, rfl⟩
    · exact ⟨_, rfl⟩
  have hmysql : ∃ cs, stopMysql found vars m =
      if !found.process || found.dies then .next (after cs m) else .stop (after cs m) := by
    unfold stopMysql
    by_cases hprocess : found.process = true
    · exact ⟨_, by simp only [hprocess]; rfl⟩
    · exact ⟨[], by rw [after_nil]; simp [hprocess]⟩
  have hpostgresql : ∃ cs, stopPostgresql found vars m =
      if found.service || found.dies then .next (after cs m) else .stop (after cs m) := by
    unfold stopPostgresql
    by_cases hthere : found.service = true
    · exact ⟨_, by simp only [hthere]; rfl⟩
    · rw [Bool.not_eq_true] at hthere
      exact ⟨_, by simp only [hthere]; rfl⟩
  cases classFile with
  | apache => exact ⟨_, rfl⟩
  | mariadb | mysql | mysql8 => exact hmysql
  | postgresql => exact hpostgresql
  | adminer | drupal | joomla | laravel | phpmyadmin | wordpress =>
      exact ⟨[], by rw [after_nil]; rfl⟩
  | acrylic | memcached | mongodb | nginx | redis | wildthing => exact hservice
  | php | php72 | php73 | php74 | php80 | php81 | php812 => exact hservice

theorem serviceUninstall_spec (classFile : ClassFile) (m : Machine) :
    ∃ cs, serviceUninstall found vars classFile m =
      if stops found classFile then .next (after cs m) else .stop (after cs m) := by
  unfold serviceUninstall
  obtain ⟨cs, hstop⟩ := @stop_spec found vars classFile m
  rw [hstop]
  by_cases hstops : stops found classFile = true
  · simp only [if_pos hstops, Course.bind_next]
    split
    · exact ⟨_, by rw [run_eq, after_after]⟩
    · exact ⟨cs, rfl⟩
  · simp only [if_neg hstops, Course.bind_stop]
    exact ⟨cs, rfl⟩

/-- The parent takes a set flag back and ends the request; without the flag it
runs commands, and what follows it is reached if the stopping returns. -/
theorem uninstall_bind (classFile : ClassFile) (m : Machine) (next : Machine → Course Machine) :
    m.session.installerAbort = true ∧
      (uninstall found vars classFile m).bind next = .stop (takeBack m) ∨
    m.session.installerAbort = false ∧ ∃ cs,
      (uninstall found vars classFile m).bind next =
        if stops found classFile then next (after cs m) else .stop (after cs m) := by
  unfold uninstall
  by_cases hflag : m.session.installerAbort = true
  · rw [if_pos hflag]
    exact .inl ⟨hflag, rfl⟩
  · rw [if_neg hflag]
    refine .inr ⟨by simpa using hflag, ?_⟩
    obtain ⟨cs, hservice⟩ := @serviceUninstall_spec found vars classFile m
    refine ⟨cs, ?_⟩
    rw [hservice]
    split <;> rfl

/-- Some site names the PHP version. -/
def PhpInUse (db : Database) (instanceId : ℤ) : Prop :=
  ∃ id site, (id, site) ∈ db.sites.rows ∧ site.phpInstanceId = some instanceId

theorem phpSites_pos_iff {db : Database} : 0 < phpSites instanceId db ↔ PhpInUse db instanceId := by
  unfold phpSites PhpInUse
  rw [List.length_pos_iff_exists_mem]
  constructor
  · rintro ⟨⟨id, site⟩, hmem⟩
    obtain ⟨hrow, hnames⟩ := List.mem_filter.mp hmem
    exact ⟨id, site, hrow, by simpa using hnames⟩
  · rintro ⟨id, site, hrow, hnames⟩
    exact ⟨(id, site), List.mem_filter.mpr ⟨hrow, by simpa using hnames⟩⟩

instance (db : Database) (instanceId : ℤ) : Decidable (PhpInUse db instanceId) :=
  decidable_of_iff _ phpSites_pos_iff

/-- What refuses an uninstall: the flag, or a PHP version in use. -/
def Refused (classFile : ClassFile) (instanceId : ℤ) (m : Machine) : Prop :=
  m.session.installerAbort = true ∨ classFile.isPhp = true ∧ PhpInUse m.db instanceId

instance (classFile : ClassFile) (instanceId : ℤ) (m : Machine) :
    Decidable (Refused classFile instanceId m) := inferInstanceAs (Decidable (_ ∨ _))

/-- The PHP versions whose class file clears the references of sites. -/
def clearsPhpSites : ClassFile → Bool
  | .php74 | .php80 | .php81 | .php812 => true
  | _ => false

/-- Take an instance off all sites, by the kind of its class file. -/
def releaseSites (classFile : ClassFile) (instanceId : ℤ) (db : Database) : Database :=
  if classFile.isHttpd then
    { db with
      sites := db.sites.update (fun _ site => site.httpdInstanceId == some instanceId)
        fun site => { site with httpdInstanceId := none } }
  else if clearsPhpSites classFile then clearPhpSites instanceId db
  else db

/-- What a class file does between its parent and `postUninstall`. -/
def release (env : Env) (classFile : ClassFile) (instanceId : ℤ) (m : Machine) : Machine :=
  let m : Machine := { m with db := releaseSites classFile instanceId m.db }
  if classFile.isPhp then clearPhpDefault env instanceId m else m

theorem session_release {env : Env} {classFile : ClassFile} {instanceId : ℤ} (m : Machine) :
    (release env classFile instanceId m).session = m.session := by
  unfold release clearPhpDefault Machine.removeJunction
  simp only
  split_ifs <;> rfl

/-- An uninstall is refused, or it stops what runs and, if that returns, removes
the rows. -/
theorem uninstall_cases (classFile : ClassFile) (m : Machine) :
    Refused classFile instanceId m ∧
      classFile.uninstall env found vars instanceId m = .stop (takeBack m) ∨
    ¬ Refused classFile instanceId m ∧ ∃ cs,
      classFile.uninstall env found vars instanceId m =
        if stops found classFile then
          postUninstall found vars instanceId (release env classFile instanceId (after cs m))
        else .stop (after cs m) := by
  have hother : ∀ {c : ClassFile} {next : Machine → Course Machine}, c.isPhp = false →
      (∀ m, next m = postUninstall found vars instanceId (release env c instanceId m)) →
      Refused c instanceId m ∧ (uninstall found vars c m).bind next = .stop (takeBack m) ∨
      ¬ Refused c instanceId m ∧ ∃ cs, (uninstall found vars c m).bind next =
        if stops found c then
          postUninstall found vars instanceId (release env c instanceId (after cs m))
        else .stop (after cs m) := by
    intro c next hphp hnext
    rcases uninstall_bind c m next with ⟨hflag, hstop⟩ | ⟨hflag, cs, hdone⟩
    · exact .inl ⟨.inl hflag, hstop⟩
    · exact .inr ⟨by simp [Refused, hflag, hphp], cs, by rw [hdone, hnext]⟩
  have hversion : ∀ {c : ClassFile} {next : Machine → Course Machine}, c.isPhp = true →
      (∀ m, next m = postUninstall found vars instanceId (release env c instanceId m)) →
      Refused c instanceId m ∧
        (uninstall found vars c (checkInUse instanceId m)).bind next = .stop (takeBack m) ∨
      ¬ Refused c instanceId m ∧ ∃ cs,
        (uninstall found vars c (checkInUse instanceId m)).bind next =
          if stops found c then
            postUninstall found vars instanceId (release env c instanceId (after cs m))
          else .stop (after cs m) := by
    intro c next hphp hnext
    by_cases huse : PhpInUse m.db instanceId
    · have hset : (checkInUse instanceId m).session.installerAbort = true := by
        rw [checkInUse, if_pos (phpSites_pos_iff.mpr huse)]
      have hback : takeBack (checkInUse instanceId m) = takeBack m := by
        rw [checkInUse, if_pos (phpSites_pos_iff.mpr huse)]
        rfl
      rcases uninstall_bind c (checkInUse instanceId m) next with ⟨-, hstop⟩ | ⟨hflag, -⟩
      · exact .inl ⟨.inr ⟨hphp, huse⟩, by rw [hstop, hback]⟩
      · rw [hset] at hflag
        cases hflag
    · have hsame : checkInUse instanceId m = m :=
        if_neg fun hpos => huse (phpSites_pos_iff.mp hpos)
      rw [hsame]
      rcases uninstall_bind c m next with ⟨hflag, hstop⟩ | ⟨hflag, cs, hdone⟩
      · exact .inl ⟨.inl hflag, hstop⟩
      · exact .inr ⟨by simp [Refused, hflag, huse], cs, by rw [hdone, hnext]⟩
  have hinherited : ∀ {c : ClassFile}, c.isPhp = false → stops found c = false →
      Refused c instanceId m ∧ uninstall found vars c m = .stop (takeBack m) ∨
      ¬ Refused c instanceId m ∧ ∃ cs, uninstall found vars c m =
        if stops found c then
          postUninstall found vars instanceId (release env c instanceId (after cs m))
        else .stop (after cs m) := by
    intro c hphp hstops
    unfold uninstall
    by_cases hflag : m.session.installerAbort = true
    · rw [if_pos hflag]
      exact .inl ⟨.inl hflag, rfl⟩
    · rw [if_neg hflag]
      obtain ⟨cs, hservice⟩ := @serviceUninstall_spec found vars c m
      exact .inr ⟨by simp [Refused, hflag, hphp], cs, by rw [hservice, hstops]; rfl⟩
  cases classFile with
  | adminer | drupal | joomla | laravel | phpmyadmin | wordpress => exact hinherited rfl rfl
  | apache | nginx => exact hother rfl fun _ => rfl
  | php | php72 | php73 | php74 | php80 | php81 | php812 => exact hversion rfl fun _ => rfl
  | acrylic | mariadb | memcached | mongodb | mysql | mysql8 | postgresql | redis | wildthing =>
      exact hother rfl fun _ => rfl

/-- However it ends, an uninstall leaves the flag unset. -/
theorem flag_uninstall (classFile : ClassFile) (m : Machine) :
    (classFile.uninstall env found vars instanceId m).state.session.installerAbort = false := by
  rcases @uninstall_cases env found vars instanceId classFile m with
    ⟨-, hstop⟩ | ⟨hrefused, cs, hends⟩
  · rw [hstop]
    rfl
  · have hflag : (after cs m).session.installerAbort = false := by
      rw [← Bool.not_eq_true]
      exact fun hset => hrefused (.inl hset)
    rw [hends]
    split
    · show (release env classFile instanceId (after cs m)).session.installerAbort = false
      rw [session_release]
      exact hflag
    · exact hflag

/-! ## Requests -/

/-- A request finds the class file it runs. -/
def Runs (db : Database) (instanceId packageId : ℤ) (classFile : ClassFile) : Prop :=
  (controlPackage db instanceId packageId).bind PackageInfo.classFile = some classFile

instance (db : Database) (instanceId packageId : ℤ) (classFile : ClassFile) :
    Decidable (Runs db instanceId packageId classFile) := inferInstanceAs (Decidable (_ = _))

/-- A request runs the `uninstall` of a class file, or it finds none and dies
without doing anything. -/
theorem controlUninstall_cases (instanceId packageId : ℤ) (m : Machine) :
    (∃ classFile package, Runs m.db instanceId packageId classFile ∧
      controlPackage m.db instanceId packageId = some package ∧
      controlUninstall env found instanceId packageId m =
        classFile.uninstall env found (initVars env instanceId package) instanceId m) ∨
    (∀ classFile, ¬ Runs m.db instanceId packageId classFile) ∧
      controlUninstall env found instanceId packageId m = .stop m := by
  unfold controlUninstall Runs
  cases hpackage : controlPackage m.db instanceId packageId with
  | none => exact .inr ⟨by simp, rfl⟩
  | some package =>
      cases hclass : package.classFile with
      | none => exact .inr ⟨by simp [hclass], by simp only [hclass]⟩
      | some classFile =>
          exact .inl ⟨classFile, package, by simp [hclass], rfl, by simp only [hclass]⟩

/-- The machine after an uninstall that went through. -/
def removed (env : Env) (found : Found) (vars : InstanceVars) (classFile : ClassFile)
    (instanceId : ℤ) (cs : List Command) (m : Machine) : Machine :=
  (postUninstall found vars instanceId (release env classFile instanceId (after cs m))).state

/-- The uninstall with a class file removes the rows: it runs, nothing refuses it
and the stopping returns. -/
def GoesThrough (found : Found) (instanceId packageId : ℤ) (classFile : ClassFile)
    (m : Machine) : Prop :=
  Runs m.db instanceId packageId classFile ∧ ¬ Refused classFile instanceId m ∧
    stops found classFile = true

instance (found : Found) (instanceId packageId : ℤ) (classFile : ClassFile) (m : Machine) :
    Decidable (GoesThrough found instanceId packageId classFile m) :=
  inferInstanceAs (Decidable (_ ∧ _))

/-- An uninstall goes through, or it changes the flag of the session and the log of
commands only. -/
theorem controlUninstall_spec (env : Env) (found : Found) (instanceId packageId : ℤ)
    (m : Machine) :
    (∀ classFile, ¬ GoesThrough found instanceId packageId classFile m) ∧
      (∃ session cs, session.pdata = m.session.pdata ∧
        (controlUninstall env found instanceId packageId m).state =
          { m with session := session, commands := cs }) ∨
    ∃ classFile package cs, GoesThrough found instanceId packageId classFile m ∧
      controlPackage m.db instanceId packageId = some package ∧
      (controlUninstall env found instanceId packageId m).state =
        removed env found (initVars env instanceId package) classFile instanceId cs m := by
  rcases @controlUninstall_cases env found instanceId packageId m with
    ⟨classFile, package, hruns, hpackage, hcontrol⟩ | ⟨hnone, hdies⟩
  · have hunique : ∀ c, Runs m.db instanceId packageId c → c = classFile := by
      intro c hc
      exact Option.some.inj (hc.symm.trans hruns)
    rw [hcontrol]
    rcases @uninstall_cases env found (initVars env instanceId package) instanceId classFile m
      with ⟨hrefused, hstop⟩ | ⟨hrefused, cs, hends⟩
    · refine .inl ⟨?_, (takeBack m).session, m.commands, rfl, by rw [hstop]; rfl⟩
      rintro c ⟨hc, hnot, -⟩
      exact hnot (hunique c hc ▸ hrefused)
    · by_cases hstops : stops found classFile = true
      · rw [if_pos hstops] at hends
        exact .inr ⟨classFile, package, cs, ⟨hruns, hrefused, hstops⟩, hpackage,
          by rw [hends]; rfl⟩
      · rw [if_neg hstops] at hends
        refine .inl ⟨?_, m.session, m.commands ++ cs, rfl, by rw [hends]; rfl⟩
        rintro c ⟨hc, -, hyes⟩
        exact hstops (hunique c hc ▸ hyes)
  · exact .inl ⟨fun c hc => hnone c hc.1, m.session, m.commands, rfl, by rw [hdies]; rfl⟩

section Removed

variable {cs : List Command}

theorem release_eq (env : Env) (classFile : ClassFile) (instanceId : ℤ) (m : Machine) :
    ∃ conf junctions, release env classFile instanceId m =
      { m with
        db := { releaseSites classFile instanceId m.db with conf := conf }
        junctions := junctions } := by
  unfold release clearPhpDefault Machine.removeJunction
  simp only
  split_ifs <;> exact ⟨_, _, rfl⟩

theorem releaseSites_eq (classFile : ClassFile) (instanceId : ℤ) (db : Database) :
    releaseSites classFile instanceId db =
      { db with sites := (releaseSites classFile instanceId db).sites } := by
  unfold releaseSites clearPhpSites
  split_ifs <;> rfl

/-- The tables after an uninstall that went through. -/
theorem db_removed (env : Env) (found : Found) (vars : InstanceVars) (classFile : ClassFile)
    (instanceId : ℤ) (cs : List Command) (m : Machine) :
    ∃ conf, (removed env found vars classFile instanceId cs m).db =
      { m.db with
        conf := conf
        sites := (releaseSites classFile instanceId m.db).sites
        endpoints := m.db.endpoints.delete fun _ row => row.instanceId == instanceId
        instances := m.db.instances.delete fun id _ => id == instanceId } := by
  obtain ⟨conf, junctions, hrelease⟩ := release_eq env classFile instanceId (after cs m)
  refine ⟨conf, ?_⟩
  unfold removed
  rw [hrelease, releaseSites_eq]
  rfl

/-- The form of the session stays. -/
theorem pdata_removed :
    (removed env found vars classFile instanceId cs m).session.pdata = m.session.pdata := by
  obtain ⟨conf, junctions, hrelease⟩ := release_eq env classFile instanceId (after cs m)
  unfold removed
  rw [hrelease]
  rfl

end Removed

/-- A posted request to uninstall, with what it finds outside. -/
structure UninstallRequest where
  found : Found
  instanceId : ℤ
  packageId : ℤ

/-- An uninstall request, however it ends. -/
def UninstallStep (env : Env) (m : Machine) (request : UninstallRequest) (m' : Machine) : Prop :=
  m' = (controlUninstall env request.found request.instanceId request.packageId m).state

theorem flag_controlUninstall {packageId : ℤ} (m : Machine)
    (h : Runs m.db instanceId packageId classFile ∨ m.session.installerAbort = false) :
    (controlUninstall env found instanceId packageId m).state.session.installerAbort =
      false := by
  rcases @controlUninstall_cases env found instanceId packageId m with
    ⟨classFile', package, -, -, hruns⟩ | ⟨-, hdies⟩
  · rw [hruns]
    exact flag_uninstall classFile' m
  · rcases h with hruns | hflag
    · unfold Runs at hruns
      unfold controlUninstall at hdies ⊢
      cases hpackage : controlPackage m.db instanceId packageId with
      | none => simp [hpackage] at hruns
      | some package =>
          rw [hpackage] at hruns
          have hclass : package.classFile = some classFile := hruns
          simp only [hclass]
          exact flag_uninstall classFile m
    · rw [hdies]
      exact hflag

/-- A PHP version that some site names is not uninstalled: the request ends with
nothing changed but the flag, which it leaves unset. Every request for an
instance with a class file leaves it unset, so over runs of requests it refuses
no uninstall of its own. -/
theorem php_in_use_refused (env : Env) :
    (∀ (found : Found) (instanceId packageId : ℤ) (classFile : ClassFile) (m : Machine),
      Runs m.db instanceId packageId classFile → classFile.isPhp = true →
      PhpInUse m.db instanceId →
      controlUninstall env found instanceId packageId m =
        .stop { m with session := { m.session with installerAbort := false } }) ∧
    (∀ (found : Found) (instanceId packageId : ℤ) (classFile : ClassFile) (m : Machine),
      Runs m.db instanceId packageId classFile →
      (controlUninstall env found instanceId packageId m).state.session.installerAbort =
        false) ∧
    ∀ (m₀ m : Machine) (requests : List UninstallRequest),
      m₀.session.installerAbort = false → Transition.Run (UninstallStep env) m₀ requests m →
      ∀ (classFile : ClassFile) (instanceId : ℤ), Refused classFile instanceId m ↔
        classFile.isPhp = true ∧ PhpInUse m.db instanceId := by
  refine ⟨?_, ?_, ?_⟩
  · intro found instanceId packageId classFile m hruns hphp huse
    unfold Runs at hruns
    unfold controlUninstall
    cases hpackage : controlPackage m.db instanceId packageId with
    | none => simp [hpackage] at hruns
    | some package =>
        rw [hpackage] at hruns
        have hclass : package.classFile = some classFile := hruns
        simp only [hclass]
        rcases @uninstall_cases env found (initVars env instanceId package) instanceId
          classFile m with ⟨-, hstop⟩ | ⟨hrefused, -⟩
        · exact hstop
        · exact absurd (.inr ⟨hphp, huse⟩) hrefused
  · intro found instanceId packageId classFile m hruns
    exact flag_controlUninstall m (.inl hruns)
  · intro m₀ m requests hstart run classFile instanceId
    have hflag : m.session.installerAbort = false := by
      apply run.invariant (fun m => m.session.installerAbort = false) hstart
      intro s request t hs hstep
      rw [hstep]
      exact @flag_controlUninstall env request.found request.instanceId .php request.packageId
        s (.inr hs)
    simp [Refused, hflag]

/-! ## A run on fixed inputs -/

/-- The small deployment with a PHP version and a site that names it. -/
def sampleDatabase : Database :=
  let text (s : String) : SqlValue := .text s.toList
  { Site.sampleDatabase with
    vendors := Site.sampleDatabase.vendors.insert ⟨text "php", .null, text "php", .null⟩
    packages := Site.sampleDatabase.packages.insert
      ⟨text "8.1.2", text "php8.1.2.php", text "php-cgi.exe", .null, .null, text "x64", .null,
        .null, .int 3, .int 0⟩
    instances := Site.sampleDatabase.instances.insert ⟨3, .null, some "3-php_8.1.2_x64".toList⟩
    sites := Table.empty.insert ⟨"a".toList, [], [], "C:\\www".toList, some 1, some 3⟩
    conf := [(phpDefault, text "3")] }

/-- A machine with these tables and a session without a flag. -/
def sampleMachine : Machine where
  db := sampleDatabase
  hosts := []
  disk := .empty
  session := ⟨none, none, false⟩
  junctions := fun _ => none
  files := .empty
  unpacked := fun _ => none
  commands := []

/-- The PHP version in use stays, its service running. -/
theorem php_in_use_refused_sample :
    (controlUninstall Site.sampleEnv ⟨true, true, true, true⟩ 3 0 sampleMachine).state =
      sampleMachine := by
  rw [(php_in_use_refused Site.sampleEnv).1 ⟨true, true, true, true⟩ 3 0 .php812 sampleMachine
    (by decide) rfl ⟨1, _, List.mem_cons_self, rfl⟩]
  rfl

end Instance

end WampManager
