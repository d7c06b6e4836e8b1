/-
# The database of an application

An application can ask for a new database. The form is accepted when a name is posted
that the server does not list; the install then puts the name as it is into a statement,
passes over what becomes of it, and writes the name into the configuration.
-/

import WampManager.AppInstall
import WampManager.Connections
import WampManager.Lib.SqlName

namespace WampManager

namespace Installer

open Instance (AppForm)
open QDB (Connection)

/-- `Installer::form_database_validate`; no error means that the form is accepted. -/
def formDatabaseValidate (answer : Connection → Text → Option (List Text)) (db : Database)
    (form : AppForm) : List FormError :=
  if form.dbType = "none".toList then []
  else if form.databaseId = -1 then [⟨"database_id".toList, "Please select an option".toList⟩]
  else if isEmpty form.dbName then [⟨"db_name".toList, "This is a required field".toList⟩]
  else if form.dbType = "new".toList ∨ form.dbType = "existing".toList then
    match QDB.databaseExists answer db form.databaseId form.dbName with
    | none => [⟨"database_id".toList, "Could not connect to database. Is it running?".toList⟩]
    | some true =>
        if form.dbType = "new".toList then
          [⟨"db_name".toList, "Database already exists".toList⟩]
        else []
    | some false =>
        if form.dbType = "existing".toList then [⟨"db_name".toList, "No such database".toList⟩]
        else []
  else []

/-- What an install does about its database, and what it tells about that. -/
structure DatabaseSetup where
  sent : Option (Connection × Text)
  /-- What came back, if nothing went wrong. -/
  result : Option ℕ
  configured : Option Text
  errors : List Text

/-- The beginning of the `install` of an application with a database. An exception is
logged in `QDB::__callStatic`, and what `QDB::createDatabase` returns is not looked at. -/
def setUpDatabase (execute : Connection → Text → Except Text ℕ) (db : Database)
    (form : AppForm) : DatabaseSetup :=
  if form.dbType = "none".toList then ⟨none, none, none, []⟩
  else if form.dbType = "new".toList then
    let sent := QDB.createDatabase db form.databaseId form.dbName
    ⟨some sent, (execute sent.1 sent.2).toOption, some form.dbName, []⟩
  else ⟨none, none, some form.dbName, []⟩

variable (server : SqlName.Server) (answer : Connection → Text → Option (List Text))
  (execute : Connection → Text → Except Text ℕ) (db : Database) (form : AppForm)

/-- For an accepted form with a new database, what is sent creates the database with
the posted name and this name is configured, or an error is told. -/
def CreatesConfigured : Prop :=
  formDatabaseValidate answer db form = [] → form.dbType = "new".toList →
    (∃ sent ∈ (setUpDatabase execute db form).sent,
      server.created sent.2 = some form.dbName ∧
        (setUpDatabase execute db form).configured = some form.dbName) ∨
      (setUpDatabase execute db form).errors ≠ []

/-- A new database is created under its own name exactly if the server takes the name
for a name as it stands; no error is ever told. -/
theorem createsConfigured_iff :
    CreatesConfigured server answer execute db form ↔
      (formDatabaseValidate answer db form = [] → form.dbType = "new".toList →
        server.Names form.dbName) := by
  refine forall_congr' fun _ => forall_congr' fun hnew => ?_
  have hsetup : setUpDatabase execute db form =
      ⟨some (QDB.createDatabase db form.databaseId form.dbName),
        (execute (QDB.createDatabase db form.databaseId form.dbName).1
          (QDB.createDatabase db form.databaseId form.dbName).2).toOption,
        some form.dbName, []⟩ := by
    rw [setUpDatabase, if_neg (by rw [hnew]; decide), if_pos hnew]
  have hsql : (QDB.createDatabase db form.databaseId form.dbName).2 =
      "CREATE DATABASE ".toList ++ form.dbName ++ [';'] := rfl
  rw [hsetup]
  constructor
  · rintro (⟨sent, hsent, hcreated, -⟩ | herrors)
    · obtain rfl := Option.some.inj hsent
      rw [hsql, server.created_iff] at hcreated
      exact hcreated
    · exact absurd rfl herrors
  · intro hnames
    refine .inl ⟨_, rfl, ?_, rfl⟩
    rw [hsql, server.created_iff]
    exact hnames

/-- All that an accepted form says about the name: it is not empty and not listed. -/
theorem name_of_accepted (h : formDatabaseValidate answer db form = [])
    (hnew : form.dbType = "new".toList) :
    isEmpty form.dbName = false ∧
      QDB.databaseExists answer db form.databaseId form.dbName = some false := by
  have hnone : form.dbType ≠ "none".toList := by
    rw [hnew]
    decide
  have hkind : form.dbType = "new".toList ∨ form.dbType = "existing".toList := .inl hnew
  rw [formDatabaseValidate, if_neg hnone, if_pos hkind, if_pos hnew] at h
  split_ifs at h with hid hempty hother
  · rw [hnew] at hother
    exact absurd hother (by decide)
  · cases hexists : QDB.databaseExists answer db form.databaseId form.dbName with
    | none => simp [hexists] at h
    | some listed =>
        cases listed with
        | false => exact ⟨Bool.eq_false_iff.mpr hempty, rfl⟩
        | true => simp [hexists] at h

/-! ## A name with a hyphen -/

/-- MySQL with the settings that a file system with capitals brings. -/
def sampleServer : SqlName.Server where
  dialect := .mysql
  fold := id
  fold_pgsql := fun h => nomatch h
  reserved := fun w => w ∈ ["order".toList, "group".toList, "if".toList, "key".toList]
  gap := List.dropWhile (· == ' ')
  gap_suffix := fun t => List.dropWhile_suffix _
  gap_solid := by
    intro c t hc
    have hblank : (c == ' ') = false := by
      rw [beq_eq_false_iff_ne]
      rintro rfl
      revert hc
      decide
    rw [List.dropWhile_cons, hblank]
    rfl
  ends := fun t => t == [';']
  ends_semicolon := rfl

/-- A server behind an endpoint. -/
def sampleDatabases : Database :=
  { Database.empty with
    instances := Table.empty.insert ⟨1, .text "MySQL".toList, some "mysql-8".toList⟩
    endpoints := Table.empty.insert
      ⟨1, "tcp".toList, .text "127.0.0.1".toList, .text "3306".toList, some "mysql".toList⟩ }

/-- `my-shop` is accepted, no server reads it as a name, and nothing is told. -/
theorem hyphen_is_no_name :
    ¬ CreatesConfigured sampleServer (fun _ _ => some ["mysql".toList])
      (fun _ _ => .error "1064".toList) sampleDatabases
      ⟨"new".toList, 1, "my-shop".toList, [], [], false⟩ := by
  intro h
  have haccepted : formDatabaseValidate (fun _ _ => some ["mysql".toList]) sampleDatabases
      ⟨"new".toList, 1, "my-shop".toList, [], [], false⟩ = [] := by
    decide +kernel
  obtain ⟨sent, hsent, hcreated, -⟩ | herrors := h haccepted rfl
  · obtain rfl := Option.some.inj hsent
    revert hcreated
    decide +kernel
  · exact herrors rfl

end Installer

end WampManager
