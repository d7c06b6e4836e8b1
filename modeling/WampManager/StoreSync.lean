/-
# Syncing the store

`UpdateController::sync` asks the store for its packages and replaces the vendor
and the package table by what comes back: two loops of deleting and filling and
an update of the hash, statement by statement and without a transaction. Only
two replies are told apart from a payload; a connection that failed, a text
that is no JSON and a JSON without the lists all go on to the deletions.
-/

import WampManager.Database
import WampManager.Lib.Json

namespace WampManager

/-- The engines behind the statements: SQLite, and how a real number prints. -/
structure Engine where
  sqlite : Sqlite
  doubleText : Text → Text

namespace Update

open Loose (Scalar looseEq)

/-! ## Binding values -/

/-- The integer a number literal denotes, if it is one and fits. -/
def intOf (literal : Text) : Option ℤ :=
  let (negative, digits) := Loose.sign literal
  if literal ≠ "-0".toList ∧ digits.all Char.isDigit ∧
      Loose.fits negative (Loose.value digits) then
    some (if negative then -(Loose.value digits : ℤ) else Loose.value digits)
  else none

/-- What `_bind` binds for a plain value; an object cannot be converted. -/
def bindValue (engine : Engine) : Json → Option SqlValue
  | .null => some .null
  | .bool b => some (.int (if b then 1 else 0))
  | .number literal =>
      some (match intOf literal with
        | some n => .int n
        | none => .text (engine.doubleText literal))
  | .string t => some (.text t)
  | .array _ => some (.text "Array".toList)
  | .object _ => none

/-- What `_prepare` and `_bind` make of one value. A list takes the place of its
items, so only a list of one item leaves a statement that can be run; with none
the request dies. -/
def bind (engine : Engine) : Json → Option SqlValue
  | .array [item] => bindValue engine item
  | .array _ => none
  | json => bindValue engine json

/-- The key and the row of one vendor. -/
def vendorRow (engine : Engine) (v : Json) : Option (SqlValue × VendorRow) := do
  let id ← bind engine (v.get "id")
  let title ← bind engine (v.get "title")
  let description ← bind engine (v.get "description")
  let type ← bind engine (v.get "type")
  let logo ← bind engine (v.get "logo")
  let asInteger := engine.sqlite.asInteger
  return (asInteger id, ⟨asInteger title, asInteger description, type.asText, logo.asText⟩)

/-- The key and the row of one package. -/
def packageRow (engine : Engine) (p : Json) : Option (SqlValue × PackageRow) := do
  let id ← bind engine (p.get "id")
  let version ← bind engine (p.get "version")
  let classFile ← bind engine (p.get "class_file")
  let process ← bind engine (p.get "process")
  let confFile ← bind engine (p.get "conf_file")
  let logFile ← bind engine (p.get "log_file")
  let arch ← bind engine (p.get "arch")
  let filesize ← bind engine (p.get "filesize")
  let filehash ← bind engine (p.get "filehash")
  let vendorId ← bind engine (p.get "vendor_id")
  let disabled ← bind engine (p.get "disabled")
  let asInteger := engine.sqlite.asInteger
  return (asInteger id,
    { version := version.asText
      classFile := classFile.asText
      process := process.asText
      confFile := confFile.asText
      logFile := logFile.asText
      arch := asInteger arch
      filesize := asInteger filesize
      filehash := filehash.asText
      vendorId := asInteger vendorId
      disabled := asInteger disabled })

universe u

variable {ρ : Type u}

/-- `INSERT` with a key: NULL takes the next one; a key in use and a key that is
no integer are refused, and the statement fails without a word. -/
def insertKeyed (t : Table ρ) (key : SqlValue) (row : ρ) : Table ρ :=
  match key with
  | .null => t.insert row
  | .int id => (t.insertAt id row).getD t
  | _ => t

/-- How far a request has come. -/
inductive Progress (α : Type u)
  | going (state : α)
  | died (state : α)

/-- The loop that fills a table. -/
def fill (read : Json → Option (SqlValue × ρ)) : List Json → Table ρ → Progress (Table ρ)
  | [], t => .going t
  | item :: items, t =>
      match read item with
      | none => .died t
      | some (key, row) => fill read items (insertKeyed t key row)

/-- `DELETE FROM`. -/
def clear (t : Table ρ) : Table ρ := t.delete fun _ _ => true

/-- What `foreach` goes through. -/
def foreach (json : Json) : List Json := json.values?.getD []

/-! ## The request -/

/-- `store_hash`. -/
def storeHash : Text := "store_hash".toList

/-- How a request ends. -/
inductive Result
  | refused (notice : Text) (db : Database)
  | updated (db : Database)
  | died (db : Database)

/-- The database a request leaves. -/
def Result.db : Result → Database
  | .refused _ db => db
  | .updated db => db
  | .died db => db

/-- `get`, as the query hands the value out: false without a row. -/
def getScalar (db : Database) (name : Text) : Scalar :=
  match db.get name with
  | some value => value.toScalar
  | none => .bool false

/-- A reply as a value: null when the connection failed. -/
def replyScalar : Option Text → Scalar
  | some data => .text data
  | none => .null

/-- The last statement, `set('store_hash', ..)`. -/
def setHash (engine : Engine) (json : Json) (db : Database) : Result :=
  match bind engine (json.get "hash") with
  | none => .died db
  | some hash => .updated (db.set storeHash hash.asText)

/-- Replace the packages, then set the hash. -/
def replacePackages (engine : Engine) (json : Json) (db : Database) : Result :=
  match fill (packageRow engine) (foreach ((json.get "store").get "package"))
      (clear db.packages) with
  | .died packages => .died { db with packages := packages }
  | .going packages => setHash engine json { db with packages := packages }

/-- Replace the vendors, then the packages. -/
def replaceTables (engine : Engine) (json : Json) (db : Database) : Result :=
  match fill (vendorRow engine) (foreach ((json.get "store").get "vendor"))
      (clear db.vendors) with
  | .died vendors => .died { db with vendors := vendors }
  | .going vendors => replacePackages engine json { db with vendors := vendors }

/-- `UpdateController::sync`, for the reply of the store. -/
def sync (engine : Engine) (reply : Option Text) (db : Database) : Result :=
  let data := replyScalar reply
  if looseEq data (.text "-1".toList) then
    .refused ("You are required to be on the latest version of Wamp.NET in order to " ++
      "sync packages.").toList db
  else if looseEq data (getScalar db storeHash) then
    .refused "You are already in sync!".toList db
  else replaceTables engine (Json.decode (reply.getD [])) db

end Update

end WampManager
