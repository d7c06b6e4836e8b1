/-
# The manager's database

The tables of `manager.db` that the modelled classes read and write, as one
record. Rows keep the columns of the schema that some modelled function uses.
A statement is modelled by what it does to the tables; parameter binding has no
model of its own here. The column affinity of SQLite decides what is stored:
an INTEGER column turns numeric text into a number, and which text is numeric
is the engine's business, so that conversion is a parameter.
-/

import WampManager.Lib.Loose
import WampManager.Lib.Table
import WampManager.Lib.Text

namespace WampManager

/-- The decimal text of an integer, as `%d` prints it. -/
def decimal : ℤ → Text
  | .ofNat n => Nat.toDigits 10 n
  | .negSucc n => '-' :: Nat.toDigits 10 (n + 1)

/-- The sign and the digits in front of a hyphen can be read back. -/
theorem decimal_append_inj {i j : ℤ} {s t : Text}
    (h : decimal i ++ '-' :: s = decimal j ++ '-' :: t) : i = j := by
  have hdigits : ∀ {m n : ℕ} {s t : Text},
      Nat.toDigits 10 m ++ '-' :: s = Nat.toDigits 10 n ++ '-' :: t → m = n := by
    intro m n s t h
    have htake : ∀ (k : ℕ) (u : Text),
        (Nat.toDigits 10 k ++ '-' :: u).takeWhile Char.isDigit = Nat.toDigits 10 k := by
      intro k u
      rw [List.takeWhile_append_of_pos
        fun c hc => Nat.isDigit_of_mem_toDigits (by decide) (by decide) hc]
      simp
    have hsame := congrArg (List.takeWhile Char.isDigit) h
    rw [htake, htake] at hsame
    rw [← Nat.ofDigitChars_ten_toDigits (n := m), hsame, Nat.ofDigitChars_ten_toDigits]
  have hsign : ∀ {m n : ℕ} {s t : Text},
      Nat.toDigits 10 m ++ '-' :: s ≠ '-' :: Nat.toDigits 10 n ++ '-' :: t := by
    intro m n s t h
    obtain ⟨c, rest, hcons⟩ := List.exists_cons_of_ne_nil (Nat.toDigits_ne_nil (n := m) (b := 10))
    have hc : c.isDigit := Nat.isDigit_of_mem_toDigits (b := 10) (n := m)
      (by decide) (by decide) (by simp [hcons])
    rw [hcons, List.cons_append, List.cons_append] at h
    rw [(List.cons.inj h).1] at hc
    exact absurd hc (by decide)
  cases i with
  | ofNat m =>
      cases j with
      | ofNat n => rw [hdigits h]
      | negSucc n => exact absurd h hsign
  | negSucc m =>
      cases j with
      | ofNat n => exact absurd h.symm hsign
      | negSucc n =>
          have hsame := hdigits (List.cons.inj h).2
          rw [Nat.succ.inj hsame]

theorem decimal_injective {i j : ℤ} (h : decimal i = decimal j) : i = j :=
  decimal_append_inj (s := []) (t := []) (by rw [h])

theorem lower_decimal (i : ℤ) : Text.lower (decimal i) = decimal i := by
  have hdigits : ∀ n : ℕ, Text.lower (Nat.toDigits 10 n) = Nat.toDigits 10 n := by
    intro n
    rw [Text.lower, List.map_congr_left (g := id), List.map_id]
    intro c hc
    exact Text.toLower_eq_self (.inl (Nat.isDigit_of_mem_toDigits (by decide) (by decide) hc))
  cases i with
  | ofNat n => exact hdigits n
  | negSucc n => exact congrArg ('-' :: ·) (hdigits (n + 1))

/-- A stored value. A real number is kept as the text it prints as. -/
inductive SqlValue
  | null
  | int (n : ℤ)
  | real (digits : Text)
  | text (t : Text)
  deriving DecidableEq

namespace SqlValue

/-- The value in a string context; NULL is the empty text. -/
def toText : SqlValue → Text
  | .null => []
  | .int n => decimal n
  | .real digits => digits
  | .text t => t

/-- The value as the driver hands it out: NULL as null, all else as text. -/
def toScalar : SqlValue → Loose.Scalar
  | .null => .null
  | value => .text value.toText

/-- What a TEXT column stores. -/
def asText : SqlValue → SqlValue
  | .null => .null
  | value => .text value.toText

end SqlValue

/-- The database engine: how an INTEGER column reads a text. -/
structure Sqlite where
  integerAffinity : Text → SqlValue

/-- What an INTEGER column stores. -/
def Sqlite.asInteger (sqlite : Sqlite) : SqlValue → SqlValue
  | .text t => sqlite.integerAffinity t
  | value => value

/-- `vendor`, without its key. -/
structure VendorRow where
  title : SqlValue
  description : SqlValue
  type : SqlValue
  logo : SqlValue
  deriving DecidableEq

/-- `package`, without its key. -/
structure PackageRow where
  version : SqlValue
  classFile : SqlValue
  process : SqlValue
  confFile : SqlValue
  logFile : SqlValue
  arch : SqlValue
  filesize : SqlValue
  filehash : SqlValue
  vendorId : SqlValue
  disabled : SqlValue
  deriving DecidableEq

/-- `instance`, without its key; the name is NULL until the install sets it. -/
structure InstanceRow where
  packageId : ℤ
  label : SqlValue
  name : Option Text
  deriving DecidableEq

/-- `endpoint`, without its key. -/
structure EndpointRow where
  instanceId : ℤ
  proto : Text
  interface : SqlValue
  port : SqlValue
  type : Option Text
  deriving DecidableEq

/-- `site`, without its key. -/
structure SiteRow where
  name : Text
  sslKey : Text
  sslCrt : Text
  documentRoot : Text
  httpdInstanceId : Option ℤ
  phpInstanceId : Option ℤ
  deriving DecidableEq

/-- `alias`, without its key. -/
structure AliasRow where
  siteId : ℤ
  aliasText : Text
  deriving DecidableEq

/-- The tables. -/
structure Database where
  conf : List (Text × SqlValue)
  vendors : Table VendorRow
  packages : Table PackageRow
  instances : Table InstanceRow
  endpoints : Table EndpointRow
  sites : Table SiteRow
  aliases : Table AliasRow

namespace Database

/-- A database with empty tables. -/
def empty : Database where
  conf := []
  vendors := .empty
  packages := .empty
  instances := .empty
  endpoints := .empty
  sites := .empty
  aliases := .empty

/-- `get`: the value of a conf row; none when there is no such row. -/
def get (db : Database) (name : Text) : Option SqlValue :=
  (db.conf.find? (·.1 == name)).map Prod.snd

/-- `set`: an UPDATE, so a missing row stays missing. -/
def set (db : Database) (name : Text) (value : SqlValue) : Database :=
  { db with conf := db.conf.map fun row => if row.1 = name then (name, value) else row }

/-- Reading back a value that was written: present exactly if the row was. -/
theorem get_set_self (db : Database) (name : Text) (value : SqlValue) :
    (db.set name value).get name = (db.get name).map fun _ => value := by
  unfold get set
  induction db.conf with
  | nil => rfl
  | cons row conf ih =>
      by_cases hrow : row.1 = name
      · simp [hrow]
      · simpa [hrow] using ih

theorem get_set_of_ne (db : Database) {name other : Text} (value : SqlValue)
    (h : other ≠ name) : (db.set name value).get other = db.get other := by
  unfold get set
  induction db.conf with
  | nil => rfl
  | cons row conf ih =>
      rw [List.map_cons, List.find?_cons, List.find?_cons]
      by_cases hname : row.1 = name
      · have hother : (name == other) = false := beq_eq_false_iff_ne.mpr h.symm
        rw [if_pos hname, hname, hother]
        exact ih
      · rw [if_neg hname]
        cases row.1 == other with
        | true => rfl
        | false => exact ih

end Database

/-- A package row with the vendor columns the joins add. -/
structure PackageInfo where
  id : ℤ
  row : PackageRow
  title : SqlValue
  description : SqlValue
  deriving DecidableEq

namespace Package

/-- The vendor a package row refers to. -/
def vendorOf (db : Database) (row : PackageRow) : Option VendorRow :=
  match row.vendorId with
  | .int id => db.vendors.find? id
  | _ => none

/-- `Package::getById`: the package joined with its vendor. -/
def getById (db : Database) (packageId : ℤ) : Option PackageInfo := do
  let row ← db.packages.find? packageId
  let vendor ← vendorOf db row
  return ⟨packageId, row, vendor.title, vendor.description⟩

/-- `Package::getByInstanceId`. -/
def getByInstanceId (db : Database) (instanceId : ℤ) : Option PackageInfo := do
  let row ← db.instances.find? instanceId
  getById db row.packageId

end Package

end WampManager
