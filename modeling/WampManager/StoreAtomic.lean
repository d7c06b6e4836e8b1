/-
# What a sync leaves of the store

A payload lists rows that can be stored under keys of their own, and a hash. A
sync that gets a payload leaves exactly its rows; one that is told to stop leaves
what it found. Any other reply goes through the same deletions, and what it does
not list is gone.
-/

import WampManager.StoreSync

namespace WampManager

namespace Update

open Loose (looseEq)

/-- The contents of the two tables, and the hash. -/
structure Payload where
  vendors : List (ℤ × VendorRow)
  packages : List (ℤ × PackageRow)
  hash : SqlValue

universe u

variable {ρ : Type u}

/-- The rows that a list gives, each under a key of its own. -/
def rowsOf (read : Json → Option (SqlValue × ρ)) : List Json → Option (List (ℤ × ρ))
  | [] => some []
  | item :: items =>
      match read item, rowsOf read items with
      | some (.int id, row), some rows =>
          if id ∈ rows.map Prod.fst then none else some ((id, row) :: rows)
      | _, _ => none

/-- The items of one of the lists of a reply. -/
def itemsOf (reply : Option Text) (list : String) : Json :=
  ((Json.decode (reply.getD [])).get "store").get list

/-- The payload of a reply, if it is one. -/
def payload? (engine : Engine) (reply : Option Text) : Option Payload := do
  let vendors ← (itemsOf reply "vendor").values?
  let packages ← (itemsOf reply "package").values?
  let vendorRows ← rowsOf (vendorRow engine) vendors
  let packageRows ← rowsOf (packageRow engine) packages
  let hash ← bind engine ((Json.decode (reply.getD [])).get "hash")
  return ⟨vendorRows, packageRows, hash.asText⟩

/-- The tables and the hash are as they were. -/
structure Unchanged (db db' : Database) : Prop where
  vendors : db'.vendors.rows = db.vendors.rows
  packages : db'.packages.rows = db.packages.rows
  hash : db'.get storeHash = db.get storeHash

/-- The tables and the hash are those of a payload. -/
structure Holds (payload : Payload) (db' : Database) : Prop where
  vendors : db'.vendors.rows = payload.vendors
  packages : db'.packages.rows = payload.packages
  hash : db'.get storeHash = some payload.hash

/-- All as before, or all as in the payload that came. -/
def AllOrNothing (engine : Engine) (reply : Option Text) (db db' : Database) : Prop :=
  Unchanged db db' ∨ ∃ payload ∈ payload? engine reply, Holds payload db'

/-- The reply says that there is nothing to do: the version is too old, or the hash
is the one that is stored. -/
def Skipped (reply : Option Text) (db : Database) : Prop :=
  looseEq (replyScalar reply) (.text "-1".toList) = true ∨
    looseEq (replyScalar reply) (getScalar db storeHash) = true

instance (reply : Option Text) (db : Database) : Decidable (Skipped reply db) :=
  inferInstanceAs (Decidable (_ ∨ _))

/-- A row of a table that no item of a list gives. -/
def Unlisted (read : Json → Option (SqlValue × ρ)) (items : List Json) (table : Table ρ) : Prop :=
  ∃ row ∈ table.rows, ∀ item ∈ items, ∀ key, read item ≠ some (key, row.2)

/-- The reply leaves out a vendor that is stored, or it reads as vendors throughout
and leaves out a package. -/
def LeavesOut (engine : Engine) (reply : Option Text) (db : Database) : Prop :=
  Unlisted (vendorRow engine) (foreach (itemsOf reply "vendor")) db.vendors ∨
  (∀ item ∈ foreach (itemsOf reply "vendor"), (vendorRow engine item).isSome) ∧
    Unlisted (packageRow engine) (foreach (itemsOf reply "package")) db.packages

variable {engine : Engine} {reply : Option Text} {db : Database}
  {read : Json → Option (SqlValue × ρ)}

/-! ## Filling a table -/

/-- The table a request has come to. -/
def Progress.state {α : Type u} : Progress α → α
  | .going state => state
  | .died state => state

/-- Rows under keys of their own are all stored, in their order. -/
theorem fill_of_rowsOf {items : List Json} {rows : List (ℤ × ρ)}
    (h : rowsOf read items = some rows) (t : Table ρ)
    (hfree : ∀ row ∈ rows, row.1 ∉ t.rows.map Prod.fst) :
    ∃ t', fill read items t = .going t' ∧ t'.rows = t.rows ++ rows := by
  induction items generalizing rows t with
  | nil =>
      obtain rfl := Option.some.inj h
      exact ⟨t, rfl, by simp⟩
  | cons item items ih =>
      unfold rowsOf at h
      split at h
      case h_2 => cases h
      next id row rest hread hrest =>
        split at h
        next => cases h
        next hnew =>
          obtain rfl := Option.some.inj h
          have hid : id ∉ t.rows.map Prod.fst := hfree (id, row) List.mem_cons_self
          obtain ⟨t₁, hinsert⟩ : ∃ t₁, t.insertAt id row = some t₁ := by
            unfold Table.insertAt
            rw [dif_neg hid]
            exact ⟨_, rfl⟩
          have hrows : t₁.rows = t.rows ++ [(id, row)] := by
            unfold Table.insertAt at hinsert
            rw [dif_neg hid] at hinsert
            rw [← Option.some.inj hinsert]
          obtain ⟨t', hfill, ht'⟩ := ih hrest t₁ (by
            intro other hother
            rw [hrows, List.map_append, List.mem_append]
            rintro (hold | hsame)
            · exact hfree other (List.mem_cons_of_mem _ hother) hold
            · have hkey : other.1 = id := by simpa using hsame
              exact hnew (hkey ▸ List.mem_map_of_mem hother))
          refine ⟨t', ?_, ?_⟩
          · rw [fill, hread]
            show fill read items ((t.insertAt id row).getD t) = _
            rw [hinsert]
            exact hfill
          · rw [ht', hrows, List.append_assoc]
            rfl

theorem rows_clear (t : Table ρ) : (clear t).rows = [] := by
  simp [clear]

/-- An emptied table that a list is read into holds what the list gives. -/
theorem fill_clear {items : List Json} {rows : List (ℤ × ρ)}
    (h : rowsOf read items = some rows) (t : Table ρ) :
    ∃ t', fill read items (clear t) = .going t' ∧ t'.rows = rows := by
  obtain ⟨t', hfill, hrows⟩ := fill_of_rowsOf h (clear t) (by simp [rows_clear])
  exact ⟨t', hfill, by rw [hrows, rows_clear, List.nil_append]⟩

theorem mem_insertKeyed {t : Table ρ} {key : SqlValue} {new : ρ} {row : ℤ × ρ}
    (h : row ∈ (insertKeyed t key new).rows) : row ∈ t.rows ∨ row.2 = new := by
  unfold insertKeyed at h
  split at h
  · rcases List.mem_append.mp h with hold | hnew
    · exact .inl hold
    · exact .inr (by rw [List.mem_singleton.mp hnew])
  · next id =>
    unfold Table.insertAt at h
    split at h
    · exact .inl h
    · rcases List.mem_append.mp h with hold | hnew
      · exact .inl hold
      · exact .inr (by rw [List.mem_singleton.mp hnew])
  · exact .inl h

/-- Filling adds only what some item gives. -/
theorem mem_fill {items : List Json} {t : Table ρ} {row : ℤ × ρ}
    (h : row ∈ (fill read items t).state.rows) :
    row ∈ t.rows ∨ ∃ item ∈ items, ∃ key, read item = some (key, row.2) := by
  induction items generalizing t with
  | nil => exact .inl h
  | cons item items ih =>
      unfold fill at h
      split at h
      · exact .inl h
      · next key new hread =>
        rcases ih h with hold | ⟨other, hother, key', hgives⟩
        · rcases mem_insertKeyed hold with holder | hnew
          · exact .inl holder
          · exact .inr ⟨item, List.mem_cons_self, key, by rw [hread, hnew]⟩
        · exact .inr ⟨other, List.mem_cons_of_mem _ hother, key', hgives⟩

/-- A list whose items can all be read is gone through. -/
theorem fill_going {items : List Json} (h : ∀ item ∈ items, (read item).isSome) (t : Table ρ) :
    ∃ t', fill read items t = .going t' := by
  induction items generalizing t with
  | nil => exact ⟨t, rfl⟩
  | cons item items ih =>
      obtain ⟨⟨key, row⟩, hread⟩ := Option.isSome_iff_exists.mp (h item List.mem_cons_self)
      obtain ⟨t', hfill⟩ := ih (fun other hother => h other (List.mem_cons_of_mem _ hother))
        (insertKeyed t key row)
      exact ⟨t', by rw [fill, hread]; exact hfill⟩

/-- What a list does not give is not in an emptied table that it is read into. -/
theorem rows_fill_ne_of_unlisted {items : List Json} {t : Table ρ}
    (h : Unlisted read items t) : (fill read items (clear t)).state.rows ≠ t.rows := by
  obtain ⟨row, hrow, hunlisted⟩ := h
  intro hsame
  rcases mem_fill (hsame ▸ hrow) with hold | ⟨item, hitem, key, hgives⟩
  · rw [rows_clear] at hold
    exact absurd hold List.not_mem_nil
  · exact hunlisted item hitem key hgives

/-! ## The request -/

theorem db_sync_of_skipped (h : Skipped reply db) : (sync engine reply db).db = db := by
  unfold sync
  simp only
  split
  · rfl
  · next hversion =>
    rcases h with habsurd | hhash
    · exact absurd habsurd hversion
    · rw [if_pos hhash]
      rfl

theorem sync_of_not_skipped (h : ¬ Skipped reply db) :
    sync engine reply db = replaceTables engine (Json.decode (reply.getD [])) db := by
  unfold sync
  simp only
  rw [if_neg fun hversion => h (.inl hversion), if_neg fun hhash => h (.inr hhash)]

/-- The vendors after a request that was not told to stop. -/
theorem vendors_replaceTables (json : Json) (db : Database) :
    (replaceTables engine json db).db.vendors =
      (fill (vendorRow engine) (foreach ((json.get "store").get "vendor"))
        (clear db.vendors)).state := by
  unfold replaceTables
  split
  · next hfill => rw [hfill]; rfl
  · next vendors hfill =>
    rw [hfill]
    unfold replacePackages
    split
    · rfl
    · unfold setHash
      split <;> rfl

theorem replacePackages_of_going {json : Json} {db : Database} {packages : Table PackageRow}
    (h : fill (packageRow engine) (foreach ((json.get "store").get "package"))
      (clear db.packages) = .going packages) :
    replacePackages engine json db = setHash engine json { db with packages := packages } := by
  unfold replacePackages
  rw [h]

/-- The packages, if the vendors were gone through. -/
theorem packages_replaceTables {json : Json} {db : Database} {vendors : Table VendorRow}
    (h : fill (vendorRow engine) (foreach ((json.get "store").get "vendor"))
      (clear db.vendors) = .going vendors) :
    (replaceTables engine json db).db.packages =
      (fill (packageRow engine) (foreach ((json.get "store").get "package"))
        (clear db.packages)).state := by
  unfold replaceTables
  rw [h]
  show (replacePackages engine json { db with vendors := vendors }).db.packages = _
  unfold replacePackages
  split
  · next hfill => exact (congrArg Progress.state hfill).symm
  · next hfill =>
    unfold setHash
    split
    · exact (congrArg Progress.state hfill).symm
    · exact (congrArg Progress.state hfill).symm

/-- A payload is stored as it is; the hash goes into its row, if there is one. -/
theorem sync_of_payload {payload : Payload} (hpayload : payload? engine reply = some payload)
    (h : ¬ Skipped reply db) :
    (sync engine reply db).db.vendors.rows = payload.vendors ∧
      (sync engine reply db).db.packages.rows = payload.packages ∧
      (sync engine reply db).db.get storeHash =
        (db.get storeHash).map fun _ => payload.hash := by
  simp only [payload?, Option.bind_eq_bind, Option.bind_eq_some_iff, Option.pure_def,
    Option.some.injEq] at hpayload
  obtain ⟨vendors, hvendors, packages, hpackages, vendorRows, hvendorRows, packageRows,
    hpackageRows, hash, hhash, rfl⟩ := hpayload
  have hforeach : ∀ {list : String} {items : List Json},
      (itemsOf reply list).values? = some items →
        foreach (((Json.decode (reply.getD [])).get "store").get list) = items := by
    intro list items hitems
    unfold itemsOf at hitems
    rw [foreach, hitems]
    rfl
  obtain ⟨vendorTable, hvendorFill, hvendorSame⟩ := fill_clear hvendorRows db.vendors
  obtain ⟨packageTable, hpackageFill, hpackageSame⟩ := fill_clear hpackageRows db.packages
  have hsync : sync engine reply db = .updated
      (({ db with vendors := vendorTable, packages := packageTable } : Database).set storeHash
        hash.asText) := by
    rw [sync_of_not_skipped h]
    unfold replaceTables
    rw [hforeach hvendors, hvendorFill]
    have hfill : fill (packageRow engine)
        (foreach (((Json.decode (reply.getD [])).get "store").get "package"))
          (clear db.packages) = .going packageTable := by
      rw [hforeach hpackages, hpackageFill]
    have hreplaced := @replacePackages_of_going engine _ { db with vendors := vendorTable } _ hfill
    show replacePackages engine _ { db with vendors := vendorTable } = _
    rw [hreplaced]
    unfold setHash
    rw [hhash]
  rw [hsync]
  exact ⟨hvendorSame, hpackageSame, Database.get_set_self _ _ _⟩

theorem allOrNothing_of_skipped (h : Skipped reply db) :
    AllOrNothing engine reply db (sync engine reply db).db := by
  rw [db_sync_of_skipped h]
  exact .inl ⟨rfl, rfl, rfl⟩

/-- A payload is stored as a whole if the hash has its row, and else only if the
tables hold it already. -/
theorem allOrNothing_of_payload_iff {payload : Payload}
    (hpayload : payload? engine reply = some payload) (h : ¬ Skipped reply db) :
    AllOrNothing engine reply db (sync engine reply db).db ↔
      db.get storeHash ≠ none ∨
        db.vendors.rows = payload.vendors ∧ db.packages.rows = payload.packages := by
  obtain ⟨hvendors, hpackages, hhash⟩ := sync_of_payload hpayload h
  have hstored : db.get storeHash ≠ none →
      AllOrNothing engine reply db (sync engine reply db).db := by
    intro hthere
    right
    refine ⟨payload, hpayload, hvendors, hpackages, ?_⟩
    obtain ⟨value, hvalue⟩ := Option.ne_none_iff_exists'.mp hthere
    rw [hhash, hvalue]
    rfl
  constructor
  · rintro (hunchanged | ⟨other, hother, hholds⟩)
    · right
      exact ⟨hunchanged.vendors ▸ hvendors, hunchanged.packages ▸ hpackages⟩
    · left
      intro hnone
      have hthere := hholds.hash
      rw [hhash, hnone] at hthere
      cases hthere
  · rintro (hthere | ⟨hsameVendors, hsamePackages⟩)
    · exact hstored hthere
    · by_cases hthere : db.get storeHash = none
      · left
        refine ⟨hvendors.trans hsameVendors.symm, hpackages.trans hsamePackages.symm, ?_⟩
        rw [hhash, hthere]
        rfl
      · exact hstored hthere

/-- A reply that is no payload takes away what it leaves out. -/
theorem not_allOrNothing_of_leavesOut (hnone : payload? engine reply = none)
    (hgoing : ¬ Skipped reply db) (h : LeavesOut engine reply db) :
    ¬ AllOrNothing engine reply db (sync engine reply db).db := by
  rintro (hunchanged | ⟨payload, hpayload, -⟩)
  · rw [sync_of_not_skipped hgoing] at hunchanged
    rcases h with hvendor | ⟨hread, hpackage⟩
    · apply rows_fill_ne_of_unlisted hvendor
      have hvendors := hunchanged.vendors
      rwa [vendors_replaceTables] at hvendors
    · obtain ⟨vendors, hfill⟩ := fill_going hread (clear db.vendors)
      apply rows_fill_ne_of_unlisted hpackage
      have hpackages := hunchanged.packages
      rwa [packages_replaceTables hfill] at hpackages
  · rw [hnone] at hpayload
    cases hpayload

/-- After a sync the tables and the hash are as before or as in the payload if the
reply says that there is nothing to do, or is a payload and the hash has its row.
A payload without that row is stored all the same, and of a reply that is no
payload every row is gone that it leaves out. -/
theorem sync_all_or_nothing (engine : Engine) (reply : Option Text) (db : Database) :
    (Skipped reply db → AllOrNothing engine reply db (sync engine reply db).db) ∧
    (∀ payload ∈ payload? engine reply, ¬ Skipped reply db →
      (AllOrNothing engine reply db (sync engine reply db).db ↔
        db.get storeHash ≠ none ∨
          db.vendors.rows = payload.vendors ∧ db.packages.rows = payload.packages)) ∧
    (payload? engine reply = none → ¬ Skipped reply db → LeavesOut engine reply db →
      ¬ AllOrNothing engine reply db (sync engine reply db).db) :=
  ⟨allOrNothing_of_skipped, fun _ hpayload hgoing => allOrNothing_of_payload_iff hpayload hgoing,
    not_allOrNothing_of_leavesOut⟩

/-- The tables and the hash of a small store. -/
def sampleStore : Database :=
  { Database.empty with
    conf := [(storeHash, .text "a1".toList)]
    vendors := Table.empty.insert ⟨.text "nginx".toList, .null, .text "httpd".toList, .null⟩ }

/-- The engine of runs on fixed inputs. -/
def sampleEngine : Engine := ⟨⟨.text⟩, id⟩

/-- A connection that fails empties the tables. -/
theorem failed_download_empties :
    ¬ ∀ engine reply db, AllOrNothing engine reply db (sync engine reply db).db := by
  intro hclaim
  have hgoing : ¬ Skipped none sampleStore := by decide
  apply @not_allOrNothing_of_leavesOut sampleEngine _ _ rfl hgoing
  · left
    refine ⟨_, List.mem_cons_self, ?_⟩
    intro item hitem
    exact absurd hitem List.not_mem_nil
  · exact hclaim _ _ _

end Update

end WampManager
