/-
# The download cache

`Installer::download` leaves the zip of a package in the download directory: a
cached file is kept if its digest matches, else it is deleted and transferred
anew after a version check. Deleting may fail without a word, a transfer may
fail or be cut short, and the digests are compared with `!=`. Each of these can
let the function return without the right file; the last theorem says exactly
when none does.
-/

import WampManager.Database
import WampManager.Lib.FileTree
import WampManager.Lib.Sha1

namespace WampManager

namespace Installer

open Loose (Scalar looseEq Confused)

/-- What lies at the path of the cached zip. -/
abbrev Entry := Option (Node (List UInt8))

/-- `sha1_file`: the digest, or false if there is no file. -/
def sha1File : Entry → Scalar
  | some (.file bytes) => .text (Sha1.sha1 bytes)
  | _ => .bool false

/-- `Util::del` on the path; does unlinking work? -/
def del (works : Bool) : Entry → Entry
  | some (.file bytes) => if works then none else some (.file bytes)
  | entry => entry

/-- How much of the data `file_put_contents` writes. -/
inductive Saving
  | refused
  | cut (length : ℕ)
  | whole

/-- `Downloader::save`; data that never came is written as nothing. -/
def save (data : Option (List UInt8)) : Saving → Entry → Entry
  | _, some .dir => some .dir
  | .refused, entry => entry
  | .cut length, _ => some (.file ((data.getD []).take length))
  | .whole, _ => some (.file (data.getD []))

/-- What happens around one call. -/
structure Surroundings where
  /-- The reply of the version check, or the error of the connection. -/
  version : Except Text Text
  /-- The data of the transfer, if any came. -/
  transfer : Option (List UInt8)
  /-- How the data is written. -/
  saving : Saving
  /-- Does deleting the corrupt cached file work? -/
  deletesCached : Bool
  /-- Does deleting the bad download work? -/
  deletesSaved : Bool

/-- How a call ends, with what it leaves at the path. -/
inductive Download
  | returned (entry : Entry)
  | exited (notice : Text) (entry : Entry)

/-- The notice for an old version. -/
def updateNotice : Text :=
  ("Please <a href=\"javascript: update_check();\">update</a> to the latest version " ++
    "before installing packages.").toList

/-- The reply that asks for an update of the manager. -/
def outdated (result : Text) : Bool := looseEq (.text result) (.text "-1".toList)

/-- The filehash of a package. -/
def filehash (package : PackageInfo) : Scalar := package.row.filehash.toScalar

/-- The first statement of `download`: delete a corrupt cached file. -/
def dropCorrupt (package : PackageInfo) (x : Surroundings) (cached : Entry) : Entry :=
  if cached.isSome && !looseEq (filehash package) (sha1File cached) then
    del x.deletesCached cached
  else cached

/-- The rest of `download`, when there is no file. -/
def transfer (package : PackageInfo) (x : Surroundings) (entry : Entry) : Download :=
  match x.version with
  | .error message => .exited message entry
  | .ok result =>
      if outdated result then .exited updateNotice entry
      else
        let saved := save x.transfer x.saving entry
        if looseEq (filehash package) (sha1File saved) then .returned saved
        else .exited "Error downloading file".toList (del x.deletesSaved saved)

/-- `Installer::download`. -/
def download (package : PackageInfo) (x : Surroundings) (cached : Entry) : Download :=
  match dropCorrupt package x cached with
  | some (.file bytes) => .returned (some (.file bytes))
  | entry => transfer package x entry

/-! ## The right file -/

/-- The file exists and its digest is the same string as the package's filehash. -/
def Verified (package : PackageInfo) (entry : Entry) : Prop :=
  ∃ bytes, entry = some (.file bytes) ∧ filehash package = .text (Sha1.sha1 bytes)

/-- What `!=` takes for the right file although it is not: no file at all for a
filehash that is missing, empty or zero, and a file whose digest is another
text for the number that the filehash denotes. -/
def Mistaken (package : PackageInfo) : Entry → Prop
  | some (.file bytes) => ∃ t, filehash package = .text t ∧ Confused t (Sha1.sha1 bytes)
  | _ => filehash package ∈ [.null, .text [], .text ['0']]

/-- Mistakes are what loose equality accepts beyond the right file. -/
theorem mistaken_iff (package : PackageInfo) (entry : Entry) :
    Mistaken package entry ↔
      looseEq (filehash package) (sha1File entry) = true ∧ ¬ Verified package entry := by
  have habsent : filehash package ∈ [Scalar.null, .text [], .text ['0']] ↔
      looseEq (filehash package) (.bool false) = true := by
    unfold filehash SqlValue.toScalar
    cases package.row.filehash <;> simp [looseEq, Loose.truthy, or_iff_not_imp_left]
  match entry with
  | none => simpa [Mistaken, sha1File, Verified] using habsent
  | some .dir => simpa [Mistaken, sha1File, Verified] using habsent
  | some (.file bytes) =>
      have hne : Sha1.sha1 bytes ≠ [] := List.ne_nil_of_length_pos (by simp)
      unfold Mistaken sha1File Verified
      cases hhash : filehash package with
      | null => simp [looseEq, hne]
      | bool b =>
          unfold filehash SqlValue.toScalar at hhash
          cases hcol : package.row.filehash <;> simp [hcol] at hhash
      | text t => simp [looseEq, ← Loose.textEq_and_ne_iff]

/-- What passes the comparison without a mistake is the right file. -/
theorem verified_of_looseEq {package : PackageInfo} {entry : Entry}
    (heq : looseEq (filehash package) (sha1File entry) = true)
    (hsound : ¬ Mistaken package entry) : Verified package entry := by
  by_contra hnot
  exact hsound ((mistaken_iff package entry).mpr ⟨heq, hnot⟩)

/-! ## When a return means the right file -/

/-- The version check lets the transfer go on. -/
def Passes (x : Surroundings) : Prop :=
  ∃ result, x.version = .ok result ∧ outdated result = false

/-- A transfer takes place: whatever file was cached is seen as corrupt and is
deleted, and the version check passes. -/
def Transfers (package : PackageInfo) (x : Surroundings) (cached : Entry) : Prop :=
  (∀ bytes, cached = some (.file bytes) →
    looseEq (filehash package) (.text (Sha1.sha1 bytes)) = false ∧ x.deletesCached = true) ∧
  Passes x

/-- What is written when a transfer takes place; a directory is in its way. -/
def written (x : Surroundings) (cached : Entry) : Entry :=
  save x.transfer x.saving (if cached = some .dir then some .dir else none)

/-- No mistake is made, and a corrupt file can be deleted. -/
structure Dependable (package : PackageInfo) (x : Surroundings) (cached : Entry) : Prop where
  /-- A cached file with another digest is seen as corrupt and can be deleted. -/
  stale : ∀ bytes, cached = some (.file bytes) →
    filehash package ≠ .text (Sha1.sha1 bytes) →
      ¬ Mistaken package cached ∧ x.deletesCached = true
  /-- What a transfer writes is not mistaken for the right file. -/
  fresh : Transfers package x cached → ¬ Mistaken package (written x cached)

section

variable {package : PackageInfo} {x : Surroundings} {cached entry : Entry}

/-- The transfer returns exactly after a passed check with a file that compares equal. -/
theorem transfer_eq_returned {result : Entry} :
    transfer package x entry = .returned result ↔
      Passes x ∧ looseEq (filehash package) (sha1File (save x.transfer x.saving entry)) = true ∧
        result = save x.transfer x.saving entry := by
  unfold transfer Passes
  cases hversion : x.version with
  | error message => simp
  | ok reply =>
      by_cases hold : outdated reply = true
      · simp [hold]
      · by_cases hsame :
            looseEq (filehash package) (sha1File (save x.transfer x.saving entry)) = true
        · simpa [hold, hsame] using eq_comm
        · simp [hold, hsame]

/-- Without a cached file there is nothing to delete. -/
theorem download_of_no_file (h : ∀ bytes, cached ≠ some (.file bytes)) :
    download package x cached = transfer package x cached := by
  match cached, h with
  | none, _ => rfl
  | some .dir, _ => simp [download, dropCorrupt, del]
  | some (.file bytes), h => exact absurd rfl (h bytes)

/-- A cached file that compares equal is kept. -/
theorem download_of_kept {bytes : List UInt8}
    (hsame : looseEq (filehash package) (.text (Sha1.sha1 bytes)) = true) :
    download package x (some (.file bytes)) = .returned (some (.file bytes)) := by
  simp [download, dropCorrupt, sha1File, hsame]

/-- A cached file that compares different is replaced if it can be deleted. -/
theorem download_of_corrupt {bytes : List UInt8}
    (hdiff : looseEq (filehash package) (.text (Sha1.sha1 bytes)) = false) :
    download package x (some (.file bytes)) =
      if x.deletesCached then transfer package x none
      else .returned (some (.file bytes)) := by
  cases hdel : x.deletesCached <;> simp [download, dropCorrupt, sha1File, hdiff, del, hdel]

/-- When a transfer takes place, the call is the transfer. -/
theorem download_of_transfers (h : Transfers package x cached) :
    download package x cached =
      transfer package x (if cached = some .dir then some .dir else none) := by
  match cached, h with
  | none, _ => exact download_of_no_file (by simp)
  | some .dir, _ => exact download_of_no_file (by simp)
  | some (.file bytes), h =>
      obtain ⟨hdiff, hdel⟩ := h.1 bytes rfl
      rw [download_of_corrupt hdiff, if_pos hdel]
      rfl

/-- A call that returns has kept a cached file, has failed to delete one, or
returns what it wrote. -/
theorem download_eq_returned {result : Entry}
    (h : download package x cached = .returned result) :
    (∃ bytes, cached = some (.file bytes) ∧ result = cached ∧
      (looseEq (filehash package) (.text (Sha1.sha1 bytes)) = true ∨
        x.deletesCached = false)) ∨
    (Transfers package x cached ∧ result = written x cached ∧
      looseEq (filehash package) (sha1File result) = true) := by
  have hfresh : ∀ {entry}, entry = (if cached = some .dir then some .dir else none) →
      (Passes x → Transfers package x cached) → transfer package x entry = .returned result →
      Transfers package x cached ∧ result = written x cached ∧
        looseEq (filehash package) (sha1File result) = true := by
    intro entry hentry htransfers hrun
    obtain ⟨hpasses, hsame, rfl⟩ := transfer_eq_returned.mp hrun
    exact ⟨htransfers hpasses, by rw [hentry, written], hsame⟩
  match cached, h with
  | none, h =>
      right
      rw [download_of_no_file (by simp)] at h
      exact hfresh (by simp) (fun hpasses => ⟨by simp, hpasses⟩) h
  | some .dir, h =>
      right
      rw [download_of_no_file (by simp)] at h
      exact hfresh (by simp) (fun hpasses => ⟨by simp, hpasses⟩) h
  | some (.file bytes), h =>
      by_cases hsame : looseEq (filehash package) (.text (Sha1.sha1 bytes)) = true
      · left
        rw [download_of_kept hsame] at h
        exact ⟨bytes, rfl, by simpa using h.symm, .inl hsame⟩
      · have hdiff := eq_false_of_ne_true hsame
        rw [download_of_corrupt hdiff] at h
        by_cases hdel : x.deletesCached = true
        · right
          rw [if_pos hdel] at h
          exact hfresh (by simp) (fun hpasses => ⟨by simp [hdiff, hdel], hpasses⟩) h
        · left
          rw [if_neg hdel] at h
          exact ⟨bytes, rfl, by simpa using h.symm, .inr (eq_false_of_ne_true hdel)⟩

end

/-- A return means the right file exactly when every corrupt cached file is seen
as corrupt and deleted, and no transferred file is mistaken for the right one. -/
theorem download_verifies (package : PackageInfo) (x : Surroundings) (cached : Entry) :
    (∀ entry, download package x cached = .returned entry → Verified package entry) ↔
      Dependable package x cached := by
  constructor
  · intro hverifies
    constructor
    · rintro bytes rfl hother
      have hnot : ¬ Verified package (some (.file bytes)) := by
        rintro ⟨same, hsame, hhash⟩
        cases hsame
        exact hother hhash
      have hdiff : looseEq (filehash package) (.text (Sha1.sha1 bytes)) = false := by
        by_contra hsame
        exact hnot (hverifies _ (download_of_kept (eq_true_of_ne_false hsame)))
      constructor
      · intro hmistaken
        have hsame := ((mistaken_iff _ _).mp hmistaken).1
        rw [sha1File, hdiff] at hsame
        cases hsame
      · by_contra hdel
        apply hnot
        apply hverifies
        rw [download_of_corrupt hdiff, if_neg hdel]
    · intro htransfers hmistaken
      obtain ⟨hsame, hnot⟩ := (mistaken_iff _ _).mp hmistaken
      apply hnot
      apply hverifies
      rw [download_of_transfers htransfers]
      exact transfer_eq_returned.mpr ⟨htransfers.2, hsame, rfl⟩
  · intro hdependable entry hreturned
    rcases download_eq_returned hreturned with
      ⟨bytes, rfl, rfl, hkept⟩ | ⟨htransfers, rfl, hsame⟩
    · by_contra hnot
      have hother : filehash package ≠ .text (Sha1.sha1 bytes) := fun hhash =>
        hnot ⟨bytes, rfl, hhash⟩
      obtain ⟨hsound, hdel⟩ := hdependable.stale bytes rfl hother
      rcases hkept with hsame | hfailed
      · exact hnot (verified_of_looseEq hsame hsound)
      · rw [hdel] at hfailed
        cases hfailed
    · exact verified_of_looseEq hsame (hdependable.fresh htransfers)

/-- A package with a given filehash. -/
def samplePackage (hash : Text) : PackageInfo :=
  ⟨1, ⟨.null, .null, .null, .null, .null, .null, .null, .text hash, .int 1, .int 0⟩, .null, .null⟩

/-- A corrupt cached file that cannot be deleted is returned as it is. -/
theorem download_keeps_corrupt :
    ¬ ∀ (package : PackageInfo) (x : Surroundings) (cached entry : Entry),
      download package x cached = .returned entry → Verified package entry := by
  intro hverifies
  have hrun : download (samplePackage (Sha1.sha1 (Sha1.bytes "abc")))
      ⟨.ok "3.2.0".toList, some (Sha1.bytes "abc"), .whole, false, true⟩
      (some (.file (Sha1.bytes "ab"))) = .returned (some (.file (Sha1.bytes "ab"))) := by
    have hdiff : looseEq (.text (Sha1.sha1 (Sha1.bytes "abc")))
        (.text (Sha1.sha1 (Sha1.bytes "ab"))) = false := by decide +kernel
    exact download_of_corrupt hdiff
  obtain ⟨bytes, hbytes, hhash⟩ := hverifies _ _ _ _ hrun
  cases hbytes
  exact absurd hhash (by decide +kernel)

/-- Two files whose digests are powers of zero pass for each other. -/
example : Confused (Sha1.sha1 (Sha1.bytes "10932435112")) (Sha1.sha1 (Sha1.bytes "aaroZmOk")) :=
  (Loose.textEq_and_ne_iff _ _).mp (by decide +kernel)

end Installer

end WampManager
