/-
# The list of packages

The page of packages sorts by a text that is made from the first three parts of a
version, each padded to three characters, and then groups by vendor; the first package
of a group is the one that its button installs. The order of these texts is that of the
versions as long as no part is longer and nothing stands behind the third part.
-/

import WampManager.Database
import WampManager.Lib.LooseOrder
import WampManager.Lib.Sorter

namespace WampManager

/-! ## Versions -/

namespace Version

/-- The numbers of a version. -/
def numbers (version : Text) : List ℕ := (version.splitOn '.').map Loose.value

/-- An older version: in the first place where two versions differ it has the smaller
number; a number that is missing is zero. -/
def Older (v w : List ℕ) : Prop :=
  ∃ i, (∀ j < i, v.getD j 0 = w.getD j 0) ∧ v.getD i 0 < w.getD i 0

theorem not_older_self (v : List ℕ) : ¬ Older v v := by
  rintro ⟨i, -, hlt⟩
  exact lt_irrefl _ hlt

/-- A part of a version; there is nothing behind the last one. -/
def part (version : Text) (i : ℕ) : Text := (version.splitOn '.').getD i []

/-- `str_pad($part, 3, '0', STR_PAD_LEFT)`. -/
def pad (t : Text) : Text := t.leftpad 3 '0'

/-- `version_normalised`. -/
def normalised (version : Text) : Text :=
  pad (part version 0) ++ pad (part version 1) ++ pad (part version 2)

/-- A version whose first parts have at most three digits, with nothing but zeros
behind them. -/
structure Short (version : Text) : Prop where
  digits : ∀ i < 3, ∀ c ∈ part version i, c.isDigit = true
  length : ∀ i < 3, (part version i).length ≤ 3
  rest : ∀ i, 3 ≤ i → (numbers version).getD i 0 = 0

theorem value_part (version : Text) (i : ℕ) :
    (numbers version).getD i 0 = Loose.value (part version i) := by
  rw [numbers, part, List.getD_eq_getElem?_getD, List.getD_eq_getElem?_getD, List.getElem?_map]
  cases (version.splitOn '.')[i]? <;> rfl

theorem value_pad (t : Text) : Loose.value (pad t) = Loose.value t := by
  have hzeros : Loose.value (List.replicate (3 - t.length) '0') = 0 := by
    rw [Loose.value, Nat.ofDigitChars_replicate_zero, Nat.mul_zero]
  rw [pad, List.leftpad, Loose.value_append, hzeros, Nat.mul_zero, Nat.zero_add]

theorem length_pad {t : Text} (h : t.length ≤ 3) : (pad t).length = 3 := by
  rw [pad, List.length_leftpad, Nat.max_eq_left h]

theorem digits_pad {t : Text} (h : ∀ c ∈ t, c.isDigit = true) :
    ∀ c ∈ pad t, c.isDigit = true := by
  intro c hc
  rcases List.mem_append.mp hc with hc | hc
  · rw [List.eq_of_mem_replicate hc]
    rfl
  · exact h c hc

/-- The padded parts of a short version are its numbers to the base of a thousand. -/
theorem value_normalised {version : Text} (h : Short version) :
    Loose.value (normalised version) =
      10 ^ 6 * (numbers version).getD 0 0 + 10 ^ 3 * (numbers version).getD 1 0 +
        (numbers version).getD 2 0 := by
  rw [normalised, Loose.value_append, Loose.value_append, length_pad (h.length 1 (by decide)),
    length_pad (h.length 2 (by decide)), value_pad, value_pad, value_pad, ← value_part,
    ← value_part, ← value_part]
  omega

theorem number_lt {version : Text} (h : Short version) {i : ℕ} (hi : i < 3) :
    (numbers version).getD i 0 < 1000 := by
  rw [value_part]
  calc Loose.value (part version i) < 10 ^ (part version i).length :=
        Loose.value_lt (h.digits i hi)
    _ ≤ 10 ^ 3 := Nat.pow_le_pow_right (by decide) (h.length i hi)

/-- Short versions are compared as their texts are. -/
theorem textCompare_normalised {v w : Text} (hv : Short v) (hw : Short w)
    (h : Older (numbers v) (numbers w)) :
    Loose.textCompare (normalised w) (normalised v) = .gt := by
  have hsmall : ∀ {u : Text}, Short u → Loose.value (normalised u) < 2 ^ 31 := by
    intro u hu
    have h0 := number_lt hu (i := 0) (by decide)
    have h1 := number_lt hu (i := 1) (by decide)
    have h2 := number_lt hu (i := 2) (by decide)
    rw [value_normalised hu]
    omega
  have hne : ∀ {u : Text}, Short u → normalised u ≠ [] := by
    intro u hu hnil
    have hlength := congrArg List.length hnil
    rw [normalised, List.length_append, List.length_append, length_pad (hu.length 0 (by decide)),
      List.length_nil] at hlength
    omega
  have hdigits : ∀ {u : Text}, Short u → ∀ c ∈ normalised u, c.isDigit = true := by
    intro u hu c hc
    rcases List.mem_append.mp hc with hc | hc
    · rcases List.mem_append.mp hc with hc | hc
      · exact digits_pad (hu.digits 0 (by decide)) c hc
      · exact digits_pad (hu.digits 1 (by decide)) c hc
    · exact digits_pad (hu.digits 2 (by decide)) c hc
  have hlt : Loose.value (normalised v) < Loose.value (normalised w) := by
    obtain ⟨i, hsame, hless⟩ := h
    have hi : i < 3 := by
      by_contra hi
      rw [hw.rest i (by omega)] at hless
      omega
    have hv1 := number_lt hv (i := 1) (by decide)
    have hv2 := number_lt hv (i := 2) (by decide)
    rw [value_normalised hv, value_normalised hw]
    match i, hi with
    | 0, _ => omega
    | 1, _ =>
        have h0 := hsame 0 (by decide)
        omega
    | 2, _ =>
        have h0 := hsame 0 (by decide)
        have h1 := hsame 1 (by decide)
        omega
  rw [Loose.textCompare_digits (hne hw) (hne hv) (hdigits hw) (hdigits hv) (hsmall hw)
    (hsmall hv), Nat.compare_eq_gt]
  exact hlt

end Version

/-! ## The page -/

namespace Package

open Version (Older numbers normalised)

/-- `p.disabled<>1`. -/
def isEnabled : SqlValue → Bool
  | .null => false
  | .int n => n != 1
  | _ => true

/-- The packages that the page selects. -/
def selected (db : Database) : List PackageInfo :=
  db.packages.rows.filterMap fun p =>
    if isEnabled p.2.disabled then
      (vendorOf db p.2).map fun vendor => ⟨p.1, p.2, vendor.title, vendor.description⟩
    else none

/-- The numbers of the version of a package. -/
def versionOf (p : PackageInfo) : List ℕ := numbers p.row.version.toText

/-- The order that `array_multisort` is asked for: titles and, the other way round,
normalised versions, then architectures, then the rows, which differ in their keys. -/
def compareRows (p q : PackageInfo) : Ordering :=
  (Loose.textCompare p.title.toText q.title.toText).then
    ((Loose.textCompare (normalised q.row.version.toText) (normalised p.row.version.toText)).then
      ((Loose.textCompare p.row.arch.toText q.row.arch.toText).then (compare p.id q.id)))

/-- May a package stand in front of another one? -/
def inFront (p q : PackageInfo) : Bool := compareRows p q != .gt

/-- A package that can be installed on the system. -/
def isInstallable (is64 : Bool) (p : PackageInfo) : Bool :=
  is64 || p.row.arch.toText != "x64".toList

/-- Append a package to the group of its vendor. -/
def addTo (p : PackageInfo) :
    List (SqlValue × List PackageInfo) → List (SqlValue × List PackageInfo)
  | [] => [(p.row.vendorId, [p])]
  | (vendor, ps) :: groups =>
      if vendor = p.row.vendorId then (vendor, ps ++ [p]) :: groups
      else (vendor, ps) :: addTo p groups

/-- `$new`: the installable packages by vendor. -/
def groupsOf (is64 : Bool) (packages : List PackageInfo) :
    List (SqlValue × List PackageInfo) :=
  packages.foldl (fun groups p => if isInstallable is64 p then addTo p groups else groups) []

/-- The group of a vendor. -/
def groupOf (groups : List (SqlValue × List PackageInfo)) (vendor : SqlValue) :
    List PackageInfo :=
  ((groups.find? (·.1 == vendor)).map Prod.snd).getD []

/-- The list that the page shows for a vendor. -/
def shown (sorter : Sorter PackageInfo) (db : Database) (is64 : Bool) (vendor : SqlValue) :
    List PackageInfo :=
  groupOf (groupsOf is64 (sorter.sort inFront (selected db))) vendor

/-- The packages of a vendor that can be installed. -/
def installable (db : Database) (is64 : Bool) (vendor : SqlValue) : List PackageInfo :=
  (selected db).filter fun p => isInstallable is64 p && p.row.vendorId == vendor

/-- The list of a vendor has the packages that can be installed, none in front of a newer
one, and the button offers one that is not older than any. -/
structure InOrder (sorter : Sorter PackageInfo) (db : Database) (is64 : Bool)
    (vendor : SqlValue) : Prop where
  perm : (shown sorter db is64 vendor).Perm (installable db is64 vendor)
  ordered : (shown sorter db is64 vendor).Pairwise fun p q =>
    ¬ Older (versionOf p) (versionOf q)
  offered : ∀ p ∈ (shown sorter db is64 vendor).head?, ∀ q ∈ shown sorter db is64 vendor,
    ¬ Older (versionOf p) (versionOf q)

/-! ## Groups -/

theorem groupOf_addTo (p : PackageInfo) (groups : List (SqlValue × List PackageInfo))
    (vendor : SqlValue) :
    groupOf (addTo p groups) vendor =
      groupOf groups vendor ++ if p.row.vendorId = vendor then [p] else [] := by
  induction groups with
  | nil => by_cases hvendor : p.row.vendorId = vendor <;> simp [addTo, groupOf, hvendor]
  | cons group groups ih =>
      obtain ⟨other, ps⟩ := group
      unfold groupOf at ih ⊢
      rw [addTo]
      by_cases hother : other = p.row.vendorId
      · subst hother
        by_cases hvendor : p.row.vendorId = vendor <;> simp [hvendor]
      · rw [if_neg hother]
        by_cases hfound : other = vendor
        · have hvendor : p.row.vendorId ≠ vendor := fun h => hother (hfound.trans h.symm)
          simp [hfound, hvendor]
        · simpa [hfound] using ih

/-- A group has the packages of its vendor in the order of the list. -/
theorem groupOf_groupsOf (is64 : Bool) (packages : List PackageInfo) (vendor : SqlValue) :
    groupOf (groupsOf is64 packages) vendor =
      packages.filter fun p => isInstallable is64 p && p.row.vendorId == vendor := by
  have hfold : ∀ groups : List (SqlValue × List PackageInfo),
      groupOf (packages.foldl
        (fun groups p => if isInstallable is64 p then addTo p groups else groups) groups) vendor =
      groupOf groups vendor ++
        packages.filter fun p => isInstallable is64 p && p.row.vendorId == vendor := by
    induction packages with
    | nil => simp
    | cons p packages ih =>
        intro groups
        rw [List.foldl_cons, ih]
        by_cases hp : isInstallable is64 p
        · by_cases hvendor : p.row.vendorId = vendor <;> simp [groupOf_addTo, hp, hvendor]
        · simp [hp]
  exact hfold []

theorem shown_eq (sorter : Sorter PackageInfo) (db : Database) (is64 : Bool) (vendor : SqlValue) :
    shown sorter db is64 vendor = (sorter.sort inFront (selected db)).filter fun p =>
      isInstallable is64 p && p.row.vendorId == vendor :=
  groupOf_groupsOf is64 _ vendor

/-- The keys of the packages are distinct. -/
theorem nodup_selected (db : Database) : (selected db).Nodup := by
  have hkeys : db.packages.rows.Pairwise fun a b => a.1 ≠ b.1 :=
    List.pairwise_map.mp db.packages.nodup
  refine hkeys.filterMap _ fun a b hne p hp q hq heq => hne ?_
  have hid : ∀ {row : ℤ × PackageRow} {r : PackageInfo},
      (if isEnabled row.2.disabled then
        (vendorOf db row.2).map fun vendor => (⟨row.1, row.2, vendor.title, vendor.description⟩ :
          PackageInfo)
      else none) = some r → r.id = row.1 := by
    intro row r hr
    rw [Option.ite_none_right_eq_some] at hr
    obtain ⟨vendor, -, rfl⟩ := Option.map_eq_some_iff.mp hr.2
    rfl
  rw [← hid hp, ← hid hq, heq]

/-- The lists of all vendors are in order if no package of the sorted list stands in front
of a newer one of its vendor. -/
theorem inOrder_iff (sorter : Sorter PackageInfo) (db : Database) (is64 : Bool) :
    (∀ vendor, InOrder sorter db is64 vendor) ↔
      (sorter.sort inFront (selected db)).Pairwise fun p q =>
        isInstallable is64 p = true → isInstallable is64 q = true →
          p.row.vendorId = q.row.vendorId → ¬ Older (versionOf p) (versionOf q) := by
  constructor
  · intro hall
    rw [List.pairwise_iff_forall_sublist]
    intro p q hsub hp hq hvendor
    have hfilter := hsub.filter fun r => isInstallable is64 r && r.row.vendorId == p.row.vendorId
    have hboth : [p, q].filter (fun r => isInstallable is64 r && r.row.vendorId == p.row.vendorId) =
        [p, q] := by simp [hp, hq, hvendor]
    rw [hboth, ← shown_eq] at hfilter
    exact List.pairwise_iff_forall_sublist.mp (hall p.row.vendorId).ordered hfilter
  · intro hpairs vendor
    have hordered : (shown sorter db is64 vendor).Pairwise fun p q =>
        ¬ Older (versionOf p) (versionOf q) := by
      rw [shown_eq, List.pairwise_filter]
      refine hpairs.imp fun h hp hq => ?_
      rw [Bool.and_eq_true, beq_iff_eq] at hp hq
      exact h hp.1 hq.1 (hp.2.trans hq.2.symm)
    refine ⟨?_, hordered, ?_⟩
    · rw [shown_eq]
      exact (sorter.perm _ _).filter _
    · intro p hp q hq
      cases hlist : shown sorter db is64 vendor with
      | nil => simp [hlist] at hq
      | cons r rest =>
          rw [hlist] at hp hq hordered
          obtain rfl : r = p := Option.some.inj hp
          rcases List.mem_cons.mp hq with rfl | hq
          · exact Version.not_older_self _
          · exact (List.pairwise_cons.mp hordered).1 q hq

/-- The lists are in order, however the rows are sorted, exactly if for every two packages
of a vendor with different versions the comparison is an order of the selected packages and
does not let the older one stand in front. -/
theorem lists_in_order_iff (db : Database) (is64 : Bool) :
    (∀ sorter vendor, InOrder sorter db is64 vendor) ↔
      ∀ p ∈ selected db, ∀ q ∈ selected db, isInstallable is64 p = true →
        isInstallable is64 q = true → p.row.vendorId = q.row.vendorId →
          Older (versionOf p) (versionOf q) →
            Orders inFront (selected db) ∧ inFront p q = false := by
  simp only [inOrder_iff]
  rw [Sorter.forall_pairwise_iff (nodup_selected db)]
  constructor
  · intro h p hp q hq hpi hqi hvendor holder
    refine h p hp q hq ?_ fun hR => hR hpi hqi hvendor holder
    rintro rfl
    exact Version.not_older_self _ holder
  · intro h p hp q hq _ hR
    simp only [Classical.not_imp, not_not] at hR
    obtain ⟨hpi, hqi, hvendor, holder⟩ := hR
    exact h p hp q hq hpi hqi hvendor holder

/-- For two short versions of one vendor the comparison puts the older one behind. -/
theorem inFront_of_short {db : Database} {p q : PackageInfo} (hp : p ∈ selected db)
    (hq : q ∈ selected db) (hvendor : p.row.vendorId = q.row.vendorId)
    (hpshort : Version.Short p.row.version.toText) (hqshort : Version.Short q.row.version.toText)
    (holder : Older (versionOf p) (versionOf q)) : inFront p q = false := by
  have htitle : ∀ {r : PackageInfo}, r ∈ selected db →
      some r.title = (vendorOf db r.row).map VendorRow.title := by
    intro r hr
    obtain ⟨row, -, hrow⟩ := List.mem_filterMap.mp hr
    rw [Option.ite_none_right_eq_some] at hrow
    obtain ⟨vendor, hfound, rfl⟩ := Option.map_eq_some_iff.mp hrow.2
    rw [hfound]
    rfl
  have hsame : p.title = q.title := by
    have hfind : vendorOf db p.row = vendorOf db q.row := by rw [vendorOf, hvendor, vendorOf]
    have hboth := (htitle hp).trans ((congrArg _ hfind).trans (htitle hq).symm)
    exact Option.some.inj hboth
  have hkeys : Loose.textCompare (normalised q.row.version.toText)
      (normalised p.row.version.toText) = .gt :=
    Version.textCompare_normalised hpshort hqshort holder
  have hrows : compareRows p q = .gt := by
    rw [compareRows, hsame, Loose.textCompare_self, hkeys]
    rfl
  rw [inFront, hrows]
  rfl

/-- Short versions are listed in order wherever the comparison is one. -/
theorem lists_in_order_of_short {db : Database} (horders : Orders inFront (selected db))
    (hshort : ∀ p ∈ selected db, Version.Short p.row.version.toText) (is64 : Bool) :
    ∀ sorter vendor, InOrder sorter db is64 vendor := by
  intro sorter
  rw [inOrder_iff]
  have hall := (@Sorter.forall_pairwise_iff _ inFront _ (nodup_selected db)
    (fun p q => isInstallable is64 p = true → isInstallable is64 q = true →
      p.row.vendorId = q.row.vendorId → ¬ Older (versionOf p) (versionOf q))).mpr
  refine hall ?_ sorter
  intro p hp q hq _ hR
  simp only [Classical.not_imp, not_not] at hR
  obtain ⟨-, -, hvendor, holder⟩ := hR
  exact ⟨horders, inFront_of_short hp hq hvendor (hshort p hp) (hshort q hq) holder⟩

/-! ## A fourth part -/

/-- A version of a server. -/
def redis (version : Text) : PackageRow :=
  ⟨.text version, .null, .null, .null, .null, .text "x64".toList, .null, .null, .int 1, .int 0⟩

/-- Two versions, the newer one with a fourth part. -/
def fourParts : Database :=
  { Database.empty with
    vendors := Table.empty.insert ⟨.text "Redis".toList, .null, .text "redis".toList, .null⟩
    packages := (Table.empty.insert (redis "5.0.14".toList)).insert (redis "5.0.14.1".toList) }

theorem selected_fourParts : selected fourParts =
    [⟨1, redis "5.0.14".toList, .text "Redis".toList, .null⟩,
      ⟨2, redis "5.0.14.1".toList, .text "Redis".toList, .null⟩] := by
  decide +kernel

/-- The button offers the older version. -/
theorem fourth_part_ignored : ¬ ∀ sorter vendor, InOrder sorter fourParts true vendor := by
  intro hall
  simp only [inOrder_iff] at hall
  rw [Sorter.forall_pairwise_iff (nodup_selected fourParts), selected_fourParts] at hall
  have holder : Older (numbers "5.0.14".toList) (numbers "5.0.14.1".toList) := by
    have hfirst : numbers "5.0.14".toList = [5, 0, 14] := by decide +kernel
    have hsecond : numbers "5.0.14.1".toList = [5, 0, 14, 1] := by decide +kernel
    rw [hfirst, hsecond]
    exact ⟨3, by decide, by decide⟩
  have hback := (hall _ List.mem_cons_self _ (List.mem_cons_of_mem _ List.mem_cons_self)
    (by decide) fun hR => hR rfl rfl rfl holder).2
  revert hback
  decide +kernel

end Package

end WampManager
