/-
# Ports that are ports

`verify` asks little of a port: `number` lets the empty text through and every
text that PHP takes for a number, and not every class file asks for it. What is
registered is what an INTEGER column makes of the text. It is worked out here for
which accepted forms this is an integer from 1 to 65535.
-/

import WampManager.Verify
import WampManager.WholeInstances

namespace WampManager

namespace Ports

open Instance (registeredRows endpointRow)
open Loose (number? isSpace)

/-- The canonical decimal text of a port. -/
def IsPort (t : Text) : Prop := ∃ n : ℤ, 1 ≤ n ∧ n ≤ 65535 ∧ t = decimal n

/-- The integer that a text reads as; blanks around it do not count. -/
def whole? (t : Text) : Option ℤ := (number? (t.rdropWhile isSpace)).bind Loose.Number.whole?

/-- How an INTEGER column reads a text. -/
structure ReadsNumerals (sqlite : Sqlite) : Prop where
  /-- A numeral whose value is an integer is stored as this integer. -/
  whole : ∀ t n, n.natAbs < 2 ^ 31 → whole? t = some n → sqlite.integerAffinity t = .int n
  /-- Another one is stored as it is, if it is no numeral, or as a number that is
  large or prints with more than digits. -/
  other : ∀ t, (∀ n, n.natAbs < 2 ^ 31 → whole? t ≠ some n) →
    sqlite.integerAffinity t = .text t ∨
      (∃ n : ℤ, 2 ^ 31 ≤ n.natAbs ∧ sqlite.integerAffinity t = .int n) ∨
      ∃ digits, sqlite.integerAffinity t = .real digits ∧ ∃ c ∈ digits, c.isDigit = false

/-- A port is posted, with a value that is an integer from 1 to 65535. -/
def IsPosted (value : SqlValue) : Prop :=
  ∃ t n, value = .text t ∧ whole? t = some n ∧ 1 ≤ n ∧ n ≤ 65535

/-- An accepted form makes the install register ports only. -/
def RealPorts (sqlite : Sqlite) (found : VerifyFound) (db : Database) (form : PostedForm)
    (classFile : ClassFile) (package : PackageInfo) (m : Machine) : Prop :=
  classFile.verify sqlite found db form = [] →
    ∀ entry ∈ (registeredRows sqlite package classFile
        { m with session := { m.session with pdata := some form } }).endpoints.rows,
      entry ∉ m.db.endpoints.rows → IsPort entry.2.port.toText

/-! ## What a port column stores -/

theorem whole?_decimal {n : ℤ} (hlow : 1 ≤ n) (hhigh : n ≤ 65535) :
    whole? (decimal n) = some n := by
  obtain ⟨k, rfl⟩ := Int.eq_ofNat_of_zero_le (by omega : 0 ≤ n)
  have hdigit : ∀ c ∈ Nat.toDigits 10 k, c.isDigit := fun c hc =>
    Nat.isDigit_of_mem_toDigits (by decide) (by decide) hc
  have htrim : (Nat.toDigits 10 k).rdropWhile isSpace = Nat.toDigits 10 k := by
    refine List.rdropWhile_eq_self_iff.mpr fun hne hspace => ?_
    have hlast := hdigit _ (List.getLast_mem hne)
    exact Loose.not_isSpace_of_isDigit hlast hspace
  show whole? (Nat.toDigits 10 k) = _
  rw [whole?, htrim, Loose.number?_toDigits (by omega)]
  rfl

/-- The stored port is a port exactly if the posted one is. -/
theorem isPort_asInteger_iff {sqlite : Sqlite} (hreads : ReadsNumerals sqlite) (value : SqlValue)
    (hposted : value = .null ∨ ∃ t, value = .text t) :
    IsPort (sqlite.asInteger value).toText ↔ IsPosted value := by
  constructor
  · rintro ⟨n, hlow, hhigh, htext⟩
    have hread := whole?_decimal hlow hhigh
    have hdigit : ∀ c ∈ decimal n, c.isDigit := by
      obtain ⟨k, rfl⟩ := Int.eq_ofNat_of_zero_le (by omega : 0 ≤ n)
      exact fun c hc => Nat.isDigit_of_mem_toDigits (by decide) (by decide) hc
    rcases hposted with rfl | ⟨t, rfl⟩
    · -- NULL prints as the empty text, which reads as no number
      rw [← htext] at hread
      cases hread
    · refine ⟨t, n, rfl, ?_, hlow, hhigh⟩
      change (sqlite.integerAffinity t).toText = decimal n at htext
      by_cases hwhole : ∃ m : ℤ, m.natAbs < 2 ^ 31 ∧ whole? t = some m
      · obtain ⟨m, hsmall, hm⟩ := hwhole
        rw [hreads.whole t m hsmall hm] at htext
        rw [hm, decimal_injective htext]
      · have hnone : ∀ m : ℤ, m.natAbs < 2 ^ 31 → whole? t ≠ some m := fun m hsmall hm =>
          hwhole ⟨m, hsmall, hm⟩
        rcases hreads.other t hnone with hsame | ⟨m, hlarge, hm⟩ | ⟨digits, hreal, c, hc, hother⟩
        · rw [hsame] at htext
          have heq : t = decimal n := htext
          rw [heq, hread]
        · rw [hm] at htext
          have heq : m = n := decimal_injective htext
          omega
        · rw [hreal] at htext
          have heq : digits = decimal n := htext
          rw [hdigit c (heq ▸ hc)] at hother
          cases hother
  · rintro ⟨t, n, rfl, hread, hlow, hhigh⟩
    refine ⟨n, hlow, hhigh, ?_⟩
    rw [Sqlite.asInteger, hreads.whole t n (by omega) hread]
    rfl

theorem value_eq_null_or_text (form : PostedForm) (field : Text) :
    form.value field = .null ∨ ∃ t, form.value field = .text t := by
  unfold PostedForm.value
  split
  · exact .inr ⟨_, rfl⟩
  · exact .inl rfl

/-! ## What `verify` asks of a port -/

/-- The class files that ask for a number. -/
def asksNumber : ClassFile → Bool
  | .apache | .memcached | .nginx => false
  | _ => true

/-- A field without an error of `number` is not posted, empty or a number to PHP. -/
theorem nil_or_isNumeric_of_number {form : PostedForm} {field : Text}
    (h : Validator.number form field = []) :
    (form.value field).toText = [] ∨ Loose.isNumeric (form.value field).toText = true := by
  have hrecord : (!Loose.looseEq (form.scalar field) (.text []) &&
      !Loose.isNumeric (form.value field).toText) = false := by
    by_contra hwrong
    rw [Validator.number, Validator.record, if_pos (by simpa using hwrong)] at h
    cases h
  rw [Bool.and_eq_false_iff, Bool.not_eq_false', Bool.not_eq_false'] at hrecord
  refine hrecord.imp_left fun hempty => ?_
  unfold PostedForm.scalar at hempty
  rcases value_eq_null_or_text form field with hvalue | ⟨t, hvalue⟩
  · rw [hvalue]
    rfl
  · rw [hvalue] at hempty ⊢
    change Loose.textEq t [] = true at hempty
    rwa [Loose.textEq_nil, beq_iff_eq] at hempty

/-- A port that a class file asks for is not posted, empty or a number to PHP. -/
theorem isNumeric_of_verify {sqlite : Sqlite} {found : VerifyFound} {db : Database}
    {form : PostedForm} {classFile : ClassFile} (hasks : asksNumber classFile = true)
    (h : classFile.verify sqlite found db form = []) {spec : EndpointSpec}
    (hspec : spec ∈ classFile.endpoints) :
    (form.value spec.portField).toText = [] ∨
      Loose.isNumeric (form.value spec.portField).toText = true := by
  apply nil_or_isNumeric_of_number
  cases classFile with
  | apache | memcached | nginx => cases hasks
  | mysql8 =>
      simp only [ClassFile.verify, Instance.verifyMysql8, List.append_eq_nil_iff] at h
      simp only [ClassFile.endpoints, List.mem_cons, List.not_mem_nil, or_false] at hspec
      rcases hspec with rfl | rfl
      · exact h.1.1.1.1.1
      · exact h.1.1.1.1.2
  | php | php72 | php73 | php74 | php80 | php81 | php812 =>
      simp only [ClassFile.verify, Instance.verifyPhp, Instance.requiredNumber,
        List.append_eq_nil_iff] at h
      obtain rfl := List.mem_singleton.mp hspec
      exact h.1.1.1.1.1.2
  | mariadb | mysql | mongodb | postgresql =>
      simp only [ClassFile.verify, Instance.verifyTcp, List.append_eq_nil_iff] at h
      obtain rfl := List.mem_singleton.mp hspec
      exact h.1.1
  | redis =>
      simp only [ClassFile.verify, Instance.verifyTcp, List.append_eq_nil_iff] at h
      obtain rfl := List.mem_singleton.mp hspec
      exact h.1
  | acrylic =>
      simp only [ClassFile.verify, Instance.verifyDns, List.append_eq_nil_iff] at h
      obtain rfl := List.mem_singleton.mp hspec
      exact h.1.1.1
  | wildthing =>
      simp only [ClassFile.verify, Instance.verifyDns, List.append_eq_nil_iff] at h
      obtain rfl := List.mem_singleton.mp hspec
      exact h.1.1
  | adminer | drupal | joomla | laravel | phpmyadmin | wordpress =>
      exact absurd hspec List.not_mem_nil

/-! ## What an install registers -/

/-- The ports that an install registers after an accepted form are ports exactly if
the posted ones are integers from 1 to 65535. Of the class files that ask for numbers
they are empty or numbers. -/
theorem real_ports {sqlite : Sqlite} (hreads : ReadsNumerals sqlite) (found : VerifyFound)
    (db : Database) (form : PostedForm) (classFile : ClassFile) (package : PackageInfo)
    (m : Machine) :
    (RealPorts sqlite found db form classFile package m ↔
      (classFile.verify sqlite found db form = [] →
        ∀ spec ∈ classFile.endpoints, IsPosted (form.value spec.portField))) ∧
    (asksNumber classFile = true → classFile.verify sqlite found db form = [] →
      ∀ spec ∈ classFile.endpoints, (form.value spec.portField).toText = [] ∨
        Loose.isNumeric (form.value spec.portField).toText = true) := by
  refine ⟨?_, fun hasks haccepted _ hspec => isNumeric_of_verify hasks haccepted hspec⟩
  obtain ⟨extra, hrows, hvalues⟩ := Instance.rows_registeredRows sqlite package classFile
    { m with session := { m.session with pdata := some form } }
  change _ = m.db.endpoints.rows ++ extra at hrows
  change extra.map Prod.snd =
    classFile.endpoints.map (endpointRow sqlite form m.db.instances.nextId) at hvalues
  have hnew : ∀ entry ∈ extra, entry ∉ m.db.endpoints.rows := by
    intro entry hentry hold
    have hnodup := (registeredRows sqlite package classFile
      { m with session := { m.session with pdata := some form } }).endpoints.nodup
    rw [hrows, List.map_append] at hnodup
    exact (List.nodup_append.mp hnodup).2.2 _ (List.mem_map_of_mem hold) _
      (List.mem_map_of_mem hentry) rfl
  have hport : ∀ spec, IsPort (endpointRow sqlite form m.db.instances.nextId spec).port.toText ↔
      IsPosted (form.value spec.portField) := fun spec =>
    isPort_asInteger_iff hreads _ (value_eq_null_or_text form spec.portField)
  refine imp_congr_right fun _ => ?_
  constructor
  · intro hall spec hspec
    have hmem : endpointRow sqlite form m.db.instances.nextId spec ∈ extra.map Prod.snd :=
      hvalues ▸ List.mem_map_of_mem hspec
    obtain ⟨entry, hentry, hrow⟩ := List.mem_map.mp hmem
    rw [← hport, ← hrow]
    exact hall entry (hrows ▸ List.mem_append_right _ hentry) (hnew entry hentry)
  · intro hposted entry hentry hfresh
    rw [hrows, List.mem_append] at hentry
    have hmem : entry.2 ∈ extra.map Prod.snd :=
      List.mem_map_of_mem (hentry.resolve_left hfresh)
    rw [hvalues, List.mem_map] at hmem
    obtain ⟨spec, hspec, hrow⟩ := hmem
    rw [← hrow, hport]
    exact hposted spec hspec

/-! ## An engine and two forms -/

/-- An engine for samples: it keeps the point of the real numbers only. -/
def sampleEngine : Sqlite where
  integerAffinity t :=
    match whole? t with
    | some n => .int n
    | none => if (number? (t.rdropWhile isSpace)).isSome then .real ".".toList else .text t

theorem readsNumerals_sampleEngine : ReadsNumerals sampleEngine := by
  constructor
  · intro t n _ hread
    simp [sampleEngine, hread]
  · intro t hnone
    cases hread : whole? t with
    | some n =>
        have hlarge : 2 ^ 31 ≤ n.natAbs := Nat.not_lt.mp fun hsmall => hnone n hsmall hread
        exact .inr (.inl ⟨n, hlarge, by simp [sampleEngine, hread]⟩)
    | none =>
        by_cases hnumber : (number? (t.rdropWhile isSpace)).isSome
        · exact .inr (.inr ⟨".".toList, by simp [sampleEngine, hread, hnumber], '.', by decide⟩)
        · exact .inl (by simp [sampleEngine, hread, hnumber])

/-- The package of Apache. -/
def samplePackage : PackageInfo :=
  (Package.getById Instance.freshMachine.db 1).get (by decide)

/-- Apache with the ports 80 and 443. -/
theorem real_ports_sample :
    RealPorts sampleEngine Instance.sampleFound Instance.freshMachine.db
      (Instance.sampleForm "1" "80" "443") .apache samplePackage Instance.freshMachine := by
  refine (real_ports readsNumerals_sampleEngine _ _ _ _ _ _).1.mpr ?_
  intro _ spec hspec
  simp only [ClassFile.endpoints, List.mem_cons, List.not_mem_nil, or_false] at hspec
  rcases hspec with rfl | rfl
  · exact ⟨"80".toList, 80, by decide, by decide, by decide, by decide⟩
  · exact ⟨"443".toList, 443, by decide, by decide, by decide, by decide⟩

/-- Apache takes any text for its port. -/
theorem apache_port_not_real :
    ¬ ∀ (sqlite : Sqlite), ReadsNumerals sqlite → ∀ (found : VerifyFound) (db : Database)
      (form : PostedForm) (classFile : ClassFile) (package : PackageInfo) (m : Machine),
        RealPorts sqlite found db form classFile package m := by
  intro hall
  obtain ⟨n, hlow, hhigh, htext⟩ := hall sampleEngine readsNumerals_sampleEngine
    Instance.sampleFound Instance.freshMachine.db (Instance.sampleForm "1" "abc" "443") .apache
    samplePackage Instance.freshMachine (by decide) (1, endpointRow sampleEngine
      (Instance.sampleForm "1" "abc" "443") 1 ⟨"tcp".toList, "http_port".toList,
        some "http".toList⟩) (by decide) (by decide)
  have hread := whole?_decimal hlow hhigh
  have hnone : whole? "abc".toList = none := by decide
  rw [← htext] at hread
  exact absurd (hnone.symm.trans hread) (by simp)

end Ports

end WampManager
