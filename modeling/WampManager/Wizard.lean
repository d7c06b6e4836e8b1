/-
# The install wizard

A wizard takes three requests: the form is posted to `verify`, the wizard page is
loaded, and the page asks for the address it found in the session. All wizards of
a session share the two slots, so what an install reads is the form that was
accepted last, by whichever wizard. An install reads the form that was accepted
for it, and reads it first, exactly if nothing was accepted or installed since.
-/

import WampManager.Lib.Transition
import WampManager.Verify
import WampManager.Install

namespace WampManager

namespace Wizard

open Instance (Accepts InstallFound installUrl packageInstall packageVerify sampleFound)

/-- What the session went through: accepted forms, and installs with the number of
the form they read. -/
inductive Event
  | verified (packageId : ℤ) (form : PostedForm)
  | installed (packageId : ℤ) (read : Option ℕ)

/-- The machine, the addresses that the open wizard pages ask for, and what is
recorded about them: the events so far, and the event that wrote the form the
session holds. -/
structure State where
  machine : Machine
  pages : List Text
  log : List Event
  slot : Option ℕ

/-- The requests of wizards. -/
inductive Request
  | verify (found : VerifyFound) (packageId : ℤ) (form : PostedForm)
  | wizard
  | install (found : InstallFound) (packageId : ℤ)

/-- An address that the router takes for the install of a package. -/
def AsksFor (url : Text) (packageId : ℤ) : Prop :=
  ∃ digits : Text, digits ≠ [] ∧ digits.all Char.isDigit = true ∧ url = installUrl digits ∧
    packageId = Loose.value digits

/-- `POST /package/P/add`, and the record of an accepted form. -/
def verify (sqlite : Sqlite) (found : VerifyFound) (packageId : ℤ) (form : PostedForm)
    (s : State) : State :=
  let machine := (packageVerify sqlite found packageId form s.machine).state
  if Accepts sqlite found packageId form s.machine.db then
    { s with
      machine := machine
      log := s.log ++ [.verified packageId form]
      slot := some s.log.length }
  else { s with machine := machine }

/-- The wizard page shows the address of the session and takes it out. -/
def page (s : State) : State :=
  { s with
    machine := { s.machine with session := { s.machine.session with wizard := none } }
    pages := s.pages ++ [s.machine.session.wizard.getD []] }

/-- `GET /package/P/install`, and the record of what it read. -/
def install (env : Env) (sqlite : Sqlite) (found : InstallFound) (packageId : ℤ) (s : State) :
    State :=
  { s with
    machine := (packageInstall env sqlite found packageId s.machine).state
    log := s.log ++ [.installed packageId s.slot] }

/-- A request. A page asks for its own address only. -/
def Step (env : Env) (sqlite : Sqlite) (s : State) : Request → State → Prop
  | .verify found packageId form, s' => s' = verify sqlite found packageId form s
  | .wizard, s' => s' = page s
  | .install found packageId, s' =>
      (∃ url ∈ s.pages, AsksFor url packageId) ∧ s' = install env sqlite found packageId s

/-- Nothing was accepted or installed yet. -/
def Fresh (s : State) : Prop := s.log = [] ∧ s.slot = none

/-- An install reads the form that was accepted for its package, and no install
read it before. -/
def ReadsOwn (s : State) (packageId : ℤ) : Prop :=
  ∃ number form, s.slot = some number ∧ s.log[number]? = some (.verified packageId form) ∧
    s.machine.session.pdata = some form ∧ ∀ other, .installed other (some number) ∉ s.log

/-- The last thing that was accepted or installed is a form for the package. -/
def Follows (s : State) (packageId : ℤ) : Prop :=
  ∃ form, s.log.getLast? = some (.verified packageId form)

variable {env : Env} {sqlite : Sqlite} {s s' : State}

/-- The record fits the session: no form was accepted yet, or the session holds the
last one that was, and all installs since read that one. -/
def Recorded (s : State) : Prop :=
  s.slot = none ∧ (∀ event ∈ s.log, ∃ packageId, event = .installed packageId none) ∨
  ∃ before packageId form since,
    s.slot = some before.length ∧ s.log = before ++ .verified packageId form :: since ∧
    s.machine.session.pdata = some form ∧
    (∀ event ∈ since, ∃ other, event = .installed other (some before.length)) ∧
    ∀ other number, .installed other (some number) ∈ before → number < before.length

/-- An install record names an earlier event. -/
theorem Recorded.lt_length (h : Recorded s) {packageId : ℤ} {number : ℕ}
    (hevent : .installed packageId (some number) ∈ s.log) : number < s.log.length := by
  rcases h with ⟨-, hnone⟩ | ⟨before, own, form, since, -, hlog, -, hsince, hbefore⟩
  · obtain ⟨other, heq⟩ := hnone _ hevent
    cases heq
  · rw [hlog, List.length_append, List.length_cons]
    rw [hlog, List.mem_append, List.mem_cons] at hevent
    rcases hevent with hold | heq | hnew
    · have hlt := hbefore _ _ hold
      omega
    · cases heq
    · obtain ⟨other, heq⟩ := hsince _ hnew
      cases heq
      omega

theorem recorded_step (h : Recorded s) {request : Request} (hstep : Step env sqlite s request s') :
    Recorded s' := by
  cases request with
  | verify found packageId form =>
      obtain rfl := hstep
      unfold verify
      rw [Instance.packageVerify_eq]
      by_cases haccepts : Accepts sqlite found packageId form s.machine.db
      · rw [if_pos haccepts, if_pos haccepts]
        refine .inr ⟨s.log, packageId, form, [], rfl, rfl, rfl, by simp, ?_⟩
        exact fun other number hevent => h.lt_length hevent
      · rw [if_neg haccepts, if_neg haccepts]
        exact h
  | wizard =>
      obtain rfl := hstep
      exact h
  | install found packageId =>
      obtain ⟨-, rfl⟩ := hstep
      rcases h with ⟨hslot, hnone⟩ | ⟨before, own, form, since, hslot, hlog, hform, hsince, hbefore⟩
      · left
        refine ⟨hslot, ?_⟩
        intro event hevent
        rcases List.mem_append.mp hevent with hold | hnew
        · exact hnone event hold
        · exact ⟨packageId, by rw [List.mem_singleton.mp hnew, hslot]⟩
      · right
        refine ⟨before, own, form, since ++ [.installed packageId s.slot], hslot, ?_, ?_, ?_, hbefore⟩
        · show s.log ++ _ = _
          rw [hlog, List.append_assoc]
          rfl
        · show (packageInstall env sqlite found packageId s.machine).state.session.pdata = _
          rw [Instance.session_packageInstall]
          exact hform
        · intro event hevent
          rcases List.mem_append.mp hevent with hold | hnew
          · exact hsince event hold
          · exact ⟨packageId, by rw [List.mem_singleton.mp hnew, hslot]⟩

/-- Where the record fits, an install reads its own form exactly if it follows
it. -/
theorem readsOwn_iff_follows (h : Recorded s) (packageId : ℤ) :
    ReadsOwn s packageId ↔ Follows s packageId := by
  rcases h with ⟨hslot, hnone⟩ | ⟨before, own, form, since, hslot, hlog, hform, hsince, hbefore⟩
  · constructor
    · rintro ⟨number, form, hnumber, -⟩
      rw [hslot] at hnumber
      cases hnumber
    · rintro ⟨form, hlast⟩
      obtain ⟨other, heq⟩ := hnone _ (List.mem_of_getLast? hlast)
      cases heq
  · have hown : s.log[before.length]? = some (.verified own form) := by
      rw [hlog, List.getElem?_append_right (le_refl _), Nat.sub_self]
      rfl
    constructor
    · rintro ⟨number, form', hnumber, hevent, -, hunread⟩
      obtain rfl : before.length = number := Option.some.inj (hslot.symm.trans hnumber)
      have hempty : since = [] := by
        by_contra hne
        obtain ⟨event, hevent⟩ := List.exists_mem_of_ne_nil _ hne
        obtain ⟨other, rfl⟩ := hsince event hevent
        apply hunread other
        rw [hlog]
        exact List.mem_append_right _ (List.mem_cons_of_mem _ hevent)
      obtain ⟨rfl, -⟩ := Event.verified.inj (Option.some.inj (hown.symm.trans hevent))
      refine ⟨form, ?_⟩
      rw [hlog, hempty]
      simp
    · rintro ⟨form', hlast⟩
      have hempty : since = [] := by
        by_contra hne
        rw [hlog, List.getLast?_append_cons, List.getLast?_cons_of_ne_nil hne] at hlast
        obtain ⟨other, heq⟩ := hsince _ (List.mem_of_getLast? hlast)
        cases heq
      rw [hlog, hempty] at hlast
      have hsame : Event.verified own form = .verified packageId form' := by simpa using hlast
      obtain ⟨rfl, rfl⟩ := Event.verified.inj hsame
      refine ⟨before.length, form, hslot, hown, hform, ?_⟩
      intro other hevent
      rw [hlog, hempty, List.mem_append, List.mem_singleton] at hevent
      rcases hevent with hold | heq
      · exact absurd (hbefore _ _ hold) (lt_irrefl _)
      · cases heq

/-- In every run of wizards, an install reads the form that was accepted for its
package, and reads it first, exactly if no other form was accepted and nothing was
installed in between. -/
theorem wizard_reads_own_form (env : Env) (sqlite : Sqlite) {s₀ s : State} (hfresh : Fresh s₀)
    {requests : List Request} (run : Transition.Run (Step env sqlite) s₀ requests s) :
    ∀ found packageId s', Step env sqlite s (.install found packageId) s' →
      (ReadsOwn s packageId ↔ Follows s packageId) := by
  intro found packageId s' _
  have hstart : Recorded s₀ := by
    left
    refine ⟨hfresh.2, ?_⟩
    rw [hfresh.1]
    simp
  exact readsOwn_iff_follows
    (run.invariant Recorded hstart fun _ _ _ h hs => recorded_step h hs) packageId

/-! ## Runs on fixed inputs -/

/-- A session that begins. -/
def sampleState : State where
  machine := { Instance.freshMachine with session := ⟨none, none, false⟩ }
  pages := []
  log := []
  slot := none

/-- The wizard for Apache up to its page. -/
def sampleApache : State :=
  page (verify Instance.sampleSqlite sampleFound 1 (Instance.sampleForm "1" "80" "443")
    sampleState)

theorem run_sampleApache :
    Transition.Run (Step Site.sampleEnv Instance.sampleSqlite) sampleState
      [.verify sampleFound 1 (Instance.sampleForm "1" "80" "443"), .wizard] sampleApache := by
  have hverify : Step Site.sampleEnv Instance.sampleSqlite sampleState
      (.verify sampleFound 1 (Instance.sampleForm "1" "80" "443"))
      (verify Instance.sampleSqlite sampleFound 1 (Instance.sampleForm "1" "80" "443")
        sampleState) := rfl
  have hpage : Step Site.sampleEnv Instance.sampleSqlite
      (verify Instance.sampleSqlite sampleFound 1 (Instance.sampleForm "1" "80" "443")
        sampleState) .wizard sampleApache := rfl
  exact .snoc (.snoc (.nil _) hverify) hpage

theorem asksFor_sampleApache : ∃ url ∈ sampleApache.pages, AsksFor url 1 :=
  ⟨installUrl "1".toList, by decide, "1".toList, by decide, by decide, rfl, by decide⟩

/-- One wizard alone reads what it posted. -/
theorem wizard_reads_own_form_alone : ReadsOwn sampleApache 1 := by
  apply (wizard_reads_own_form Site.sampleEnv Instance.sampleSqlite ⟨rfl, rfl⟩ run_sampleApache
    Instance.allGood 1 _ ⟨asksFor_sampleApache, rfl⟩).mpr
  exact ⟨Instance.sampleForm "1" "80" "443", by rfl⟩

/-- A second wizard posts its form before the page of the first asks for its
install, which then reads the second form. -/
theorem wizards_mix_forms :
    ¬ ∀ requests s found packageId s', Transition.Run (Step Site.sampleEnv Instance.sampleSqlite)
      sampleState requests s → Step Site.sampleEnv Instance.sampleSqlite s
        (.install found packageId) s' → ReadsOwn s packageId := by
  intro hclaim
  let form := Instance.sampleForm "2" "81" "444"
  let s := verify Instance.sampleSqlite sampleFound 2 form sampleApache
  have hverify : Step Site.sampleEnv Instance.sampleSqlite sampleApache
      (.verify sampleFound 2 form) s := rfl
  have hrun := Transition.Run.snoc run_sampleApache hverify
  have hpages : ∃ url ∈ s.pages, AsksFor url 1 :=
    ⟨installUrl "1".toList, by decide, "1".toList, by decide, by decide, rfl, by decide⟩
  obtain ⟨number, own, hslot, hevent, -⟩ :=
    hclaim _ _ Instance.allGood 1 _ hrun ⟨hpages, rfl⟩
  have hread : s.slot = some 1 := by rfl
  obtain rfl : 1 = number := Option.some.inj (hread.symm.trans hslot)
  have hsecond : s.log[1]? = some (.verified 2 form) := by rfl
  rw [hsecond] at hevent
  obtain ⟨hpackage, -⟩ := Event.verified.inj (Option.some.inj hevent)
  exact absurd hpackage (by decide)

end Wizard

end WampManager
