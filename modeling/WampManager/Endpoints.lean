/-
# Endpoints that do not conflict

`verify` looks up every port of a form in the endpoint table, one by one; the
install that follows registers them without another look. What `verify` has found
free is free if nothing was registered since that it would find, if the install asks
for the ports that were looked up, and if two ports of one form differ; over a run
whose installs meet this the table stays free of conflicts.
-/

import Mathlib.Data.List.Pairwise
import WampManager.Lib.Transition
import WampManager.Verify
import WampManager.WholeInstances

namespace WampManager

namespace Endpoints

open Instance (classFileOf endpointRow)
open Util (anyInterface)

/-- Two interfaces overlap: they are equal, or one stands for all. -/
def Overlap (first second : SqlValue) : Prop :=
  first = second ∨ first = .text anyInterface ∨ second = .text anyInterface

/-- Two endpoints that cannot both be listened on. -/
structure Conflict (first second : EndpointRow) : Prop where
  proto : first.proto = second.proto
  port : first.port = second.port
  interface : Overlap first.interface second.interface

/-- The requests that read or write endpoints. -/
inductive Request
  | verify (found : VerifyFound) (packageId : ℤ) (form : PostedForm)
  | instances (request : Instance.Request)

/-- What a verification that accepted a form has looked at. -/
structure Checked where
  classFile : ClassFile
  form : PostedForm
  found : VerifyFound
  db : Database

/-- The machine, and the last verification that accepted a form. -/
structure State where
  machine : Machine
  checked : Option Checked

/-- A verification that accepts its form. -/
def check (sqlite : Sqlite) (s : State) : Request → Option Checked
  | .verify found packageId form =>
      match classFileOf s.machine.db packageId with
      | none => s.checked
      | some classFile =>
          if classFile.verify sqlite found s.machine.db form = [] then
            some ⟨classFile, form, found, s.machine.db⟩
          else s.checked
  | .instances _ => s.checked

/-- What a request does to the machine, however it ends. -/
def handle (env : Env) (sqlite : Sqlite) : Request → Machine → Machine
  | .verify found packageId form, m => (Instance.packageVerify sqlite found packageId form m).state
  | .instances request, m => (Instance.handle env sqlite request m).state

/-- A request, and the record of what it checked. -/
def Step (env : Env) (sqlite : Sqlite) (s : State) (request : Request) (s' : State) : Prop :=
  s' = ⟨handle env sqlite request s.machine, check sqlite s request⟩

/-- The endpoints that a form asks for conflict neither with the table nor with
each other. -/
structure Fits (sqlite : Sqlite) (form : PostedForm) (specs : List EndpointSpec) (m : Machine) :
    Prop where
  free : ∀ spec ∈ specs, ∀ key row, (key, row) ∈ m.db.endpoints.rows →
    ¬ Conflict row (endpointRow sqlite form m.db.instances.nextId spec)
  apart : specs.Pairwise fun first second =>
    ¬ Conflict (endpointRow sqlite form m.db.instances.nextId first)
      (endpointRow sqlite form m.db.instances.nextId second)

/-- What an install with a class file needs of the verification before it. -/
structure Covers (sqlite : Sqlite) (classFile : ClassFile) (db : Database) (c : Checked) :
    Prop where
  /-- It looked for every port that is registered. -/
  asked : ∀ spec ∈ classFile.endpoints, ∃ other ∈ c.classFile.endpoints,
    other.proto = spec.proto ∧ other.portField = spec.portField
  /-- The form has an interface and a value for each port. -/
  posted : c.form.value "interface".toList ≠ .null ∧
    ∀ spec ∈ classFile.endpoints, sqlite.asInteger (c.form.value spec.portField) ≠ .null
  /-- Two ports of one protocol differ. -/
  apart : classFile.endpoints.Pairwise fun first second => first.proto = second.proto →
    sqlite.asInteger (c.form.value first.portField) ≠
      sqlite.asInteger (c.form.value second.portField)
  /-- What was registered since is nothing that the verification looks for. -/
  since : ∀ entry ∈ db.endpoints.rows, entry ∈ c.db.endpoints.rows ∨
    ∀ spec ∈ classFile.endpoints, Util.rowHas sqlite spec.proto
      (c.form.value "interface".toList) (c.form.value spec.portField) entry.2 = false

/-- The guard of a request: an install that gets its download comes behind a
verification that covers it. -/
def Keeps (sqlite : Sqlite) (s : State) : Request → Prop
  | .instances (.install found packageId) => found.downloads = true →
      ∀ classFile ∈ classFileOf s.machine.db packageId, classFile.isApp = false →
        ∃ c ∈ s.checked, Covers sqlite classFile s.machine.db c
  | .instances (.uninstall _) => True
  | .verify _ _ _ => True

/-- The record fits the machine: its form was accepted and is in the session. -/
def Recorded (sqlite : Sqlite) (s : State) : Prop :=
  ∀ c ∈ s.checked, c.classFile.verify sqlite c.found c.db c.form = [] ∧
    s.machine.session.pdata = some c.form

variable {env : Env} {sqlite : Sqlite} {m m' : Machine} {db : Database} {s s' : State}

theorem Overlap.symm {first second : SqlValue} (h : Overlap first second) :
    Overlap second first := by
  rcases h with heq | hfirst | hsecond
  · exact .inl heq.symm
  · exact .inr (.inr hfirst)
  · exact .inr (.inl hsecond)

theorem Conflict.symm {first second : EndpointRow} (h : Conflict first second) :
    Conflict second first :=
  ⟨h.proto.symm, h.port.symm, h.interface.symm⟩

/-- A verification that accepts its form puts it into the session; other requests leave
the form there as it is. -/
theorem recorded_step (h : Recorded sqlite s) {request : Request}
    (hstep : Step env sqlite s request s') : Recorded sqlite s' := by
  obtain rfl := hstep
  cases request with
  | verify found packageId form =>
      show Recorded sqlite ⟨(Instance.packageVerify sqlite found packageId form s.machine).state,
        match classFileOf s.machine.db packageId with
        | none => s.checked
        | some classFile =>
            if classFile.verify sqlite found s.machine.db form = [] then
              some ⟨classFile, form, found, s.machine.db⟩
            else s.checked⟩
      unfold Instance.packageVerify
      cases hclass : classFileOf s.machine.db packageId with
      | none => exact h
      | some classFile =>
          by_cases haccepts : classFile.verify sqlite found s.machine.db form = []
          · simp only [if_pos haccepts]
            intro c hc
            obtain rfl := Option.some.inj hc
            exact ⟨haccepts, rfl⟩
          · simp only [if_neg haccepts]
            exact h
  | instances request =>
      have hpdata : (Instance.handle env sqlite request s.machine).state.session.pdata =
          s.machine.session.pdata := by
        cases request with
        | install found packageId =>
            rw [Instance.handle, Instance.session_packageInstall]
        | uninstall request =>
            rw [Instance.handle]
            rcases Instance.controlUninstall_spec env request.found request.instanceId
              request.packageId s.machine with
              ⟨-, session, cs, hsession, hdone⟩ | ⟨classFile, package, cs, -, -, hdone⟩
            · rw [hdone]
              exact hsession
            · rw [hdone, Instance.pdata_removed]
      exact fun c hc => ⟨(h c hc).1, hpdata.trans (h c hc).2⟩

/-- The states after requests, one after another. -/
def reached (requests : List Request) (s : State) : State :=
  requests.foldl (fun s request =>
    ⟨handle Site.sampleEnv Instance.sampleSqlite request s.machine,
      check Instance.sampleSqlite s request⟩) s

end Endpoints

end WampManager
