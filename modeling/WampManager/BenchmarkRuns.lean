/-
# Benchmarks that run

A benchmark is a row, a file that marks it as running, and two commands in the
background: one prints into a second file, the other removes the mark. Loading the
list takes the output of every benchmark without a mark into its row. Requests and
commands interleave in any order; a key is never used twice, so what a row ends up
with is what its own benchmark printed, and all of it.
-/

import Mathlib.Logic.Function.Basic
import WampManager.Benchmark
import WampManager.Lib.Transition

namespace WampManager

namespace BenchmarkController

open Loose (truthy)

/-! ## What the list shows -/

/-- A row of `benchmark`. -/
structure Row where
  benchmark : Benchmark
  raw : SqlValue
  rps : SqlValue

/-- What `\s` stands for. -/
def isSpace (c : Char) : Bool := c ∈ [' ', '\t', '\n', '\x0b', '\x0c', '\r']

/-- The expression for the requests per second, at the front of a text. -/
def matchRps (t : Text) : Option Text :=
  if "Requests per second:".toList.isPrefixOf t then
    let rest := t.drop "Requests per second:".length
    let number := rest.dropWhile isSpace
    let whole := number.takeWhile Char.isDigit
    match number.dropWhile Char.isDigit with
    | '.' :: fraction =>
        let fraction := fraction.takeWhile Char.isDigit
        if rest.takeWhile isSpace = [] ∨ whole = [] ∨ fraction = [] then none
        else some (whole ++ '.' :: fraction)
    | _ => none
  else none

/-- The first match in a text. -/
def findRps : Text → Option Text
  | [] => none
  | c :: t => (matchRps (c :: t)).orElse fun _ => findRps t

/-- What is stored as the requests per second; a file that is not there is an empty
text. -/
def rps (data : Option Text) : Text := (findRps (data.getD [])).getD ['-']

/-- What is stored as the output; a file that is not there is false. -/
def raw : Option Text → Text
  | some data => data
  | none => ['0']

/-! ## Requests and commands -/

/-- A command interpreter in the background: the form and the row it was started for,
the commands it has not finished, whether it is in the first of them, and what the
benchmark has printed. -/
structure Job where
  id : ℤ
  form : PostedForm
  queued : Queued
  commands : List Cmd.Command
  running : Bool
  printed : Text

/-- The rows, the files, and what was started. -/
structure State where
  benchmarks : Table Row
  files : Text → Option Text
  jobs : List Job

section Model

variable (wampPath : Text)

/-- The files of a row. -/
def txtFile (id : ℤ) : Text := txtPath wampPath id.toNat

def pidFile (id : ℤ) : Text := pidPath wampPath id.toNat

/-- The commands of a line that is executed. -/
def commandsOf (line : Text) : List Cmd.Command :=
  ((handedOver wampPath line).map fun command =>
    Cmd.commands (Cmd.read separates command)).getD []

/-- `BenchmarkController::create`; the program that starts the interpreter prints its
number into the file that marks the benchmark. -/
def request (form : PostedForm) (site? : Option Site) (time : ℤ) (pid : Text) (s : State) :
    State :=
  let id := s.benchmarks.nextId
  let outcome := create wampPath form site? time id.toNat
  let files := match outcome.file with
    | some (path, data) => Function.update s.files path (some data)
    | none => s.files
  match outcome.result with
  | .error _ => { s with files := files }
  | .ok queued =>
      { benchmarks := s.benchmarks.insert ⟨queued.benchmark, .null, .null⟩
        files := Function.update files (pidFile wampPath id) (some pid)
        jobs := s.jobs ++
          [⟨id, form, queued, commandsOf wampPath queued.line, false, []⟩] }

/-- One row in the loop of `index`. -/
def collect (s : State) (row : ℤ × Row) : State :=
  if truthy row.2.raw.toText then s
  else if (s.files (pidFile wampPath row.1)).isSome then s
  else
    let data := s.files (txtFile wampPath row.1)
    { s with
      benchmarks := s.benchmarks.update (fun id _ => id == row.1) fun r =>
        { r with rps := .text (rps data), raw := .text (raw data) }
      files := Function.update s.files (txtFile wampPath row.1) none }

/-- `BenchmarkController::index` over the rows that were fetched. -/
def index (fetched : List (ℤ × Row)) (s : State) : State := fetched.foldl (collect wampPath) s

/-- `BenchmarkController::delete`. -/
def delete (id : ℤ) (s : State) : State :=
  { s with benchmarks := s.benchmarks.delete fun key _ => key == id }

/-- `BenchmarkController::clear`. -/
def clear (s : State) : State :=
  { s with benchmarks := s.benchmarks.delete fun _ _ => true }

/-- What the interpreter of a benchmark does next. -/
inductive Act
  | start
  | print (chunk : Text)
  | exit
  | del

/-- A benchmark's file is emptied when its command starts, grows with what is printed,
and stays; what a command without a file prints goes nowhere, and `del` removes a file. -/
def Job.act (files : Text → Option Text) (job : Job) : Act → Option (Job × (Text → Option Text))
  | .start =>
      match job.commands with
      | command :: _ =>
          match output command with
          | some path =>
              if job.running then none
              else some ({ job with running := true, printed := [] },
                Function.update files path (some []))
          | none =>
              if job.running ∨ command.words.head? = some "del".toList then none
              else some ({ job with running := true, printed := [] }, files)
      | [] => none
  | .print chunk =>
      match job.commands with
      | command :: _ =>
          match output command with
          | some path =>
              if job.running then
                some ({ job with printed := job.printed ++ chunk },
                  Function.update files path (some (job.printed ++ chunk)))
              else none
          | none => if job.running then some (job, files) else none
      | [] => none
  | .exit =>
      if job.running then some ({ job with running := false, commands := job.commands.tail }, files)
      else none
  | .del =>
      match job.commands with
      | command :: rest =>
          match command.words with
          | [del, path] =>
              if del = "del".toList ∧ job.running = false then
                some ({ job with commands := rest }, Function.update files path none)
              else none
          | _ => none
      | [] => none

/-- The benchmark in the background after a step of its own. -/
def replace (job : Job) (s : State) : State :=
  { s with jobs := s.jobs.map fun other => if other.id = job.id then job else other }

/-- What happens next. -/
inductive Label
  | create (form : PostedForm) (site? : Option Site) (time : ℤ) (pid : Text)
  | index (fetched : List (ℤ × Row))
  | delete (id : ℤ)
  | clear
  | act (id : ℤ) (act : Act)

/-- A form whose benchmark runs as it is meant. -/
def Plain (form : PostedForm) (site? : Option Site) : Prop :=
  Verbatim wampPath form ∧ ∀ c ∈ address form site?, Cmd.isPlain separates c = true

/-- Forms that are accepted are plain. -/
def AsMeant (_ : State) : Label → Prop
  | .create form site? _ _ => errors form = [] → Plain wampPath form site?
  | _ => True

/-- One request, or one step of something in the background. -/
def Step (s : State) (label : Label) (s' : State) : Prop :=
  match label with
  | .create form site? time pid => s' = request wampPath form site? time pid s
  | .index fetched => fetched.Perm s.benchmarks.rows ∧ s' = index wampPath fetched s
  | .delete id => s' = delete id s
  | .clear => s' = clear s
  | .act id act =>
      ∃ job ∈ s.jobs, job.id = id ∧ ∃ job' files, job.act s.files act = some (job', files) ∧
        s' = replace job' { s with files := files }

/-- Steps that accept plain forms only. -/
def Meant : State → Label → State → Prop := Transition.Guarded (AsMeant wampPath) (Step wampPath)

/-- No rows, nothing in the background, and no files of benchmarks to come. -/
structure Fresh (s : State) : Prop where
  rows : s.benchmarks.rows = []
  seq : 0 ≤ s.benchmarks.seq
  jobs : s.jobs = []
  files : ∀ id, s.benchmarks.seq < id → s.files (txtFile wampPath id) = none

end Model

/-! ## Files that are told apart -/

variable {wampPath : Text}

theorem toDigits_injective {m n : ℕ} (h : Nat.toDigits 10 m = Nat.toDigits 10 n) : m = n := by
  have hm := Nat.ofDigitChars_toDigits (b := 10) (n := m) (by decide) (by decide)
  rw [h, Nat.ofDigitChars_toDigits (by decide) (by decide)] at hm
  exact hm.symm

theorem toNat_inj {i j : ℤ} (hi : 0 ≤ i) (hj : 0 ≤ j) (h : i.toNat = j.toNat) : i = j := by
  omega

theorem txtFile_inj {i j : ℤ} (hi : 0 ≤ i) (hj : 0 ≤ j)
    (h : txtFile wampPath i = txtFile wampPath j) : i = j := by
  apply toNat_inj hi hj
  apply toDigits_injective
  have hcut := List.append_cancel_left (List.append_cancel_right h)
  exact (List.cons.inj hcut).2

theorem pidFile_inj {i j : ℤ} (hi : 0 ≤ i) (hj : 0 ≤ j)
    (h : pidFile wampPath i = pidFile wampPath j) : i = j := by
  apply toNat_inj hi hj
  apply toDigits_injective
  have hcut := List.append_cancel_left (List.append_cancel_right h)
  exact (List.cons.inj hcut).2

theorem getLast?_txtFile (i : ℤ) : (txtFile wampPath i).getLast? = some 't' := by
  rw [txtFile, txtPath, List.getLast?_append_of_ne_nil _ (by decide)]
  rfl

theorem getLast?_pidFile (i : ℤ) : (pidFile wampPath i).getLast? = some 'd' := by
  rw [pidFile, pidPath, List.getLast?_append_of_ne_nil _ (by decide)]
  rfl

theorem txtFile_ne_pidFile (i j : ℤ) : txtFile wampPath i ≠ pidFile wampPath j := by
  intro h
  have hlast := congrArg List.getLast? h
  rw [getLast?_txtFile, getLast?_pidFile] at hlast
  exact absurd hlast (by decide)

theorem dataPath_ne_txtFile (i : ℤ) : dataPath wampPath ≠ txtFile wampPath i := by
  intro h
  have hsplit : tmpPath wampPath ++ ("\\data".toList ++ ".txt".toList) =
      tmpPath wampPath ++ ('\\' :: Nat.toDigits 10 i.toNat ++ ".txt".toList) := by
    rw [← List.append_assoc (tmpPath wampPath) ('\\' :: _)]
    exact h
  have hdigits : "\\data".toList = '\\' :: Nat.toDigits 10 i.toNat :=
    List.append_cancel_right (List.append_cancel_left hsplit)
  have hmem : 'd' ∈ Nat.toDigits 10 i.toNat := by
    rw [← (List.cons.inj hdigits).2]
    decide
  exact absurd (Nat.isDigit_of_mem_toDigits (by decide) (by decide) hmem) (by decide)

theorem dataPath_ne_pidFile (i : ℤ) : dataPath wampPath ≠ pidFile wampPath i := by
  intro h
  have hlast := congrArg List.getLast? h
  have hdata : (dataPath wampPath).getLast? = some 't' := by simp [dataPath]
  rw [hdata, getLast?_pidFile] at hlast
  exact absurd hlast (by decide)

/-- The files of a row are the same in both. -/
def Agree (wampPath : Text) (id : ℤ) (files files' : Text → Option Text) : Prop :=
  files' (txtFile wampPath id) = files (txtFile wampPath id) ∧
    files' (pidFile wampPath id) = files (pidFile wampPath id)

theorem agree_update_txt {i j : ℤ} (hi : 0 ≤ i) (hj : 0 ≤ j) (hne : i ≠ j)
    (files : Text → Option Text) (content : Option Text) :
    Agree wampPath i files (Function.update files (txtFile wampPath j) content) := by
  apply And.intro
  · exact Function.update_of_ne (fun h => hne (txtFile_inj hi hj h)) _ _
  · exact Function.update_of_ne (txtFile_ne_pidFile j i).symm _ _

theorem agree_update_pid {i j : ℤ} (hi : 0 ≤ i) (hj : 0 ≤ j) (hne : i ≠ j)
    (files : Text → Option Text) (content : Option Text) :
    Agree wampPath i files (Function.update files (pidFile wampPath j) content) := by
  apply And.intro
  · exact Function.update_of_ne (txtFile_ne_pidFile i j) _ _
  · exact Function.update_of_ne (fun h => hne (pidFile_inj hi hj h)) _ _

theorem agree_update_data (id : ℤ) (files : Text → Option Text) (content : Option Text) :
    Agree wampPath id files (Function.update files (dataPath wampPath) content) := by
  apply And.intro
  · exact Function.update_of_ne (dataPath_ne_txtFile id).symm _ _
  · exact Function.update_of_ne (dataPath_ne_pidFile id).symm _ _

theorem Agree.trans {id : ℤ} {f g h : Text → Option Text} (hfg : Agree wampPath id f g)
    (hgh : Agree wampPath id g h) : Agree wampPath id f h :=
  ⟨hgh.1.trans hfg.1, hgh.2.trans hfg.2⟩

/-! ## How far a benchmark is -/

/-- The command that removes the mark. -/
def delCommand (wampPath : Text) (id : ℤ) : Cmd.Command := ⟨["del".toList, pidFile wampPath id], []⟩

/-- A command that runs the benchmark into its file. -/
structure RunsInto (wampPath : Text) (id : ℤ) (command : Cmd.Command) : Prop where
  head : command.words.head? = some (abs wampPath)
  output : output command = some (txtFile wampPath id)

/-- The commands that are left, and what the files hold meanwhile: the mark stays until
the last of them, and from the first one on the file holds what was printed. -/
inductive Sound (wampPath : Text) (files : Text → Option Text) (job : Job) : Prop
  | waiting (command : Cmd.Command) (runs : RunsInto wampPath job.id command)
      (commands : job.commands = [command, delCommand wampPath job.id])
      (running : job.running = false) (printed : job.printed = [])
      (txt : files (txtFile wampPath job.id) = none)
      (pid : (files (pidFile wampPath job.id)).isSome = true)
  | printing (command : Cmd.Command) (runs : RunsInto wampPath job.id command)
      (commands : job.commands = [command, delCommand wampPath job.id])
      (running : job.running = true)
      (txt : files (txtFile wampPath job.id) = some job.printed)
      (pid : (files (pidFile wampPath job.id)).isSome = true)
  | printed (commands : job.commands = [delCommand wampPath job.id])
      (running : job.running = false)
      (txt : files (txtFile wampPath job.id) = some job.printed)
      (pid : (files (pidFile wampPath job.id)).isSome = true)
  | ended (commands : job.commands = []) (running : job.running = false)
      (pid : files (pidFile wampPath job.id) = none)

theorem Sound.congr {files files' : Text → Option Text} {job : Job}
    (h : Sound wampPath files job) (hfiles : Agree wampPath job.id files files') :
    Sound wampPath files' job := by
  cases h with
  | waiting command runs commands running printed txt pid =>
      exact .waiting command runs commands running printed (hfiles.1 ▸ txt) (hfiles.2 ▸ pid)
  | printing command runs commands running txt pid =>
      exact .printing command runs commands running (hfiles.1 ▸ txt) (hfiles.2 ▸ pid)
  | printed commands running txt pid =>
      exact .printed commands running (hfiles.1 ▸ txt) (hfiles.2 ▸ pid)
  | ended commands running pid => exact .ended commands running (hfiles.2 ▸ pid)

/-- The mark is gone exactly if nothing is left to do. -/
theorem Sound.pid_iff {files : Text → Option Text} {job : Job} (h : Sound wampPath files job) :
    (files (pidFile wampPath job.id)).isSome = true ↔ job.commands ≠ [] := by
  cases h with
  | waiting command runs commands running printed txt pid => simp [commands, pid]
  | printing command runs commands running txt pid => simp [commands, pid]
  | printed commands running txt pid => simp [commands, pid]
  | ended commands running pid => simp [commands, pid]

theorem RunsInto.words_ne {id : ℤ} {command : Cmd.Command} (h : RunsInto wampPath id command)
    (path : Text) : command.words ≠ ["del".toList, path] := by
  intro hwords
  have hhead := h.head
  rw [hwords] at hhead
  have hdel : "del".toList ≠ abs wampPath :=
    (ne_of_mem_of_not_mem' slash_mem_abs (by decide)).symm
  exact hdel (Option.some.inj hhead)

theorem output_delCommand (id : ℤ) : output (delCommand wampPath id) = none := rfl

/-- A benchmark that has ended does not miss its file. -/
theorem Sound.taken {files : Text → Option Text} {job : Job} (h : Sound wampPath files job)
    (hended : job.commands = []) :
    Sound wampPath (Function.update files (txtFile wampPath job.id) none) job := by
  cases h with
  | waiting command runs commands => rw [hended] at commands; cases commands
  | printing command runs commands => rw [hended] at commands; cases commands
  | printed commands => rw [hended] at commands; cases commands
  | ended commands running pid =>
      exact .ended commands running
        (by rwa [Function.update_of_ne (txtFile_ne_pidFile _ _).symm])

/-- What a step in the background leads to. -/
structure Acted (wampPath : Text) (files : Text → Option Text) (job job' : Job)
    (files' : Text → Option Text) : Prop where
  id : job'.id = job.id
  form : job'.form = job.form
  queued : job'.queued = job.queued
  sound : Sound wampPath files' job'
  more : job.commands ≠ []
  ends : job'.commands = [] → files' (txtFile wampPath job'.id) = some job'.printed
  others : ∀ id, 0 ≤ id → id ≠ job.id → Agree wampPath id files files'

theorem act_waiting {files files' : Text → Option Text} {job job' : Job} {act : Act}
    {command : Cmd.Command} (runs : RunsInto wampPath job.id command)
    (commands : job.commands = [command, delCommand wampPath job.id])
    (running : job.running = false) (hact : job.act files act = some (job', files')) :
    job' = { job with running := true, printed := [] } ∧
      files' = Function.update files (txtFile wampPath job.id) (some []) := by
  cases act with
  | start => simpa [Job.act, commands, runs.output, running, eq_comm] using hact
  | print chunk => simp [Job.act, commands, runs.output, running] at hact
  | exit => simp [Job.act, running] at hact
  | del =>
      simp only [Job.act, commands] at hact
      split at hact
      · next del path hwords =>
          split at hact
          · next hdel => exact absurd (hdel.1 ▸ hwords) (runs.words_ne path)
          · cases hact
      · cases hact

theorem act_printing {files files' : Text → Option Text} {job job' : Job} {act : Act}
    {command : Cmd.Command} (runs : RunsInto wampPath job.id command)
    (commands : job.commands = [command, delCommand wampPath job.id])
    (running : job.running = true) (hact : job.act files act = some (job', files')) :
    (∃ chunk, job' = { job with printed := job.printed ++ chunk } ∧
        files' = Function.update files (txtFile wampPath job.id) (some (job.printed ++ chunk))) ∨
      job' = { job with running := false, commands := [delCommand wampPath job.id] } ∧
        files' = files := by
  cases act with
  | start => simp [Job.act, commands, runs.output, running] at hact
  | print chunk =>
      apply Or.inl
      exact ⟨chunk, by simpa [Job.act, commands, runs.output, running, eq_comm] using hact⟩
  | exit =>
      apply Or.inr
      simpa [Job.act, commands, running, eq_comm] using hact
  | del =>
      simp only [Job.act, commands, running] at hact
      split at hact
      · simp at hact
      · cases hact

theorem act_printed {files files' : Text → Option Text} {job job' : Job} {act : Act}
    (commands : job.commands = [delCommand wampPath job.id]) (running : job.running = false)
    (hact : job.act files act = some (job', files')) :
    job' = { job with commands := [] } ∧
      files' = Function.update files (pidFile wampPath job.id) none := by
  cases act with
  | start =>
      have hdel : (delCommand wampPath job.id).words.head? = some "del".toList := rfl
      simp [Job.act, commands, output_delCommand, hdel] at hact
  | print chunk => simp [Job.act, commands, output_delCommand, running] at hact
  | exit => simp [Job.act, running] at hact
  | del => simpa [Job.act, commands, delCommand, running, eq_comm] using hact

/-- One step of one benchmark: its own files go along, those of the others stay. -/
theorem Sound.act {files files' : Text → Option Text} {job job' : Job} {act : Act}
    (h : Sound wampPath files job) (hpos : 0 ≤ job.id)
    (hact : job.act files act = some (job', files')) : Acted wampPath files job job' files' := by
  cases h with
  | waiting command runs commands running printed txt pid =>
      obtain ⟨rfl, rfl⟩ := act_waiting runs commands running hact
      exact
        { id := rfl
          form := rfl
          queued := rfl
          sound := .printing command runs commands rfl (Function.update_self _ _ _)
            (by rwa [Function.update_of_ne (txtFile_ne_pidFile _ _).symm])
          more := by simp [commands]
          ends := by simp [commands]
          others := fun id hid hne => agree_update_txt hid hpos hne _ _ }
  | printing command runs commands running txt pid =>
      rcases act_printing runs commands running hact with ⟨chunk, rfl, rfl⟩ | ⟨rfl, rfl⟩
      · exact
          { id := rfl
            form := rfl
            queued := rfl
            sound := .printing command runs commands running (Function.update_self _ _ _)
              (by rwa [Function.update_of_ne (txtFile_ne_pidFile _ _).symm])
            more := by simp [commands]
            ends := by simp [commands]
            others := fun id hid hne => agree_update_txt hid hpos hne _ _ }
      · exact
          { id := rfl
            form := rfl
            queued := rfl
            sound := .printed rfl rfl txt pid
            more := by simp [commands]
            ends := by simp
            others := fun _ _ _ => ⟨rfl, rfl⟩ }
  | printed commands running txt pid =>
      obtain ⟨rfl, rfl⟩ := act_printed commands running hact
      exact
        { id := rfl
          form := rfl
          queued := rfl
          sound := .ended rfl running (Function.update_self _ _ _)
          more := by simp [commands]
          ends := fun _ => by rwa [Function.update_of_ne (txtFile_ne_pidFile _ _)]
          others := fun id hid hne => agree_update_pid hid hpos hne _ _ }
  | ended commands running pid =>
      cases act <;> simp [Job.act, commands, running] at hact

/-! ## Rows and the benchmarks they are of -/

/-- What a row says about its benchmark: nothing yet, or what the benchmark printed until
it ended. An output that counts as false is looked for again, and gone then. -/
inductive Owns (wampPath : Text) (files : Text → Option Text) (r : Row) (job : Job) : Prop
  | pending (benchmark : job.queued.benchmark = r.benchmark) (raw : r.raw = .null)
      (rps : r.rps = .null)
      (txt : job.commands = [] → files (txtFile wampPath job.id) = some job.printed)
  | taken (benchmark : job.queued.benchmark = r.benchmark) (commands : job.commands = [])
      (txt : files (txtFile wampPath job.id) = none)
      (rps : r.rps = .text (rps (some job.printed)))
      (raw : r.raw = .text job.printed ∨ truthy job.printed = false ∧ r.raw = .text ['0'])

theorem Owns.congr {files files' : Text → Option Text} {r : Row} {job : Job}
    (h : Owns wampPath files r job) (hfiles : Agree wampPath job.id files files') :
    Owns wampPath files' r job := by
  cases h with
  | pending benchmark raw rps txt =>
      exact .pending benchmark raw rps fun hended => hfiles.1.trans (txt hended)
  | taken benchmark commands txt rps raw =>
      exact .taken benchmark commands (hfiles.1.trans txt) rps raw

/-- What holds between requests and commands. -/
structure Inv (wampPath : Text) (s : State) : Prop where
  seq : 0 ≤ s.benchmarks.seq
  ids : (s.jobs.map Job.id).Nodup
  range : ∀ job ∈ s.jobs, 0 ≤ job.id ∧ job.id ≤ s.benchmarks.seq
  sound : ∀ job ∈ s.jobs, Sound wampPath s.files job
  stored : ∀ job ∈ s.jobs, RunsStored wampPath job.form job.id.toNat job.queued
  unused : ∀ id, s.benchmarks.seq < id → s.files (txtFile wampPath id) = none
  rows : ∀ row ∈ s.benchmarks.rows, ∃ job ∈ s.jobs, job.id = row.1 ∧
    Owns wampPath s.files row.2 job

theorem Fresh.inv {s : State} (h : Fresh wampPath s) : Inv wampPath s where
  seq := h.seq
  ids := by simp [h.jobs]
  range := by simp [h.jobs]
  sound := by simp [h.jobs]
  stored := by simp [h.jobs]
  unused := h.files
  rows := by simp [h.rows]

/-! ## What an output that counts as false holds -/

theorem findRps_of_not_truthy {t : Text} (h : truthy t = false) : findRps t = none := by
  have hcases : t = [] ∨ t = ['0'] := by
    by_cases hnil : t = []
    · exact .inl hnil
    · apply Or.inr
      simpa [truthy, hnil] using h
  rcases hcases with rfl | rfl <;> rfl

theorem rps_of_not_truthy {t : Text} (h : truthy t = false) : rps (some t) = rps none := by
  rw [rps, rps, Option.getD_some, findRps_of_not_truthy h]
  rfl

/-! ## Requests keep it -/

/-- The commands of a form whose benchmark runs as it is meant. -/
theorem commandsOf_line {form : PostedForm} {site? : Option Site} (h : Plain wampPath form site?)
    (herrors : errors form = []) (id : ℤ) :
    ∃ command, RunsInto wampPath id command ∧
      commandsOf wampPath (line wampPath form (address form site?) id.toNat) =
        [command, delCommand wampPath id] := by
  obtain ⟨hverbatim, hplain⟩ := h
  obtain ⟨ws, n, hfront, -, -⟩ := exists_readsWords_front hverbatim herrors
  have hne : address form site? ≠ [] := by simp [address]
  have hclean : ∀ c ∈ address form site?, c ∉ "\"\n\x00".toList := fun c hc =>
    Cmd.not_mem_of_not_isSpecial (not_isSpecial_of_plain hplain c hc)
  have hread : Cmd.read separates (handed wampPath form (address form site?) id.toNat) =
      (abs wampPath :: ws ++ [n] ++ [address form site?]).map .word ++
        backTokens wampPath id.toNat := by
    rw [Cmd.read, handed, Cmd.Reads.run hfront, Cmd.State.fresh, Cmd.run_plain hplain,
      if_neg hne, run_back hverbatim]
    simp only [List.map_append, List.append_assoc]
    rfl
  refine ⟨⟨abs wampPath :: ws ++ [n] ++ [address form site?],
    [('>', none, txtPath wampPath id.toNat), ('>', some '2', "&1".toList)]⟩, ⟨rfl, rfl⟩, ?_⟩
  rw [commandsOf, handedOver_line hverbatim herrors hclean, Option.map_some, Option.getD_some,
    hread, Cmd.commands_words, commands_backTokens, List.modifyHead_cons, List.append_nil]
  rfl

/-- The file for the data is none of the files of a row. -/
theorem agree_data (form : PostedForm) (site? : Option Site) (time : ℤ) (insertId : ℕ) (id : ℤ)
    (files : Text → Option Text) :
    Agree wampPath id files
      (match (create wampPath form site? time insertId).file with
        | some (path, data) => Function.update files path (some data)
        | none => files) := by
  rw [create]
  cases dataOption (posted form "method") with
  | none => exact ⟨rfl, rfl⟩
  | some flag => exact agree_update_data id files _

theorem Inv.congr {s : State} (h : Inv wampPath s) {files : Text → Option Text}
    (hfiles : ∀ id, Agree wampPath id s.files files) : Inv wampPath { s with files := files } where
  seq := h.seq
  ids := h.ids
  range := h.range
  sound := fun job hjob => (h.sound job hjob).congr (hfiles job.id)
  stored := h.stored
  unused := fun id hid => (hfiles id).1.trans (h.unused id hid)
  rows := by
    intro row hrow
    obtain ⟨job, hjob, hid, howns⟩ := h.rows row hrow
    exact ⟨job, hjob, hid, howns.congr (hfiles job.id)⟩

/-- A new row under the next key, its mark, and its benchmark in the background. -/
theorem Inv.start {s : State} (h : Inv wampPath s) (job : Job) (hid : job.id = s.benchmarks.nextId)
    (hstored : RunsStored wampPath job.form job.id.toNat job.queued) {command : Cmd.Command}
    (runs : RunsInto wampPath job.id command)
    (commands : job.commands = [command, delCommand wampPath job.id])
    (running : job.running = false) (printed : job.printed = []) (pid : Text) :
    Inv wampPath
      { benchmarks := s.benchmarks.insert ⟨job.queued.benchmark, .null, .null⟩
        files := Function.update s.files (pidFile wampPath job.id) (some pid)
        jobs := s.jobs ++ [job] } := by
  have hnext : s.benchmarks.nextId = s.benchmarks.seq + 1 := rfl
  have hseq := h.seq
  have hagree : ∀ id, 0 ≤ id → id ≠ job.id → Agree wampPath id s.files
      (Function.update s.files (pidFile wampPath job.id) (some pid)) := fun id hpos hne =>
    agree_update_pid hpos (by omega) hne _ _
  have hold : ∀ old ∈ s.jobs, old.id ≠ job.id := by
    intro old hmem heq
    have hle := (h.range old hmem).2
    omega
  have htxt : Function.update s.files (pidFile wampPath job.id) (some pid)
      (txtFile wampPath job.id) = none := by
    rw [Function.update_of_ne (txtFile_ne_pidFile _ _)]
    exact h.unused job.id (by omega)
  have hpid : (Function.update s.files (pidFile wampPath job.id) (some pid)
      (pidFile wampPath job.id)).isSome = true := by
    rw [Function.update_self]
    rfl
  have hunused : ∀ id, s.benchmarks.nextId < id →
      Function.update s.files (pidFile wampPath job.id) (some pid) (txtFile wampPath id) = none := by
    intro id hgt
    rw [Function.update_of_ne (txtFile_ne_pidFile _ _)]
    exact h.unused id (by omega)
  exact
    { seq := by
        show 0 ≤ s.benchmarks.nextId
        omega
      ids := by
        rw [List.map_append, List.nodup_append]
        refine ⟨h.ids, List.nodup_singleton _, ?_⟩
        intro id hid' id' hid'' heq
        obtain ⟨old, hmem, rfl⟩ := List.mem_map.mp hid'
        rw [List.map_singleton, List.mem_singleton] at hid''
        exact hold old hmem (heq.trans hid'')
      range := by
        intro job' hjob'
        show 0 ≤ job'.id ∧ job'.id ≤ s.benchmarks.nextId
        rcases List.mem_append.mp hjob' with hmem | hmem
        · have hrange := h.range job' hmem
          omega
        · rw [List.mem_singleton.mp hmem]
          omega
      sound := by
        intro job' hjob'
        rcases List.mem_append.mp hjob' with hmem | hmem
        · exact (h.sound job' hmem).congr (hagree _ (h.range job' hmem).1 (hold job' hmem))
        · rw [List.mem_singleton.mp hmem]
          exact .waiting command runs commands running printed htxt hpid
      stored := by
        intro job' hjob'
        rcases List.mem_append.mp hjob' with hmem | hmem
        · exact h.stored job' hmem
        · rw [List.mem_singleton.mp hmem]
          exact hstored
      unused := hunused
      rows := by
        intro row hrow
        rcases List.mem_append.mp hrow with hmem | hmem
        · obtain ⟨job', hjob', hid', howns⟩ := h.rows row hmem
          exact ⟨job', List.mem_append_left _ hjob', hid',
            howns.congr (hagree _ (h.range job' hjob').1 (hold job' hjob'))⟩
        · rw [List.mem_singleton.mp hmem]
          exact ⟨job, List.mem_append_right _ (List.mem_singleton_self _), hid,
            .pending rfl rfl rfl (by simp [commands])⟩ }

theorem inv_request {form : PostedForm} {site? : Option Site}
    (hplain : errors form = [] → Plain wampPath form site?) (time : ℤ) (pid : Text) {s : State}
    (h : Inv wampPath s) :
    Inv wampPath (request wampPath form site? time pid s) := by
  have hdata := h.congr fun id => agree_data form site? time s.benchmarks.nextId.toNat id s.files
  by_cases herrors : errors form = []
  · have hplain := hplain herrors
    have hresult : (create wampPath form site? time s.benchmarks.nextId.toNat).result =
        .ok (queue wampPath form site? time s.benchmarks.nextId.toNat) :=
      result_of_errors wampPath herrors site? time _
    obtain ⟨command, hruns, hcommands⟩ := commandsOf_line hplain herrors s.benchmarks.nextId
    have hstored : RunsStored wampPath form s.benchmarks.nextId.toNat
        (queue wampPath form site? time s.benchmarks.nextId.toNat) :=
      ⟨_, handedOver_line hplain.1 herrors (fun c hc =>
          Cmd.not_mem_of_not_isSpecial (not_isSpecial_of_plain hplain.2 c hc)) _,
        runsOnce_of_plain hplain.1 herrors hplain.2 (by simp [address]) _⟩
    rw [request, hresult]
    exact hdata.start ⟨_, form, _, _, false, []⟩ rfl hstored hruns hcommands rfl rfl pid
  · have hresult : (create wampPath form site? time s.benchmarks.nextId.toNat).result =
        .error (errors form) := if_neg herrors
    rw [request, hresult]
    exact hdata

/-- Taking the output of one benchmark leaves the rows of the others. -/
theorem mem_rows_collect (s : State) (row : ℤ × Row) {other : ℤ × Row} (hne : other.1 ≠ row.1) :
    other ∈ (collect wampPath s row).benchmarks.rows ↔ other ∈ s.benchmarks.rows := by
  unfold collect
  split
  · rfl
  · split
    · rfl
    · apply Iff.intro
      · intro hmem
        obtain ⟨old, hold, rfl⟩ := List.mem_map.mp hmem
        by_cases hkey : old.1 = row.1
        · rw [if_pos (by simpa using hkey)] at hne
          exact absurd hkey hne
        · rw [if_neg (by simpa using hkey)]
          exact hold
      · intro hmem
        exact List.mem_map.mpr ⟨other, hmem, by simp [hne]⟩

theorem keys_collect (s : State) (row : ℤ × Row) :
    (collect wampPath s row).benchmarks.rows.map Prod.fst = s.benchmarks.rows.map Prod.fst := by
  unfold collect
  split
  · rfl
  · split
    · rfl
    · rw [Table.rows_update, List.map_map]
      apply List.map_congr_left
      intro old _
      by_cases hkey : old.1 = row.1 <;> simp [hkey]

/-- The list has the rows that were there. -/
theorem keys_index (fetched : List (ℤ × Row)) (s : State) :
    (index wampPath fetched s).benchmarks.rows.map Prod.fst =
      s.benchmarks.rows.map Prod.fst := by
  induction fetched generalizing s with
  | nil => rfl
  | cons row fetched ih =>
      rw [index, List.foldl_cons, ← index, ih, keys_collect]

/-- The output of a benchmark that has ended goes into its row. -/
theorem Inv.take {s : State} (h : Inv wampPath s) {id : ℤ} {r : Row}
    (hrow : (id, r) ∈ s.benchmarks.rows) (hraw : truthy r.raw.toText = false) {job : Job}
    (hjob : job ∈ s.jobs) (hid : job.id = id) (hended : job.commands = [])
    (howns : Owns wampPath s.files r job) :
    Inv wampPath
      { s with
        benchmarks := s.benchmarks.update (fun key _ => key == id) fun r =>
          { r with
            rps := .text (rps (s.files (txtFile wampPath id)))
            raw := .text (raw (s.files (txtFile wampPath id))) }
        files := Function.update s.files (txtFile wampPath id) none } := by
  subst hid
  have hpos := (h.range job hjob).1
  have hagree : ∀ id, 0 ≤ id → id ≠ job.id → Agree wampPath id s.files
      (Function.update s.files (txtFile wampPath job.id) none) := fun id hid hne =>
    agree_update_txt hid hpos hne _ _
  have hsame : ∀ job' ∈ s.jobs, job'.id = job.id → job' = job := fun job' hjob' heq =>
    List.inj_on_of_nodup_map h.ids hjob' hjob heq
  have htaken : Owns wampPath (Function.update s.files (txtFile wampPath job.id) none)
      { r with
        rps := .text (rps (s.files (txtFile wampPath job.id)))
        raw := .text (raw (s.files (txtFile wampPath job.id))) } job := by
    cases howns with
    | pending benchmark _ _ txt =>
        have htxt := txt hended
        exact .taken benchmark hended (Function.update_self _ _ _) (by rw [htxt])
          (.inl (by rw [htxt]; rfl))
    | taken benchmark _ txt _ hrawof =>
        have hfalse : truthy job.printed = false := by
          rcases hrawof with heq | ⟨hfalse, -⟩
          · rwa [heq] at hraw
          · exact hfalse
        exact .taken benchmark hended (Function.update_self _ _ _)
          (by rw [txt, rps_of_not_truthy hfalse]) (.inr ⟨hfalse, by rw [txt]; rfl⟩)
  exact
    { seq := h.seq
      ids := h.ids
      range := h.range
      sound := by
        intro job' hjob'
        by_cases hid : job'.id = job.id
        · rw [hsame job' hjob' hid]
          exact (h.sound job hjob).taken hended
        · exact (h.sound job' hjob').congr (hagree _ (h.range job' hjob').1 hid)
      stored := h.stored
      unused := by
        intro id hgt
        by_cases hid : id = job.id
        · rw [hid]
          exact Function.update_self _ _ _
        · have hseq := h.seq
          have hgt' : s.benchmarks.seq < id := hgt
          exact (hagree id (by omega) hid).1.trans (h.unused id hgt)
      rows := by
        intro row' hrow'
        obtain ⟨⟨key, old⟩, hold, rfl⟩ := List.mem_map.mp hrow'
        by_cases hkey : key = job.id
        · subst hkey
          have holdr : old = r := Table.eq_of_mem hold hrow
          rw [if_pos (by simp), holdr]
          exact ⟨job, hjob, rfl, htaken⟩
        · rw [if_neg (by simpa using hkey)]
          obtain ⟨job', hjob', hid', howns'⟩ := h.rows _ hold
          have hne : job'.id ≠ job.id := fun heq => hkey (hid'.symm.trans heq)
          exact ⟨job', hjob', hid',
            howns'.congr (hagree _ (h.range job' hjob').1 hne)⟩ }

theorem inv_collect {s : State} (h : Inv wampPath s) {row : ℤ × Row}
    (hrow : row ∈ s.benchmarks.rows) :
    Inv wampPath (collect wampPath s row) ∧ (collect wampPath s row).jobs = s.jobs ∧
      ∀ r, (row.1, r) ∈ (collect wampPath s row).benchmarks.rows →
        r.raw = .null → ∃ job ∈ s.jobs, job.id = row.1 ∧ job.commands ≠ [] := by
  obtain ⟨job, hjob, hid, howns⟩ := h.rows row hrow
  have hmark := (h.sound job hjob).pid_iff
  rw [hid] at hmark
  unfold collect
  by_cases hraw : truthy row.2.raw.toText = true
  · rw [if_pos hraw]
    refine ⟨h, rfl, fun r hr hnull => ?_⟩
    rw [Table.eq_of_mem hrow hr, hnull] at hraw
    cases hraw
  · rw [if_neg hraw]
    by_cases hpid : (s.files (pidFile wampPath row.1)).isSome = true
    · rw [if_pos hpid]
      exact ⟨h, rfl, fun _ _ _ => ⟨job, hjob, hid, hmark.mp hpid⟩⟩
    · rw [if_neg hpid]
      have hended : job.commands = [] := by
        by_contra hne
        exact hpid (hmark.mpr hne)
      refine ⟨h.take hrow (by simpa using hraw) hjob hid hended howns, rfl, ?_⟩
      intro r hr hnull
      obtain ⟨⟨key, old⟩, hold, heq⟩ := List.mem_map.mp hr
      by_cases hkey : key = row.1
      · rw [if_pos (by simpa using hkey)] at heq
        obtain ⟨-, rfl⟩ := Prod.mk.inj heq
        cases hnull
      · rw [if_neg (by simpa using hkey)] at heq
        exact absurd (Prod.mk.inj heq).1 hkey

/-- The loop over the rows that were fetched. -/
theorem inv_index {s : State} (h : Inv wampPath s) (fetched : List (ℤ × Row))
    (hrows : ∀ row ∈ fetched, row ∈ s.benchmarks.rows) (hkeys : (fetched.map Prod.fst).Nodup) :
    Inv wampPath (index wampPath fetched s) ∧ (index wampPath fetched s).jobs = s.jobs ∧
      (∀ row : ℤ × Row, row.1 ∉ fetched.map Prod.fst →
        (row ∈ (index wampPath fetched s).benchmarks.rows ↔ row ∈ s.benchmarks.rows)) ∧
      ∀ row ∈ (index wampPath fetched s).benchmarks.rows, row.1 ∈ fetched.map Prod.fst →
        row.2.raw = .null → ∃ job ∈ s.jobs, job.id = row.1 ∧ job.commands ≠ [] := by
  induction fetched generalizing s with
  | nil => exact ⟨h, rfl, fun _ _ => Iff.rfl, fun row _ hmem => absurd hmem List.not_mem_nil⟩
  | cons row fetched ih =>
      obtain ⟨hcollect, hjobs, hlisted⟩ := inv_collect h (hrows row (by simp))
      rw [List.map_cons, List.nodup_cons] at hkeys
      have hstay : ∀ other ∈ fetched, other ∈ (collect wampPath s row).benchmarks.rows := by
        intro other hother
        have hne : other.1 ≠ row.1 := fun heq => hkeys.1 (heq ▸ List.mem_map_of_mem hother)
        exact (mem_rows_collect s row hne).mpr (hrows other (List.mem_cons_of_mem _ hother))
      obtain ⟨hinv, hjobs', hkept, hrest⟩ := ih hcollect hstay hkeys.2
      rw [index, List.foldl_cons, ← index]
      refine ⟨hinv, hjobs'.trans hjobs, ?_, ?_⟩
      · intro other hnot
        rw [List.map_cons, List.mem_cons, not_or] at hnot
        exact (hkept other hnot.2).trans (mem_rows_collect s row hnot.1)
      · intro other hother hmem hnull
        by_cases hin : other.1 ∈ fetched.map Prod.fst
        · obtain ⟨job, hjob, hid, hmore⟩ := hrest other hother hin hnull
          exact ⟨job, hjobs ▸ hjob, hid, hmore⟩
        · have heq : other.1 = row.1 := by
            rw [List.map_cons, List.mem_cons] at hmem
            exact hmem.resolve_right hin
          rw [heq]
          exact hlisted other.2 (heq ▸ (hkept other hin).mp hother) hnull

/-- Deleting rows leaves the benchmarks in the background alone. -/
theorem Inv.delete {s : State} (h : Inv wampPath s) (condition : ℤ → Row → Bool) :
    Inv wampPath { s with benchmarks := s.benchmarks.delete condition } where
  seq := h.seq
  ids := h.ids
  range := h.range
  sound := h.sound
  stored := h.stored
  unused := h.unused
  rows := fun row hrow => h.rows row (List.mem_filter.mp hrow).1

theorem inv_act {s : State} (h : Inv wampPath s) {act : Act} {job job' : Job}
    {files : Text → Option Text} (hjob : job ∈ s.jobs)
    (hact : job.act s.files act = some (job', files)) :
    Inv wampPath (replace job' { s with files := files }) := by
  have hpos := (h.range job hjob).1
  have hacted := (h.sound job hjob).act hpos hact
  have hothers : ∀ other ∈ s.jobs, other.id ≠ job.id → Agree wampPath other.id s.files files :=
    fun other hother hne => hacted.others _ (h.range other hother).1 hne
  have hids : (s.jobs.map fun other => if other.id = job'.id then job' else other).map Job.id =
      s.jobs.map Job.id := by
    rw [List.map_map]
    apply List.map_congr_left
    intro other _
    by_cases hid : other.id = job'.id <;> simp [hid]
  have hmem : ∀ other ∈ s.jobs.map fun other => if other.id = job'.id then job' else other,
      other = job' ∨ other ∈ s.jobs ∧ other.id ≠ job.id := by
    intro other hother
    obtain ⟨old, hold, rfl⟩ := List.mem_map.mp hother
    by_cases hid : old.id = job'.id
    · rw [if_pos hid]
      exact .inl rfl
    · rw [if_neg hid]
      exact .inr ⟨hold, hacted.id ▸ hid⟩
  exact
    { seq := h.seq
      ids := hids ▸ h.ids
      range := by
        intro other hother
        rcases hmem other hother with rfl | ⟨hold, -⟩
        · rw [hacted.id]
          exact h.range job hjob
        · exact h.range other hold
      sound := by
        intro other hother
        rcases hmem other hother with rfl | ⟨hold, hne⟩
        · exact hacted.sound
        · exact (h.sound other hold).congr (hothers other hold hne)
      stored := by
        intro other hother
        rcases hmem other hother with rfl | ⟨hold, -⟩
        · rw [hacted.id, hacted.form, hacted.queued]
          exact h.stored job hjob
        · exact h.stored other hold
      unused := by
        intro id hgt
        have hgt' : s.benchmarks.seq < id := hgt
        have hseq := h.seq
        have hle := (h.range job hjob).2
        exact (hacted.others id (by omega) (by omega)).1.trans (h.unused id hgt')
      rows := by
        intro row hrow
        obtain ⟨other, hother, hid, howns⟩ := h.rows row hrow
        by_cases hsame : other.id = job.id
        · obtain rfl : other = job := List.inj_on_of_nodup_map h.ids hother hjob hsame
          refine ⟨job', List.mem_map.mpr ⟨other, hother, if_pos hacted.id.symm⟩,
            hacted.id.trans hid, ?_⟩
          cases howns with
          | pending benchmark raw rps _ =>
              exact .pending (hacted.queued ▸ benchmark) raw rps hacted.ends
          | taken _ commands => exact absurd commands hacted.more
        · have hne : other.id ≠ job'.id := fun heq => hsame (heq.trans hacted.id)
          exact ⟨other, List.mem_map.mpr ⟨other, hother, if_neg hne⟩, hid,
            howns.congr (hothers other hother hsame)⟩ }

/-- Requests with plain forms keep it, and so does what happens in the background. -/
theorem inv_step (s : State) (label : Label) (s' : State) (h : Inv wampPath s)
    (hmeant : AsMeant wampPath s label) (hstep : Step wampPath s label s') : Inv wampPath s' := by
  cases label with
  | create form site? time pid =>
      obtain rfl := hstep
      exact inv_request hmeant time pid h
  | index fetched =>
      obtain ⟨hperm, rfl⟩ := hstep
      have hkeys : (fetched.map Prod.fst).Nodup :=
        (hperm.map Prod.fst).nodup_iff.mpr s.benchmarks.nodup
      exact (inv_index h fetched (fun row hrow => hperm.mem_iff.mp hrow) hkeys).1
  | delete id =>
      obtain rfl := hstep
      exact h.delete _
  | clear =>
      obtain rfl := hstep
      exact h.delete _
  | act id act =>
      obtain ⟨job, hjob, -, job', files, hact, rfl⟩ := hstep
      exact inv_act h hjob hact

theorem inv_run {s t : State} {labels : List Label} (hfresh : Fresh wampPath s)
    (run : Transition.Run (Meant wampPath) s labels t) : Inv wampPath t :=
  run.invariant (Inv wampPath) hfresh.inv fun s label t h hstep =>
    inv_step s label t h hstep.1 hstep.2

/-- The result of a row: the benchmark that was started for it, for the address in it, has
ended, and the row has all of what that benchmark printed. -/
structure HasResult (wampPath : Text) (r : Row) (job : Job) : Prop where
  benchmark : job.queued.benchmark = r.benchmark
  stored : RunsStored wampPath job.form job.id.toNat job.queued
  ended : job.commands = []
  rps : r.rps = .text (rps (some job.printed))
  raw : r.raw = .text job.printed ∨ truthy job.printed = false ∧ r.raw = .text ['0']

/-- However requests and benchmarks interleave, a row shows nothing or the result of its
own benchmark, never a part of it and never that of another one. -/
theorem row_has_own_result {s t : State} {labels : List Label} (hfresh : Fresh wampPath s)
    (run : Transition.Run (Meant wampPath) s labels t) :
    ∀ row ∈ t.benchmarks.rows, ∃ job ∈ t.jobs, job.id = row.1 ∧
      (row.2.raw = .null ∧ row.2.rps = .null ∨ HasResult wampPath row.2 job) := by
  intro row hrow
  have hinv := inv_run hfresh run
  obtain ⟨job, hjob, hid, howns⟩ := hinv.rows row hrow
  refine ⟨job, hjob, hid, ?_⟩
  cases howns with
  | pending _ raw rps _ => exact .inl ⟨raw, rps⟩
  | taken benchmark commands _ rps raw =>
      exact .inr ⟨benchmark, hinv.stored job hjob, commands, rps, raw⟩

/-- The list, whenever it is loaded and in whatever order its rows are fetched, shows a
result for each benchmark that has ended, and for no other. -/
theorem list_shows_ended {s t : State} {labels : List Label} (hfresh : Fresh wampPath s)
    (run : Transition.Run (Meant wampPath) s labels t) {fetched : List (ℤ × Row)}
    (hfetched : fetched.Perm t.benchmarks.rows) :
    ∀ row ∈ (index wampPath fetched t).benchmarks.rows, ∃ job ∈ t.jobs, job.id = row.1 ∧
      (row.2.raw ≠ .null ↔ job.commands = []) ∧
      (job.commands = [] → HasResult wampPath row.2 job) := by
  have hinv := inv_run hfresh run
  have hkeys : (fetched.map Prod.fst).Nodup :=
    (hfetched.map Prod.fst).nodup_iff.mpr t.benchmarks.nodup
  obtain ⟨hindex, hjobs, hkept, hlisted⟩ :=
    inv_index hinv fetched (fun row hrow => hfetched.mem_iff.mp hrow) hkeys
  intro row hrow
  have hin : row.1 ∈ fetched.map Prod.fst := by
    by_contra hnot
    have hold := (hkept row hnot).mp hrow
    exact hnot (List.mem_map_of_mem (hfetched.mem_iff.mpr hold))
  obtain ⟨job, hjob, hid, howns⟩ := hindex.rows row hrow
  rw [hjobs] at hjob
  refine ⟨job, hjob, hid, ?_⟩
  cases howns with
  | pending benchmark raw rps _ =>
      obtain ⟨other, hother, hid', hmore⟩ := hlisted row hrow hin raw
      obtain rfl : other = job :=
        List.inj_on_of_nodup_map hinv.ids hother hjob (hid'.trans hid.symm)
      exact ⟨⟨fun hne => absurd raw hne, fun hended => absurd hended hmore⟩,
        fun hended => absurd hended hmore⟩
  | taken benchmark commands _ rps raw =>
      have hne : row.2.raw ≠ .null := by
        rcases raw with heq | ⟨-, heq⟩ <;> simp [heq]
      exact ⟨⟨fun _ => commands, fun _ => hne⟩,
        fun _ => ⟨benchmark, hinv.stored job hjob, commands, rps, raw⟩⟩

/-! ## One benchmark from its form to its result -/

/-- No benchmark has been there. -/
def noBenchmarks : State := ⟨.empty, fun _ => none, []⟩

theorem noBenchmarks_fresh : Fresh wampPath noBenchmarks :=
  ⟨rfl, le_refl 0, rfl, fun _ _ => rfl⟩

variable (wampPath) in
theorem step_single (benchmarks : Table Row) (files files' : Text → Option Text) (job job' : Job)
    (act : Act) (hact : job.act files act = some (job', files')) (hid : job'.id = job.id) :
    Meant wampPath ⟨benchmarks, files, [job]⟩ (.act job.id act) ⟨benchmarks, files', [job']⟩ :=
  ⟨trivial, job, List.mem_singleton_self job, rfl, job', files', hact, by simp [replace, hid]⟩

/-- The one benchmark there is starts, prints a text and ends. -/
theorem run_single (benchmarks : Table Row) (files : Text → Option Text) (id : ℤ)
    (form : PostedForm) (queued : Queued) {command : Cmd.Command}
    (runs : RunsInto wampPath id command) (out : Text) {s : State} {labels : List Label}
    (run : Transition.Run (Meant wampPath) s labels
      ⟨benchmarks, files, [⟨id, form, queued, [command, delCommand wampPath id], false, []⟩]⟩) :
    ∃ files', Transition.Run (Meant wampPath) s
      (labels ++ [.act id .start] ++ [.act id (.print out)] ++ [.act id .exit] ++ [.act id .del])
      ⟨benchmarks, files', [⟨id, form, queued, [], false, out⟩]⟩ := by
  have hstart := step_single wampPath benchmarks files
    (Function.update files (txtFile wampPath id) (some []))
    ⟨id, form, queued, [command, delCommand wampPath id], false, []⟩
    ⟨id, form, queued, [command, delCommand wampPath id], true, []⟩ .start
    (by simp [Job.act, runs.output]) rfl
  have hprint := step_single wampPath benchmarks
    (Function.update files (txtFile wampPath id) (some []))
    (Function.update (Function.update files (txtFile wampPath id) (some []))
      (txtFile wampPath id) (some out))
    ⟨id, form, queued, [command, delCommand wampPath id], true, []⟩
    ⟨id, form, queued, [command, delCommand wampPath id], true, out⟩ (.print out)
    (by simp [Job.act, runs.output]) rfl
  have hexit := step_single wampPath benchmarks
    (Function.update (Function.update files (txtFile wampPath id) (some []))
      (txtFile wampPath id) (some out)) _
    ⟨id, form, queued, [command, delCommand wampPath id], true, out⟩
    ⟨id, form, queued, [delCommand wampPath id], false, out⟩ .exit rfl rfl
  have hdel := step_single wampPath benchmarks
    (Function.update (Function.update files (txtFile wampPath id) (some []))
      (txtFile wampPath id) (some out)) _
    ⟨id, form, queued, [delCommand wampPath id], false, out⟩
    ⟨id, form, queued, [], false, out⟩ .del rfl rfl
  exact ⟨_, (((run.snoc hstart).snoc hprint).snoc hexit).snoc hdel⟩

theorem sample_plain :
    Plain "C:\\Wamp.NET".toList (sampleForm "index.php") (some sampleSite) := by
  apply And.intro
  · refine ⟨by decide, by decide, by decide, by decide, by decide, by decide, ?_⟩
    intro hdata
    exact absurd (by decide) hdata
  · decide

/-- What the sample prints. -/
def sampleOutput : Text := "Requests per second:    77.12 [#/sec] (mean)".toList

/-- A benchmark from its form to its end. -/
theorem sample_run : ∃ labels files queued,
    Transition.Run (Meant "C:\\Wamp.NET".toList) noBenchmarks labels
      ⟨Table.empty.insert ⟨queued.benchmark, .null, .null⟩, files,
        [⟨1, sampleForm "index.php", queued, [], false, sampleOutput⟩]⟩ := by
  have herrors : errors (sampleForm "index.php") = [] := by decide
  obtain ⟨command, hruns, hcommands⟩ := commandsOf_line sample_plain herrors 1
  have hcreate : Meant "C:\\Wamp.NET".toList noBenchmarks
      (.create (sampleForm "index.php") (some sampleSite) 0 "4711".toList)
      (request "C:\\Wamp.NET".toList (sampleForm "index.php") (some sampleSite) 0 "4711".toList
        noBenchmarks) := ⟨fun _ => sample_plain, rfl⟩
  have hresult : (create "C:\\Wamp.NET".toList (sampleForm "index.php") (some sampleSite) 0
      noBenchmarks.benchmarks.nextId.toNat).result =
      .ok (queue "C:\\Wamp.NET".toList (sampleForm "index.php") (some sampleSite) 0
        noBenchmarks.benchmarks.nextId.toNat) := result_of_errors _ herrors (some sampleSite) 0 _
  simp only [request, hresult] at hcreate
  have hqueued : commandsOf "C:\\Wamp.NET".toList (queue "C:\\Wamp.NET".toList
      (sampleForm "index.php") (some sampleSite) 0 noBenchmarks.benchmarks.nextId.toNat).line =
      [command, delCommand "C:\\Wamp.NET".toList 1] := hcommands
  rw [hqueued] at hcreate
  obtain ⟨files, hrun⟩ := run_single _ _ 1 _ _ hruns sampleOutput
    ((Transition.Run.nil noBenchmarks).snoc hcreate)
  exact ⟨_, files, _, hrun⟩

/-- The list, loaded when the sample has ended, shows its rate. -/
theorem list_shows_ended_sample : ∃ labels t,
    Transition.Run (Meant "C:\\Wamp.NET".toList) noBenchmarks labels t ∧
      ∃ row ∈ (index "C:\\Wamp.NET".toList t.benchmarks.rows t).benchmarks.rows,
        row.2.rps = .text "77.12".toList := by
  obtain ⟨labels, files, queued, hrun⟩ := sample_run
  have hlist := list_shows_ended noBenchmarks_fresh hrun (List.Perm.refl _)
  have hkeys : (index "C:\\Wamp.NET".toList _ _).benchmarks.rows.map Prod.fst = _ :=
    keys_index (Table.empty.insert ⟨queued.benchmark, .null, .null⟩).rows
      ⟨Table.empty.insert ⟨queued.benchmark, .null, .null⟩, files,
        [⟨1, sampleForm "index.php", queued, [], false, sampleOutput⟩]⟩
  have hone : (1 : ℤ) ∈ ((Table.empty.insert
      (⟨queued.benchmark, .null, .null⟩ : Row)).rows.map Prod.fst) := List.mem_singleton_self 1
  rw [← hkeys] at hone
  obtain ⟨row, hrow, -⟩ := List.mem_map.mp hone
  obtain ⟨job, hjob, -, -, hresult⟩ := hlist row hrow
  obtain rfl := List.mem_singleton.mp hjob
  have hrps : rps (some sampleOutput) = "77.12".toList := by decide
  exact ⟨labels, _, hrun, row, hrow, hrps ▸ (hresult rfl).rps⟩

/-- The list is loaded. -/
theorem step_list (s : State) :
    Meant wampPath s (.index s.benchmarks.rows) (index wampPath s.benchmarks.rows s) :=
  ⟨trivial, List.Perm.refl _, rfl⟩

/-- Behind the list there is nothing in a row but the whole output of the sample. -/
theorem row_has_own_result_sample : ∃ labels t,
    Transition.Run (Meant "C:\\Wamp.NET".toList) noBenchmarks labels t ∧
      ∀ row ∈ t.benchmarks.rows, row.2.raw = .null ∨ row.2.raw = .text sampleOutput := by
  obtain ⟨labels, files, queued, hrun⟩ := sample_run
  have hlist := hrun.snoc (step_list _)
  have hown := row_has_own_result noBenchmarks_fresh hlist
  have hjobs := (inv_index (inv_run noBenchmarks_fresh hrun) _ (fun _ h => h)
    (Table.empty.insert (⟨queued.benchmark, .null, .null⟩ : Row)).nodup).2.1
  refine ⟨_, _, hlist, fun row hrow => ?_⟩
  obtain ⟨job, hjob, -, hresult⟩ := hown row hrow
  rw [hjobs] at hjob
  obtain rfl := List.mem_singleton.mp hjob
  rcases hresult with ⟨hnull, -⟩ | hresult
  · exact .inl hnull
  · rcases hresult.raw with hraw | ⟨hfalse, -⟩
    · exact .inr hraw
    · have htrue : truthy sampleOutput = true := by decide
      exact absurd (hfalse.symm.trans htrue) (by decide)

end BenchmarkController

end WampManager
