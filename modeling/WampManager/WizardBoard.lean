/-
# What the wizard shows

An install or uninstall prints calls of the page's functions, one for each step,
while it runs. The page takes each line apart and runs it: a task is a block with
an icon, and starting the next one settles the icon of the one before. Each side
keeps no more than a counter. However the output arrives, what the page shows is
the progress the installer has reported.
-/

import WampManager.Lib.Script
import WampManager.Machine
import WampManager.WizardPage

namespace WampManager

/-! ## What the installer prints -/

namespace Installer

/-- A text that is shown as it is where it is set as HTML. -/
structure ShownText where
  text : Text
  plain : ∀ c ∈ text, c ∉ ['<', '&', '\r', '\x00']

/-- Where the page goes in the end: a path of the class files, without quotes. -/
structure Target where
  url : Text
  plain : ∀ c ∈ url, Script.isQuotedChar c = true

/-- What prints something. The data of an update is a name out of an archive and
need not be encodable. -/
inductive Call
  | init (title : ShownText)
  | addTask (title : ShownText)
  | startTask
  | console (data : Option Text)
  | updateTask (data : Option ShownText)
  | giveUp
  | redirect (target : Target)

namespace Call

/-- The statement a call prints. -/
def script : Call → Text
  | .init title => Script.callText "init".toList (Json.stringText title.text)
  | .addTask title => Script.callText "addTask".toList (Json.stringText title.text)
  | .startTask => Script.callText "startTask".toList []
  | .console (some data) => Script.callText "console.log".toList (Json.stringText data)
  | .console none => Script.callText "console.log".toList []
  | .updateTask (some data) => Script.callText "updateTask".toList (Json.stringText data.text)
  | .updateTask none => Script.callText "updateTask".toList []
  | .giveUp => Script.assignText "window.location".toList "/".toList
  | .redirect target => Script.assignText "window.location".toList target.url

/-- How far the statement is indented in the class file. -/
def indent : Call → Text
  | .giveUp => "\t\t\t\t".toList
  | .redirect _ => []
  | _ => "\t\t".toList

/-- What a call prints: the blanks in front of the next tag follow the line. -/
def print (call : Call) : Text := call.indent ++ call.script ++ '\n' :: call.indent

end Call

/-- What calls print. -/
def output (calls : List Call) : Text := calls.flatMap Call.print

end Installer

/-! ## The page -/

namespace WizardPage

/-- The classes of an icon that matter. -/
inductive IconClass
  | far | fa | faFw | faSquare | faCheckSquare | faCog | faSpin
  deriving DecidableEq

/-- `addClass`. -/
def addClass (names icon : List IconClass) : List IconClass :=
  names.foldl (fun icon name => if name ∈ icon then icon else icon ++ [name]) icon

/-- `removeClass`. -/
def removeClass (names icon : List IconClass) : List IconClass := icon.filter (· ∉ names)

/-- The block of a task. -/
structure TaskBlock where
  title : Text
  icon : List IconClass
  progress : Text
  bold : Bool
  deriving DecidableEq

/-- The variables and elements the functions of the page work on, with the texts that are
set as HTML. -/
structure Board where
  divTask : Text
  tasks : List TaskBlock
  activeTask : ℕ
  console : List (Option Text)
  location : Option Text
  deriving DecidableEq

/-- The page as it is loaded. -/
def Board.blank : Board := ⟨[], [], 0, [], none⟩

/-- Change the block a number selects; blocks are numbered from one. -/
def nthChild (change : TaskBlock → TaskBlock) : ℕ → List TaskBlock → List TaskBlock
  | 0, tasks => tasks
  | n + 1, tasks => tasks.modify n change

/-- Change the icon of a block, found by its class. -/
def TaskBlock.onIcon (change : List IconClass → List IconClass) (block : TaskBlock) : TaskBlock :=
  if .faFw ∈ block.icon then { block with icon := change block.icon } else block

namespace Board

/-- `addTask`. -/
def addTask (title : Text) (board : Board) : Board :=
  { board with tasks := board.tasks ++ [⟨title, [.far, .faFw, .faSquare], [], false⟩] }

/-- `startTask`. -/
def startTask (board : Board) : Board :=
  let tasks := nthChild (fun block => { block with progress := [] }) board.activeTask board.tasks
  let tasks := nthChild
    (TaskBlock.onIcon fun icon =>
      addClass [.far, .faCheckSquare] (removeClass [.fa, .faCog, .faSpin] icon))
    board.activeTask tasks
  let activeTask := board.activeTask + 1
  let tasks := tasks.map fun block => { block with bold := false }
  let tasks := nthChild
    (fun block =>
      { block with bold := true, icon := addClass [.fa, .faCog, .faSpin] block.icon })
    activeTask tasks
  let tasks := nthChild
    (TaskBlock.onIcon fun icon =>
      addClass [.fa, .faCog, .faSpin] (removeClass [.far, .faSquare] icon))
    activeTask tasks
  { board with tasks := tasks, activeTask := activeTask }

/-- `updateTask`: without a text nothing is set. -/
def updateTask : Option Text → Board → Board
  | some data, board =>
      { board with
        tasks := nthChild (fun block => { block with progress := data }) board.activeTask
          board.tasks }
  | none, board => board

end Board

/-- A text that is passed to a function. -/
def argumentText : Json → Option Text
  | .string t => some t
  | _ => none

/-- Run a statement that an installer prints. -/
def runStatement (board : Board) : Script.Statement → Option Board
  | .call function argument =>
      if function = "init".toList then
        (argument.bind argumentText).map fun title => { board with divTask := title }
      else if function = "addTask".toList then
        (argument.bind argumentText).map fun title => board.addTask title
      else if function = "startTask".toList then some board.startTask
      else if function = "console.log".toList then
        some { board with console := board.console ++ [argument.bind argumentText] }
      else if function = "updateTask".toList then
        some (board.updateTask (argument.bind argumentText))
      else none
  | .assign target value =>
      if target = "window.location".toList then some { board with location := some value }
      else none
  | .known _ => none

/-- `eval` of a line: statements up to one that throws, none of them if the line is
no script. -/
def evalLine (board : Board) (line : Text) : Board × Bool :=
  match Script.read [] line with
  | none => (board, true)
  | some statements =>
      statements.foldl
        (fun (board, throws) statement =>
          if throws then (board, true)
          else
            match runStatement board statement with
            | some board => (board, false)
            | none => (board, true))
        (board, false)

end WizardPage

/-! ## The progress that is reported -/

namespace Installer

open WizardPage (Board TaskBlock IconClass)

/-- How far an install is: the tasks, how many of them were started, and what was
said about the last of these. -/
structure Progress where
  heading : Text
  tasks : List Text
  started : ℕ
  note : Text
  console : List (Option Text)
  location : Option Text

/-- Nothing is reported. -/
def Progress.none : Progress := ⟨[], [], 0, [], [], .none⟩

/-- What a call reports. -/
def Progress.report (p : Progress) : Call → Progress
  | .init title => { p with heading := title.text }
  | .addTask title => { p with tasks := p.tasks ++ [title.text] }
  | .startTask => { p with started := p.started + 1, note := [] }
  | .console data => { p with console := p.console ++ [data] }
  | .updateTask (some data) => { p with note := if p.started = 0 then p.note else data.text }
  | .updateTask Option.none => p
  | .giveUp => { p with location := some "/".toList }
  | .redirect target => { p with location := some target.url }

/-- What calls report. -/
def progress (calls : List Call) : Progress := calls.foldl Progress.report .none

/-- How a task stands. -/
inductive Phase
  | waiting | running | done

/-- The phase of a task, by its position. -/
def phase (started i : ℕ) : Phase :=
  if i + 1 < started then .done else if i + 1 = started then .running else .waiting

/-- The icon that stands for a phase. -/
def Phase.icon : Phase → List IconClass
  | .waiting => [.far, .faFw, .faSquare]
  | .running => [.faFw, .fa, .faCog, .faSpin]
  | .done => [.faFw, .far, .faCheckSquare]

/-- The block that shows a task: the note stands at the one that runs. -/
def block (title note : Text) : Phase → TaskBlock
  | .running => ⟨title, Phase.running.icon, note, true⟩
  | .waiting => ⟨title, Phase.waiting.icon, [], false⟩
  | .done => ⟨title, Phase.done.icon, [], false⟩

/-- The page that shows a progress. -/
def Progress.board (p : Progress) : Board where
  divTask := p.heading
  tasks := p.tasks.mapIdx fun i title => block title p.note (phase p.started i)
  activeTask := p.started
  console := p.console
  location := p.location

/-- No more tasks are started than were added, after so many more added than started. -/
def Orderly : ℕ → List Call → Prop
  | _, [] => True
  | n, .addTask _ :: calls => Orderly (n + 1) calls
  | n, .startTask :: calls => 0 < n ∧ Orderly (n - 1) calls
  | n, _ :: calls => Orderly n calls

/-! ## One line for each call -/

namespace Call

/-- The statement the page reads. -/
def statement : Call → Script.Statement
  | .init title => .call "init".toList (some (.string title.text))
  | .addTask title => .call "addTask".toList (some (.string title.text))
  | .startTask => .call "startTask".toList .none
  | .console (some data) => .call "console.log".toList (some (.string data))
  | .console Option.none => .call "console.log".toList .none
  | .updateTask (some data) => .call "updateTask".toList (some (.string data.text))
  | .updateTask Option.none => .call "updateTask".toList .none
  | .giveUp => .assign "window.location".toList "/".toList
  | .redirect target => .assign "window.location".toList target.url

theorem prints (call : Call) : Script.Prints [] call.script call.statement := by
  have hcall : ∀ (word argument : Text), Script.IsWord word →
      Script.Prints [] (Script.callText word (Json.stringText argument))
        (.call word (some (.string argument))) := fun word argument hword =>
    Script.prints_call_argument hword (Script.encodes_stringText argument) (by simp)
  have hplain : ∀ word : Text, Script.IsWord word →
      Script.Prints [] (Script.callText word []) (.call word .none) := fun word hword =>
    Script.prints_call hword (by simp)
  have hlocation : ∀ url : Text, (∀ c ∈ url, Script.isQuotedChar c = true) →
      Script.Prints [] (Script.assignText "window.location".toList url)
        (.assign "window.location".toList url) := fun url hurl =>
    Script.prints_assign (by decide) hurl (by simp)
  cases call with
  | init title => exact hcall _ title.text (by decide)
  | addTask title => exact hcall _ title.text (by decide)
  | startTask => exact hplain _ (by decide)
  | console data =>
      cases data with
      | none => exact hplain _ (by decide)
      | some data => exact hcall _ data (by decide)
  | updateTask data =>
      cases data with
      | none => exact hplain _ (by decide)
      | some data => exact hcall _ data.text (by decide)
  | giveUp => exact hlocation _ (by decide)
  | redirect target => exact hlocation _ target.plain

theorem indent_tabs (call : Call) : ∀ c ∈ call.indent, c = '\t' := by
  cases call <;> simp [indent]

theorem newline_not_mem_indent (call : Call) : '\n' ∉ call.indent := fun h =>
  absurd (call.indent_tabs _ h) (by decide)

theorem newline_not_mem_script (call : Call) : '\n' ∉ call.script := by
  have hcall : ∀ word argument : Text, '\n' ∉ word → '\n' ∉ argument →
      '\n' ∉ Script.callText word argument := by
    intro word argument hword hargument
    simp [Script.callText, hword, hargument]
  have htext := Json.newline_not_mem_stringText
  have hlocation : ∀ url : Text, (∀ c ∈ url, Script.isQuotedChar c = true) →
      '\n' ∉ Script.assignText "window.location".toList url := by
    intro url hurl
    have hnot : '\n' ∉ url := fun h => absurd (hurl _ h) (by decide)
    simp [Script.assignText, hnot]
  cases call with
  | init title => exact hcall _ _ (by decide) (htext title.text)
  | addTask title => exact hcall _ _ (by decide) (htext title.text)
  | startTask => exact hcall _ _ (by decide) (by decide)
  | console data =>
      cases data with
      | none => exact hcall _ _ (by decide) (by decide)
      | some data => exact hcall _ _ (by decide) (htext data)
  | updateTask data =>
      cases data with
      | none => exact hcall _ _ (by decide) (by decide)
      | some data => exact hcall _ _ (by decide) (htext data.text)
  | giveUp => exact hlocation _ (by decide)
  | redirect target => exact hlocation _ target.plain

theorem script_ne_nil (call : Call) : call.script ≠ [] := by
  intro h
  have hread := call.prints 0 []
  rw [h] at hread
  simp [Script.statements_nil] at hread

end Call

/-- The lines of calls, the first one behind what the call before left. -/
def lines : Text → List Call → List Text
  | _, [] => []
  | left, call :: calls => (left ++ call.indent ++ call.script) :: lines call.indent calls

/-- What the last call leaves behind its line. -/
def left : Text → List Call → Text
  | left, [] => left
  | _, call :: calls => Installer.left call.indent calls

theorem append_output (front : Text) (calls : List Call) :
    front ++ output calls = Text.unlines (lines front calls) ++ left front calls := by
  induction calls generalizing front with
  | nil => simp [output, lines, left, Text.unlines]
  | cons call calls ih =>
      have hrest := ih call.indent
      simp only [output, List.flatMap_cons, Call.print, lines, left, Text.unlines] at hrest ⊢
      simp [List.append_assoc, hrest]

theorem newline_not_mem_left (front : Text) (calls : List Call) (h : '\n' ∉ front) :
    '\n' ∉ left front calls := by
  induction calls generalizing front with
  | nil => exact h
  | cons call calls ih => exact ih _ call.newline_not_mem_indent

theorem newline_not_mem_lines (front : Text) (calls : List Call) (h : '\n' ∉ front) :
    ∀ line ∈ lines front calls, '\n' ∉ line := by
  induction calls generalizing front with
  | nil => simp [lines]
  | cons call calls ih =>
      intro line hline
      rcases List.mem_cons.mp hline with rfl | hline
      · simp [h, call.newline_not_mem_indent, call.newline_not_mem_script]
      · exact ih _ call.newline_not_mem_indent line hline

/-- Each call ends one line. -/
theorem terminated_output (calls : List Call) :
    WizardPage.terminated (output calls) = lines [] calls := by
  have hsplit := append_output [] calls
  have hleft := newline_not_mem_left [] calls (by simp)
  have hnone : WizardPage.terminated (left [] calls) = [] := by
    rw [WizardPage.terminated, List.splitOn_eq_singleton hleft, List.dropLast_singleton]
  rw [List.nil_append] at hsplit
  rw [hsplit, WizardPage.terminated_unlines _ (newline_not_mem_lines [] calls (by simp)), hnone,
    List.append_nil]

theorem lines_take (front : Text) (calls : List Call) (n : ℕ) :
    lines front (calls.take n) = (lines front calls).take n := by
  induction calls generalizing front n with
  | nil => simp [lines]
  | cons call calls ih =>
      cases n with
      | zero => rfl
      | succ n => simp [lines, ih]

/-! ## What a line makes of the page -/

/-- What a call makes of the page. -/
def Call.show (board : Board) : Call → Board
  | .init title => { board with divTask := title.text }
  | .addTask title => board.addTask title.text
  | .startTask => board.startTask
  | .console data => { board with console := board.console ++ [data] }
  | .updateTask data => board.updateTask (data.map ShownText.text)
  | .giveUp => { board with location := some "/".toList }
  | .redirect target => { board with location := some target.url }

theorem runStatement_statement (board : Board) (call : Call) :
    WizardPage.runStatement board call.statement = some (call.show board) := by
  cases call with
  | console data => cases data <;> rfl
  | updateTask data => cases data <;> rfl
  | _ => rfl

/-- The line of a call does what the call says, and throws nothing. -/
theorem evalLine_script (board : Board) (call : Call) {front : Text}
    (hfront : ∀ c ∈ front, c = '\t') :
    WizardPage.evalLine board (front ++ call.indent ++ call.script) =
      (call.show board, false) := by
  have hblank : ∀ c ∈ front ++ call.indent, c = '\t' ∨ c = '\n' := by
    intro c hc
    rcases List.mem_append.mp hc with hc | hc
    · exact .inl (hfront c hc)
    · exact .inl (call.indent_tabs c hc)
  have hlength : ∃ n, (front ++ call.indent ++ call.script).length = n + 1 := by
    have hpos := List.length_pos_iff.mpr call.script_ne_nil
    exact ⟨(front ++ call.indent ++ call.script).length - 1, by simp; omega⟩
  obtain ⟨n, hn⟩ := hlength
  have hread : Script.read [] (front ++ call.indent ++ call.script) = some [call.statement] := by
    have hprints := call.prints n []
    rw [List.append_nil, Script.statements_nil, Option.map_some] at hprints
    rw [Script.read, hn, Script.statements_blanks hblank, hprints]
  rw [WizardPage.evalLine, hread]
  simp [runStatement_statement]

/-- The lines of calls, evaluated one after the other. -/
theorem eval_lines (board : Board) (calls : List Call) (front : Text)
    (hfront : ∀ c ∈ front, c = '\t') :
    WizardPage.Quiet WizardPage.evalLine board (lines front calls) ∧
      WizardPage.stateAfter WizardPage.evalLine board (lines front calls) =
        calls.foldl Call.show board := by
  induction calls generalizing board front with
  | nil => exact ⟨trivial, rfl⟩
  | cons call calls ih =>
      have hline := evalLine_script board call hfront
      obtain ⟨hquiet, hstate⟩ := ih (call.show board) call.indent call.indent_tabs
      apply And.intro
      · rw [lines, WizardPage.Quiet, hline]
        exact ⟨rfl, hquiet⟩
      · rw [lines, WizardPage.stateAfter, List.foldl_cons, hline]
        exact hstate

/-! ## The page shows the progress -/

theorem nthChild_mapIdx (change : TaskBlock → TaskBlock) (n : ℕ) (titles : List Text)
    (shown : ℕ → Text → TaskBlock) :
    WizardPage.nthChild change n (titles.mapIdx shown) =
      titles.mapIdx fun i title =>
        if i + 1 = n then change (shown i title) else shown i title := by
  cases n with
  | zero => simp [WizardPage.nthChild]
  | succ n =>
      apply List.ext_getElem?
      intro i
      rw [WizardPage.nthChild, List.getElem?_modify, List.getElem?_mapIdx, List.getElem?_mapIdx]
      cases titles[i]? with
      | none => simp
      | some title => by_cases h : n = i <;> simp [h, eq_comm]

theorem map_mapIdx (change : TaskBlock → TaskBlock) (titles : List Text)
    (shown : ℕ → Text → TaskBlock) :
    (titles.mapIdx shown).map change = titles.mapIdx fun i title => change (shown i title) := by
  apply List.ext_getElem?
  intro i
  simp [Function.comp_def]

/-- The icon of a task that is started, behind each of the two statements. -/
theorem lit_icon :
    IconClass.faFw ∈ WizardPage.addClass [.fa, .faCog, .faSpin] Phase.waiting.icon ∧
      WizardPage.addClass [.fa, .faCog, .faSpin]
        (WizardPage.removeClass [.far, .faSquare]
          (WizardPage.addClass [.fa, .faCog, .faSpin] Phase.waiting.icon)) =
        Phase.running.icon := by
  decide

/-- The block before is settled, the next one is lit, and no other one changes. -/
theorem startTask_board (p : Progress) : p.board.startTask = (p.report .startTask).board := by
  simp only [Progress.board, Board.startTask, Progress.report, nthChild_mapIdx, map_mapIdx]
  congr 2
  funext i title
  rcases Nat.lt_trichotomy (i + 1) p.started with hbefore | hlast | hbehind
  · have hlast : i + 1 ≠ p.started := Nat.ne_of_lt hbefore
    have hnext : i ≠ p.started := by omega
    have hdone : i < p.started := by omega
    simp [hlast, hnext, phase, hbefore, hdone, block]
  · simp [hlast, phase, block, TaskBlock.onIcon, Phase.icon]
    decide
  · have hlast : i + 1 ≠ p.started := Nat.ne_of_gt hbehind
    have hwaiting : ¬ i + 1 < p.started := by omega
    by_cases hnext : i = p.started
    · have hlit := lit_icon
      simp [hnext, phase, block, TaskBlock.onIcon, hlit]
    · have hlater : ¬ i < p.started := by omega
      simp [hlast, hwaiting, hnext, hlater, phase, block]

theorem addTask_board (p : Progress) (title : ShownText) (h : p.started ≤ p.tasks.length) :
    p.board.addTask title.text = (p.report (.addTask title)).board := by
  have hwaiting : phase p.started p.tasks.length = .waiting := by
    rw [phase, if_neg (by omega), if_neg (by omega)]
  simp [Progress.board, Board.addTask, Progress.report, List.mapIdx_append, hwaiting, block,
    Phase.icon]

theorem updateTask_board (p : Progress) (data : Option ShownText) :
    p.board.updateTask (data.map ShownText.text) = (p.report (.updateTask data)).board := by
  cases data with
  | none => rfl
  | some data =>
      simp only [Option.map_some, Progress.board, Board.updateTask, Progress.report,
        nthChild_mapIdx]
      congr 2
      funext i title
      by_cases hlast : i + 1 = p.started
      · have hstarted : p.started ≠ 0 := by omega
        simp [hlast, hstarted, phase, block]
      · rw [if_neg hlast]
        by_cases hbefore : i + 1 < p.started <;> simp [hlast, hbefore, phase, block]

/-- One call. -/
theorem show_board (p : Progress) (call : Call) (h : p.started ≤ p.tasks.length) :
    call.show p.board = (p.report call).board := by
  cases call with
  | init title => rfl
  | addTask title => exact addTask_board p title h
  | startTask => exact startTask_board p
  | console data => rfl
  | updateTask data => exact updateTask_board p data
  | giveUp => rfl
  | redirect target => rfl

/-- Calls one after the other, as long as no more tasks are started than there are. -/
theorem foldl_show_board (p : Progress) (calls : List Call) (n : ℕ)
    (hn : p.started + n = p.tasks.length) (h : Orderly n calls) :
    calls.foldl Call.show p.board = (calls.foldl Progress.report p).board := by
  induction calls generalizing p n with
  | nil => rfl
  | cons call calls ih =>
      rw [List.foldl_cons, List.foldl_cons, show_board p call (by omega)]
      cases call with
      | addTask title => exact ih _ (n + 1) (by simp [Progress.report]; omega) h
      | startTask =>
          obtain ⟨hpos, hrest⟩ := h
          exact ih _ (n - 1) (by simp [Progress.report]; omega) hrest
      | updateTask data => cases data <;> exact ih _ n hn h
      | _ => exact ih _ n hn h

theorem Orderly.mono {n : ℕ} {front calls : List Call} (h : Orderly n calls)
    (hfront : front <+: calls) : Orderly n front := by
  induction calls generalizing n front with
  | nil => rwa [List.prefix_nil.mp hfront]
  | cons call calls ih =>
      cases front with
      | nil => exact trivial
      | cons first front =>
          obtain ⟨rfl, hrest⟩ := List.cons_prefix_cons.mp hfront
          cases first with
          | startTask => exact ⟨h.1, ih h.2 hrest⟩
          | addTask title =>
              have hmore : Orderly (n + 1) front := ih h hrest
              exact hmore
          | _ =>
              have hsame : Orderly n front := ih h hrest
              exact hsame

/-- What only reports, or sends the page away, changes no order. -/
theorem orderly_append {n : ℕ} {front : List Call} (h : Orderly n front) {last : Call}
    (hlast : ∀ m, Orderly m [last]) : Orderly n (front ++ [last]) := by
  induction front generalizing n with
  | nil => exact hlast n
  | cons call front ih =>
      cases call with
      | startTask => exact ⟨h.1, ih h.2⟩
      | addTask title =>
          have hmore : Orderly (n + 1) (front ++ [last]) := ih h
          exact hmore
      | _ =>
          have hsame : Orderly n (front ++ [last]) := ih h
          exact hsame

theorem orderly_updates (n : ℕ) (updates : List (Option ShownText)) (calls : List Call) :
    Orderly n (updates.map .updateTask ++ calls) ↔ Orderly n calls := by
  induction updates with
  | nil => rfl
  | cons data updates ih => exact ih

theorem orderly_addTasks (n : ℕ) (titles : List ShownText) (calls : List Call) :
    Orderly n (titles.map .addTask ++ calls) ↔ Orderly (n + titles.length) calls := by
  induction titles generalizing n with
  | nil => rfl
  | cons title titles ih =>
      have hrest := ih (n + 1)
      rw [List.length_cons, Nat.add_comm titles.length, ← Nat.add_assoc]
      exact hrest

end Installer

/-! ## The class files -/

namespace Instance

open Installer

/-- `install` up to the archive: the tasks of the class file follow the first one. -/
def installCalls (title : ShownText) (tasks : List ShownText) (downloads unzips : List (Option ShownText)) :
    List Call :=
  [.init title, .addTask ⟨"Initializing".toList, by decide⟩,
    .addTask ⟨"Download".toList, by decide⟩, .addTask ⟨"Unzipping".toList, by decide⟩,
    .startTask] ++
  tasks.map .addTask ++ [.startTask] ++ downloads.map .updateTask ++ [.startTask] ++
  unzips.map .updateTask

/-- `appInstall`, which `install` of phpMyAdmin repeats. -/
def appInstallCalls (title : ShownText) (downloads unzips : List (Option ShownText)) : List Call :=
  [.init title, .addTask ⟨"Initializing".toList, by decide⟩,
    .addTask ⟨"Download".toList, by decide⟩, .addTask ⟨"Unzipping".toList, by decide⟩,
    .addTask ⟨"Configuring".toList, by decide⟩, .startTask, .startTask] ++
  downloads.map .updateTask ++ [.startTask] ++ unzips.map .updateTask ++ [.startTask]

/-- `uninstall` and `postUninstall`, or the former alone where it was aborted. -/
def uninstallCalls (aborted : Bool) : List Call :=
  [.init ⟨"Uninstalling...".toList, by decide⟩,
    .addTask ⟨"Stopping active instances/removing services".toList, by decide⟩,
    .addTask ⟨"Performing instance cleanup".toList, by decide⟩] ++
  (if aborted then [] else [.startTask, .startTask]) ++ [.redirect ⟨"/".toList, by decide⟩]

end Instance

namespace ClassFile

open Installer

/-- The tasks of the class files that have some. -/
def tasks : ClassFile → List ShownText
  | .mariadb | .mongodb | .mysql | .mysql8 =>
      [⟨"Initalize database".toList, by decide⟩, ⟨"Create wamp user".toList, by decide⟩,
        ⟨"Finalizing".toList, by decide⟩]
  | .postgresql =>
      [⟨"Initalize database".toList, by decide⟩, ⟨"Finalizing".toList, by decide⟩]
  | _ => []

/-- How many of them the class file starts. -/
def startedTasks : ClassFile → ℕ
  | .mariadb => 3
  | .mysql | .mysql8 => 2
  | .postgresql => 1
  | _ => 0

theorem startedTasks_le (classFile : ClassFile) :
    classFile.startedTasks ≤ classFile.tasks.length := by
  cases classFile <;> decide

/-- What `install` of a class file prints when nothing stops it. -/
def installCalls (title : ShownText) (downloads unzips : List (Option ShownText)) :
    ClassFile → List Call
  | .adminer | .drupal | .joomla | .laravel | .phpmyadmin | .wordpress =>
      Instance.appInstallCalls title downloads unzips ++ [.redirect ⟨"/sites".toList, by decide⟩]
  | classFile =>
      Instance.installCalls title classFile.tasks downloads unzips ++
        List.replicate classFile.startedTasks .startTask ++ [.redirect ⟨"/".toList, by decide⟩]

end ClassFile

namespace Installer

/-- What was printed where a run stopped: part of all there is to print, and possibly
what sends the page away. -/
def Stops (full calls : List Call) : Prop :=
  ∃ front, front <+: full ∧
    (calls = front ∨ calls = front ++ [.giveUp] ∨ ∃ target, calls = front ++ [.redirect target])

/-- What installs and uninstalls of a class file print. -/
def Runs (classFile : ClassFile) (calls : List Call) : Prop :=
  (∃ title downloads unzips, Stops (classFile.installCalls title downloads unzips) calls) ∨
    ∃ aborted, Stops (Instance.uninstallCalls aborted) calls

theorem Stops.orderly {full calls : List Call} (h : Stops full calls) (hfull : Orderly 0 full) :
    Orderly 0 calls := by
  obtain ⟨front, hfront, hcalls⟩ := h
  have horderly := hfull.mono hfront
  rcases hcalls with rfl | rfl | ⟨target, rfl⟩
  · exact horderly
  · exact orderly_append horderly fun _ => trivial
  · exact orderly_append horderly fun _ => trivial

theorem orderly_installCalls (title : ShownText) (tasks : List ShownText)
    (downloads unzips : List (Option ShownText)) (started : ℕ) (hstarted : started ≤ tasks.length)
    (target : Target) :
    Orderly 0 (Instance.installCalls title tasks downloads unzips ++
      List.replicate started .startTask ++ [.redirect target]) := by
  have hreplicate : ∀ m n, n ≤ m → Orderly m (List.replicate n .startTask ++ [.redirect target]) := by
    intro m n
    induction n generalizing m with
    | zero => exact fun _ => trivial
    | succ n ih =>
        intro hle
        exact ⟨by omega, ih (m - 1) (by omega)⟩
  have htail := hreplicate tasks.length started hstarted
  have hleft : 0 + 1 + 1 + 1 - 1 + tasks.length - 1 - 1 = tasks.length := by omega
  simp only [Instance.installCalls, List.append_assoc, List.cons_append, List.nil_append, Orderly,
    orderly_addTasks, orderly_updates, hleft]
  exact ⟨by omega, by omega, by omega, htail⟩

theorem orderly_appInstallCalls (title : ShownText) (downloads unzips : List (Option ShownText))
    (target : Target) :
    Orderly 0 (Instance.appInstallCalls title downloads unzips ++ [.redirect target]) := by
  simp [Instance.appInstallCalls, Orderly, orderly_updates]

/-- No class file starts a task it has not added. -/
theorem Runs.orderly {classFile : ClassFile} {calls : List Call} (h : Runs classFile calls) :
    Orderly 0 calls := by
  rcases h with ⟨title, downloads, unzips, hstops⟩ | ⟨aborted, hstops⟩
  · apply hstops.orderly
    unfold ClassFile.installCalls
    split
    all_goals first
      | exact orderly_appInstallCalls title downloads unzips _
      | exact orderly_installCalls title _ downloads unzips _ (ClassFile.startedTasks_le _) _
  · apply hstops.orderly
    cases aborted <;> simp [Instance.uninstallCalls, Orderly]

/-! ## Whatever arrives so far -/

end Installer

namespace WizardPage

universe u

variable {σ : Type u} {eval : σ → Text → σ × Bool} {state : σ}

/-- Where no line throws, the last event alone decides where the page is. -/
theorem hermione_of_quiet (done : List Text) (earlier : List Text) {response : Text}
    (hgrows : (earlier ++ [response]).Pairwise (· <+: ·))
    (hdone : ∀ event ∈ earlier ++ [response], done <+: terminated event)
    (hquiet : Quiet eval state (terminated response)) :
    hermione eval (reached eval state done) (earlier ++ [response]) =
      reached eval state (terminated response) := by
  induction earlier generalizing done with
  | nil => exact onprogress_of_quiet (hdone response (by simp)) hquiet
  | cons event earlier ih =>
      rw [List.cons_append, List.pairwise_cons] at hgrows
      have hevent : Quiet eval state (terminated event) :=
        hquiet.mono (terminated_grows (hgrows.1 response (by simp)))
      have hrest := ih (terminated event) hgrows.2
        fun next hnext => terminated_grows (hgrows.1 next hnext)
      rw [List.cons_append, hermione, List.foldl_cons, ← hermione,
        onprogress_of_quiet (hdone event (by simp)) hevent, hrest]

end WizardPage

namespace Installer

open WizardPage (Board)

/-- However the output of an install or uninstall arrives, and wherever it stops,
the page shows the progress that is reported by the calls whose lines are
complete. -/
theorem page_shows_progress {classFile : ClassFile} {calls : List Call}
    (hcalls : Runs classFile calls) (earlier : List Text) (response : Text)
    (hgrows : (earlier ++ [response]).Pairwise (· <+: ·)) (hpart : response <+: output calls) :
    (WizardPage.hermione WizardPage.evalLine (.fresh .blank) (earlier ++ [response])).state =
      (progress (calls.take (WizardPage.terminated response).length)).board := by
  have hlines : WizardPage.terminated response =
      lines [] (calls.take (WizardPage.terminated response).length) := by
    have hbegins := WizardPage.terminated_grows hpart
    rw [terminated_output] at hbegins
    rw [lines_take]
    exact List.prefix_iff_eq_take.mp hbegins
  have hevals := eval_lines Board.blank
    (calls.take (WizardPage.terminated response).length) [] (by simp)
  rw [← hlines] at hevals
  have hpage := WizardPage.hermione_of_quiet [] earlier hgrows (fun _ _ => List.nil_prefix)
    hevals.1
  have horderly := hcalls.orderly.mono
    ( List.take_prefix (WizardPage.terminated response).length calls)
  have hboard := foldl_show_board .none (calls.take (WizardPage.terminated response).length) 0 rfl
    horderly
  have hfresh : WizardPage.Page.fresh Board.blank =
      WizardPage.reached WizardPage.evalLine Board.blank [] := rfl
  rw [hfresh, hpage]
  exact hevals.2.trans hboard

/-- What an install of a MySQL server has printed when its transfer gives up. -/
def sampleCalls : List Call :=
  (ClassFile.mysql.installCalls ⟨"MySQL".toList, by decide⟩ [some ⟨"(7%)".toList, by decide⟩]
    []).take 10 ++ [.giveUp]

theorem sampleCalls_runs : Runs .mysql sampleCalls :=
  .inl ⟨⟨"MySQL".toList, by decide⟩, [some ⟨"(7%)".toList, by decide⟩], [], _,
    List.take_prefix 10 _, .inr (.inl rfl)⟩

/-- Two events, the second one within the last line: the transfer runs, six tasks are
shown, and the page has not left yet. -/
theorem page_shows_progress_mysql :
    let page := WizardPage.hermione WizardPage.evalLine (.fresh .blank)
      ([(output sampleCalls).take 30] ++ [(output sampleCalls).take 270])
    page.state.tasks.map (fun block => (block.bold, block.progress)) =
        [(false, []), (true, "(7%)".toList), (false, []), (false, []), (false, []), (false, [])] ∧
      page.state.location = none := by
  have hshows := page_shows_progress sampleCalls_runs [(output sampleCalls).take 30]
    ((output sampleCalls).take 270)
    (by simp) ( List.take_prefix 270 _)
  intro page
  rw [hshows]
  decide

end Installer

end WampManager
