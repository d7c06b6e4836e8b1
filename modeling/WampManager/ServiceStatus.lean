/-
# Running processes

`ServiceStatus` reads two tables out of one text: rows with the number and the image
of a process, and, behind a blank line, rows for connections, each with the number of
its process. It joins them under the image in small letters, and `killByPath` stops
the processes it finds under an image.
-/

import WampManager.Instance
import WampManager.SitePaths
import WampManager.Lib.WholeDoubles

namespace Text

/-- Cutting at the end reaches the first part if nothing is left of the second. -/
theorem rdropWhile_append (p : Char → Bool) (s t : Text) :
    (s ++ t).rdropWhile p = if t.rdropWhile p = [] then s.rdropWhile p else s ++ t.rdropWhile p := by
  induction t using List.reverseRecOn with
  | nil => simp
  | append_singleton t c ih =>
      rw [← List.append_assoc]
      by_cases hc : p c = true
      · rw [List.rdropWhile_concat_pos _ _ _ hc, List.rdropWhile_concat_pos _ _ _ hc, ih]
      · rw [List.rdropWhile_concat_neg _ _ _ hc, List.rdropWhile_concat_neg _ _ _ hc,
          if_neg (by simp)]
        simp

theorem isTrimChar_of_isDigit {c : Char} (h : c.isDigit = true) : isTrimChar c = false := by
  rw [← Bool.not_eq_true]
  intro htrim
  simp only [isTrimChar, Bool.or_eq_true, beq_iff_eq] at htrim
  rcases htrim with ((((rfl | rfl) | rfl) | rfl) | rfl) | rfl <;> exact absurd h (by decide)

end Text

namespace WampManager

namespace ServiceStatus

open Loose (Scalar looseEq)

/-! ## Reading -/

/-- Split a text at its first blank line, if there is one: `explode("\n\n", ..)`. -/
def breakAtBlank : Text → Text × Option Text
  | [] => ([], none)
  | c :: t =>
      if c = '\n' ∧ t.head? = some '\n' then ([], some t.tail)
      else
        let (front, rest) := breakAtBlank t
        (c :: front, rest)

/-- `explode("\t", $row)[$i]`, if the row has so many cells. -/
def cell (row : Text) (i : ℕ) : Option Text := (row.splitOn '\t')[i]?

/-- What is known under one image. -/
structure Service where
  pids : List Text
  endpoints : List (List (Option Text))
  deriving DecidableEq

/-- `$parts[3] == $pid`; a row without that cell has `null` there. -/
def ownedBy (pid row : Text) : Bool :=
  looseEq (((cell row 3).map Scalar.text).getD .null) (.text pid)

/-- The connections of a process, as they are kept. -/
def endpointsOf (net : List Text) (pid : Text) : List (List (Option Text)) :=
  (net.filter (ownedBy pid)).map fun row => [cell row 0, cell row 1, cell row 2]

/-- What is known under each image. -/
abbrev Table := Text → Option Service

/-- The loop body of `__construct`: file a row of the first table. -/
def record (net : List Text) (table : Table) (row : Text) : Table :=
  let pid := (cell row 0).getD []
  let path := Text.lower ((cell row 1).getD [])
  let known := (table path).getD ⟨[], []⟩
  fun image =>
    if image = path then some ⟨known.pids ++ [pid], known.endpoints ++ endpointsOf net pid⟩
    else table image

/-- The two tables of the output. -/
def tables (output : Text) : List Text × List Text :=
  let (p, rest) := breakAtBlank (Text.trim output)
  let n := (rest.map fun t => (breakAtBlank t).1).getD []
  (p.splitOn '\n', n.splitOn '\n')

/-- `new ServiceStatus()`. -/
def ofOutput (output : Text) : Table :=
  let (proc, net) := tables output
  proc.foldl (record net) fun _ => none

/-- `ServiceStatus::getByImage`. -/
def getByImage (table : Table) (image : Text) : Option Service := table image

/-- `Util::killByPath`: the numbers that are killed, in this order. -/
def killByPath (output path : Text) : List Text :=
  match getByImage (ofOutput output) (Text.lower path) with
  | some svc => svc.pids
  | none => []

/-! ## The output -/

/-- A text that fits into a cell. -/
def IsCell (t : Text) : Prop := '\t' ∉ t ∧ '\n' ∉ t

instance (t : Text) : Decidable (IsCell t) := inferInstanceAs (Decidable (_ ∧ _))

structure ProcessRow where
  pid : ℕ
  path : Text

structure ConnectionRow where
  proto : Text
  interface : Text
  port : Text
  pid : ℕ

/-- The output of `--netstat`: two tables, and white space at the end. -/
structure Netstat where
  processes : List ProcessRow
  connections : List ConnectionRow
  tail : Text
  distinct : (processes.map (·.pid)).Nodup
  processCells : ∀ p ∈ processes, IsCell p.path
  connectionCells : ∀ c ∈ connections, IsCell c.proto ∧ IsCell c.interface ∧ IsCell c.port
  blank : ∀ c ∈ tail, Text.isTrimChar c = true

/-- A process number in decimal digits. -/
def pidText (pid : ℕ) : Text := Nat.toDigits 10 pid

def ProcessRow.text (p : ProcessRow) : Text := pidText p.pid ++ '\t' :: p.path

def ConnectionRow.text (c : ConnectionRow) : Text :=
  c.proto ++ '\t' :: (c.interface ++ '\t' :: (c.port ++ '\t' :: pidText c.pid))

/-- The cells of a connection that are kept. -/
def ConnectionRow.cells (c : ConnectionRow) : List (Option Text) :=
  [some c.proto, some c.interface, some c.port]

namespace Netstat

/-- The text of the output. -/
def output (N : Netstat) : Text :=
  ['\n'].intercalate (N.processes.map ProcessRow.text) ++
    '\n' :: '\n' :: (['\n'].intercalate (N.connections.map ConnectionRow.text) ++ N.tail)

/-- The processes with an image, up to small and capital letters. -/
def running (N : Netstat) (path : Text) : List ProcessRow :=
  N.processes.filter fun p => Text.lower p.path = Text.lower path

/-- The connections of a process. -/
def connectionsOf (N : Netstat) (p : ProcessRow) : List ConnectionRow :=
  N.connections.filter fun c => c.pid = p.pid

end Netstat

/-- The process numbers of an answer; there are none in `null`. -/
def pidsIn (answer : Option Service) : List Text := (answer.map (·.pids)).getD []

/-- The connections of an answer. -/
def endpointsIn (answer : Option Service) : List (List (Option Text)) :=
  (answer.map (·.endpoints)).getD []

/-- The answer for a path is right: it has the numbers of the processes with that
image, in their order, and behind each other their connections, each once. -/
structure Answers (N : Netstat) (path : Text) (answer : Option Service) : Prop where
  pids : pidsIn answer = (N.running path).map fun p => pidText p.pid
  endpoints : endpointsIn answer =
    (N.running path).flatMap fun p => (N.connectionsOf p).map ConnectionRow.cells
  once : (endpointsIn answer).Perm
    ((N.connections.filter fun c => c.pid ∈ (N.running path).map (·.pid)).map
      ConnectionRow.cells)

/-! ## Filing the rows -/

/-- The key under which a row is filed. -/
def rowPath (row : Text) : Text := Text.lower ((cell row 1).getD [])

def rowPid (row : Text) : Text := (cell row 0).getD []

theorem record_apply (net : List Text) (table : Table) (row image : Text) :
    pidsIn (record net table row image) =
        pidsIn (table image) ++ (if rowPath row = image then [rowPid row] else []) ∧
      endpointsIn (record net table row image) =
        endpointsIn (table image) ++
          if rowPath row = image then endpointsOf net (rowPid row) else [] := by
  by_cases h : rowPath row = image
  · subst h
    have hrecord : record net table row (rowPath row) =
        some ⟨((table (rowPath row)).getD ⟨[], []⟩).pids ++ [rowPid row],
          ((table (rowPath row)).getD ⟨[], []⟩).endpoints ++ endpointsOf net (rowPid row)⟩ :=
      if_pos rfl
    rw [hrecord, if_pos rfl, if_pos rfl]
    cases table (rowPath row) <;> exact ⟨rfl, rfl⟩
  · have hrecord : record net table row image = table image := if_neg (Ne.symm h)
    rw [hrecord, if_neg h, if_neg h, List.append_nil, List.append_nil]
    exact ⟨rfl, rfl⟩

/-- What is filed under an image: the rows with that image, in their order. -/
theorem foldl_record (net rows : List Text) (table : Table) (image : Text) :
    pidsIn (rows.foldl (record net) table image) =
        pidsIn (table image) ++ (rows.filter fun r => rowPath r = image).map rowPid ∧
      endpointsIn (rows.foldl (record net) table image) =
        endpointsIn (table image) ++
          (rows.filter fun r => rowPath r = image).flatMap fun r => endpointsOf net (rowPid r) := by
  induction rows generalizing table with
  | nil => simp
  | cons row rows ih =>
      obtain ⟨hpids, hendpoints⟩ := ih (record net table row)
      obtain ⟨hpid, hendpoint⟩ := record_apply net table row image
      rw [List.foldl_cons, hpids, hendpoints, hpid, hendpoint]
      by_cases h : rowPath row = image
      · simp [h]
      · simp [h]

/-! ## Rows as texts -/

theorem isDigit_of_mem_pidText {pid : ℕ} {c : Char} (hc : c ∈ pidText pid) :
    c.isDigit = true :=
  Nat.isDigit_of_mem_toDigits (by decide) (by decide) hc

theorem pidText_ne_nil (pid : ℕ) : pidText pid ≠ [] := Nat.toDigits_ne_nil

theorem not_mem_pidText {pid : ℕ} {c : Char} (hc : c.isDigit = false) : c ∉ pidText pid := by
  intro hmem
  rw [isDigit_of_mem_pidText hmem] at hc
  cases hc

theorem pidText_injective {m n : ℕ} (h : pidText m = pidText n) : m = n := by
  have hvalue := congrArg (fun t => Nat.ofDigitChars 10 t 0) h
  simpa [pidText, Nat.ofDigitChars_ten_toDigits] using hvalue

/-- A number behind which only other characters follow reads as a row does. -/
theorem cell_pid_append {pid : ℕ} {rest : Text} :
    (pidText pid ++ '\t' :: rest).splitOn '\t' = pidText pid :: rest.splitOn '\t' := by
  rw [List.splitOn_append_cons_self,
    List.splitOn_eq_singleton (not_mem_pidText (by rfl)), List.singleton_append]

theorem cells_connection {c : ConnectionRow}
    (h : IsCell c.proto ∧ IsCell c.interface ∧ IsCell c.port) :
    c.text.splitOn '\t' = [c.proto, c.interface, c.port, pidText c.pid] := by
  rw [ConnectionRow.text, List.splitOn_append_cons_self, List.splitOn_append_cons_self,
    List.splitOn_append_cons_self, List.splitOn_eq_singleton h.1.1,
    List.splitOn_eq_singleton h.2.1.1, List.splitOn_eq_singleton h.2.2.1,
    List.splitOn_eq_singleton (not_mem_pidText (by rfl))]
  rfl

theorem rdropWhile_pidText (pid : ℕ) : (pidText pid).rdropWhile Text.isTrimChar = pidText pid := by
  rw [List.rdropWhile_eq_self_iff]
  intro hne htrim
  rw [Text.isTrimChar_of_isDigit (isDigit_of_mem_pidText (List.getLast_mem hne))] at htrim
  cases htrim

/-- A row of the first table that is cut at its end keeps its number, and its path is
cut. -/
theorem cells_rtrim (p : ProcessRow) (h : IsCell p.path) :
    rowPid (p.text.rdropWhile Text.isTrimChar) = pidText p.pid ∧
      rowPath (p.text.rdropWhile Text.isTrimChar) =
        Text.lower (p.path.rdropWhile Text.isTrimChar) := by
  have hcut : '\t' ∉ p.path.rdropWhile Text.isTrimChar :=
    fun hmem => h.1 ((List.rdropWhile_prefix _ _).subset hmem)
  have hsplit : p.text = (pidText p.pid ++ ['\t']) ++ p.path := by simp [ProcessRow.text]
  unfold rowPid rowPath cell
  by_cases hall : p.path.rdropWhile Text.isTrimChar = []
  · have hrow : p.text.rdropWhile Text.isTrimChar = pidText p.pid := by
      rw [hsplit, Text.rdropWhile_append, if_pos hall, List.rdropWhile_concat_pos _ _ _ (by rfl),
        rdropWhile_pidText]
    rw [hrow, hall, List.splitOn_eq_singleton (not_mem_pidText (by rfl))]
    exact ⟨rfl, rfl⟩
  · have hrow : p.text.rdropWhile Text.isTrimChar =
        pidText p.pid ++ '\t' :: p.path.rdropWhile Text.isTrimChar := by
      rw [hsplit, Text.rdropWhile_append, if_neg hall, List.append_assoc, List.singleton_append]
    rw [hrow, cell_pid_append, List.splitOn_eq_singleton hcut]
    exact ⟨rfl, rfl⟩

theorem cells_process (p : ProcessRow) (h : IsCell p.path) :
    rowPid p.text = pidText p.pid ∧ rowPath p.text = Text.lower p.path := by
  unfold rowPid rowPath cell
  rw [ProcessRow.text, cell_pid_append, List.splitOn_eq_singleton h.1]
  exact ⟨rfl, rfl⟩

theorem ProcessRow.rdropWhile_text_ne_nil (p : ProcessRow) :
    p.text.rdropWhile Text.isTrimChar ≠ [] := by
  rw [ProcessRow.text, ← List.singleton_append, ← List.append_assoc, Text.rdropWhile_append]
  split
  · rw [List.rdropWhile_concat_pos _ _ _ (by rfl), rdropWhile_pidText]
    exact pidText_ne_nil _
  · simp

/-! ## Reading the two tables -/

theorem breakAtBlank_append {row : Text} (h : '\n' ∉ row) (t : Text) :
    breakAtBlank (row ++ t) = (row ++ (breakAtBlank t).1, (breakAtBlank t).2) := by
  induction row with
  | nil => rfl
  | cons c row ih =>
      rw [List.mem_cons, not_or] at h
      rw [List.cons_append, breakAtBlank, if_neg fun hc => h.1 hc.1.symm, ih h.2]
      rfl

/-- The rows of a table are not empty, and each is one line. -/
def IsTable (rows : List Text) : Prop := ∀ r ∈ rows, r ≠ [] ∧ '\n' ∉ r

/-- The rows of a table are read up to what follows them. -/
theorem breakAtBlank_rows {rows : List Text} (h : IsTable rows) (hne : rows ≠ []) {u : Text}
    {rest : Option Text} (hrest : breakAtBlank u = ([], rest)) :
    breakAtBlank (['\n'].intercalate rows ++ u) = (['\n'].intercalate rows, rest) := by
  induction rows with
  | nil => exact absurd rfl hne
  | cons row rows ih =>
      have hrow := (h row List.mem_cons_self).2
      cases rows with
      | nil => rw [List.intercalate_singleton, breakAtBlank_append hrow, hrest, List.append_nil]
      | cons row' rows =>
          have htail := ih (fun r hr => h r (List.mem_cons_of_mem row hr)) (List.cons_ne_nil _ _)
          have hjoin : ['\n'].intercalate (row :: row' :: rows) ++ u =
              row ++ '\n' :: (['\n'].intercalate (row' :: rows) ++ u) := by
            simp [List.intercalate_cons_cons]
          have hhead : (['\n'].intercalate (row' :: rows) ++ u).head? ≠ some '\n' := by
            obtain ⟨hne', hfeed⟩ := h row' (by simp)
            obtain ⟨c, row'', rfl⟩ := List.exists_cons_of_ne_nil hne'
            have hc : c ≠ '\n' := fun heq => hfeed (by simp [heq])
            cases rows <;> simpa [List.intercalate_cons_cons, List.intercalate_singleton] using hc
          rw [hjoin, breakAtBlank_append hrow, breakAtBlank, if_neg fun hc => hhead hc.2, htail]
          simp [List.intercalate_cons_cons]

theorem splitOn_rows {rows : List Text} (h : IsTable rows) (hne : rows ≠ []) :
    (['\n'].intercalate rows).splitOn '\n' = rows :=
  List.splitOn_intercalate '\n' (fun r hr => (h r hr).2) hne

namespace Netstat

variable {N : Netstat}

theorem isTable_processes (N : Netstat) : IsTable (N.processes.map ProcessRow.text) := by
  intro r hr
  obtain ⟨p, hp, rfl⟩ := List.mem_map.mp hr
  have hcell := N.processCells p hp
  have hpid : '\n' ∉ pidText p.pid := not_mem_pidText (by rfl)
  refine ⟨by simp [ProcessRow.text], ?_⟩
  simp [ProcessRow.text, hcell.2, hpid]

theorem isTable_connections (N : Netstat) : IsTable (N.connections.map ConnectionRow.text) := by
  intro r hr
  obtain ⟨c, hc, rfl⟩ := List.mem_map.mp hr
  obtain ⟨hproto, hinterface, hport⟩ := N.connectionCells c hc
  have hpid : '\n' ∉ pidText c.pid := not_mem_pidText (by rfl)
  refine ⟨by simp [ConnectionRow.text], ?_⟩
  simp [ConnectionRow.text, hproto.2, hinterface.2, hport.2, hpid]

/-- Nothing is cut off in front of a process. -/
theorem trim_output (N : Netstat) (hne : N.processes ≠ []) :
    Text.trim N.output = N.output.rdropWhile Text.isTrimChar := by
  obtain ⟨p, ps, hps⟩ := List.exists_cons_of_ne_nil hne
  obtain ⟨c, rest, hpid⟩ := List.exists_cons_of_ne_nil (pidText_ne_nil p.pid)
  have hdigit : c.isDigit = true := isDigit_of_mem_pidText (hpid ▸ List.mem_cons_self)
  have hhead : ∃ t, N.output = c :: t := by
    rw [output, hps, List.map_cons, ProcessRow.text, hpid]
    cases ps with
    | nil => exact ⟨_, rfl⟩
    | cons q ps =>
        rw [List.map_cons, List.intercalate_cons_cons]
        exact ⟨_, rfl⟩
  obtain ⟨t, ht⟩ := hhead
  rw [Text.trim, ht, List.dropWhile_cons_of_neg (by simp [Text.isTrimChar_of_isDigit hdigit])]

/-- A process whose path is cut at its end. -/
def cut (p : ProcessRow) : ProcessRow := { p with path := p.path.rdropWhile Text.isTrimChar }

/-- The processes as they are read: without connections the last path is cut. -/
def seen (N : Netstat) : List ProcessRow :=
  if N.connections = [] then N.processes.dropLast ++ (N.processes.getLast?.map cut).toList
  else N.processes

/-- The rows of the second table; an empty table is read as one empty row. -/
def net (N : Netstat) : List Text :=
  if N.connections = [] then [[]] else N.connections.map ConnectionRow.text

/-- A row shows a process. -/
def Shows (row : Text) (p : ProcessRow) : Prop :=
  rowPid row = pidText p.pid ∧ rowPath row = Text.lower p.path

theorem exists_front (rows : List Text) :
    ∃ front, ∀ r, ['\n'].intercalate (rows ++ [r]) = front ++ r := by
  induction rows with
  | nil => exact ⟨[], fun r => List.intercalate_singleton⟩
  | cons row rows ih =>
      obtain ⟨front, hfront⟩ := ih
      refine ⟨row ++ '\n' :: front, fun r => ?_⟩
      obtain ⟨row', rows', hcons⟩ : ∃ row' rows', rows ++ [r] = row' :: rows' :=
        List.exists_cons_of_ne_nil (by simp)
      rw [List.cons_append, hcons, List.intercalate_cons_cons, ← hcons, hfront]
      simp

/-- Without connections the end of the last process is trimmed. -/
theorem trim_output_of_nil {init : List ProcessRow} {last : ProcessRow}
    (hsplit : N.processes = init ++ [last]) (hnone : N.connections = []) :
    Text.trim N.output = ['\n'].intercalate
      (init.map ProcessRow.text ++ [last.text.rdropWhile Text.isTrimChar]) := by
  obtain ⟨front, hfront⟩ := exists_front (init.map ProcessRow.text)
  have htail : ('\n' :: '\n' :: N.tail).rdropWhile Text.isTrimChar = [] := by
    rw [List.rdropWhile_eq_nil_iff]
    have hfeed : Text.isTrimChar '\n' = true := rfl
    simpa [hfeed] using N.blank
  have houtput : N.output = (front ++ last.text) ++ '\n' :: '\n' :: N.tail := by
    rw [output, hsplit, hnone, List.map_append, List.map_singleton, hfront]
    rfl
  rw [N.trim_output (by simp [hsplit]), houtput, Text.rdropWhile_append, if_pos htail,
    Text.rdropWhile_append, if_neg last.rdropWhile_text_ne_nil, hfront]

/-- With connections only the white space at the end is trimmed. -/
theorem trim_output_of_ne (hne : N.processes ≠ []) (hsome : N.connections ≠ []) :
    Text.trim N.output = ['\n'].intercalate (N.processes.map ProcessRow.text) ++
      '\n' :: '\n' :: ['\n'].intercalate (N.connections.map ConnectionRow.text) := by
  obtain ⟨init, last, hsplit⟩ := (List.eq_nil_or_concat' N.connections).resolve_left hsome
  obtain ⟨front, hfront⟩ := exists_front (init.map ConnectionRow.text)
  have htail : N.tail.rdropWhile Text.isTrimChar = [] := List.rdropWhile_eq_nil_iff.mpr N.blank
  have hpid : (pidText last.pid).rdropWhile Text.isTrimChar ≠ [] := by
    rw [rdropWhile_pidText]
    exact pidText_ne_nil _
  obtain ⟨before, hbefore⟩ : ∃ before, ['\n'].intercalate (N.processes.map ProcessRow.text) ++
      '\n' :: '\n' :: ['\n'].intercalate (N.connections.map ConnectionRow.text) =
        before ++ pidText last.pid := by
    refine ⟨['\n'].intercalate (N.processes.map ProcessRow.text) ++ '\n' :: '\n' :: (front ++
      (last.proto ++ '\t' :: (last.interface ++ '\t' :: (last.port ++ ['\t'])))), ?_⟩
    rw [hsplit, List.map_append, List.map_singleton, hfront, ConnectionRow.text]
    simp
  have houtput : N.output = (before ++ pidText last.pid) ++ N.tail := by
    rw [← hbefore, output]
    simp
  rw [N.trim_output hne, houtput, Text.rdropWhile_append, if_pos htail, Text.rdropWhile_append,
    if_neg hpid, rdropWhile_pidText, hbefore]

/-- The two tables as they are read. -/
theorem exists_tables (N : Netstat) (hne : N.processes ≠ []) :
    ∃ rows, List.Forall₂ Shows rows N.seen ∧ tables N.output = (rows, N.net) := by
  have hshows : ∀ ps : List ProcessRow, (∀ p ∈ ps, IsCell p.path) →
      List.Forall₂ Shows (ps.map ProcessRow.text) ps := by
    intro ps hcells
    rw [List.forall₂_map_left_iff, List.forall₂_same]
    exact fun p hp => cells_process p (hcells p hp)
  by_cases hnone : N.connections = []
  · obtain ⟨init, last, hsplit⟩ := (List.eq_nil_or_concat' N.processes).resolve_left hne
    have hcells : ∀ p ∈ init, IsCell p.path := fun p hp => N.processCells p (by simp [hsplit, hp])
    have hlast : IsCell last.path := N.processCells last (by simp [hsplit])
    have hseen : N.seen = init ++ [cut last] := by simp [seen, hnone, hsplit]
    refine ⟨init.map ProcessRow.text ++ [last.text.rdropWhile Text.isTrimChar], ?_, ?_⟩
    · rw [hseen]
      exact List.rel_append (hshows init hcells)
        (List.Forall₂.cons (cells_rtrim last hlast) List.Forall₂.nil)
    · have htable : IsTable (init.map ProcessRow.text ++
          [last.text.rdropWhile Text.isTrimChar]) := by
        intro r hr
        rcases List.mem_append.mp hr with hr | hr
        · exact N.isTable_processes r (by simp [hsplit, List.mem_map.mp hr])
        · rw [List.mem_singleton.mp hr]
          refine ⟨last.rdropWhile_text_ne_nil, fun hfeed => ?_⟩
          exact (N.isTable_processes last.text (by simp [hsplit])).2
            ((List.rdropWhile_prefix _ _).subset hfeed)
      have hread := breakAtBlank_rows htable (by simp) (u := []) rfl
      rw [List.append_nil] at hread
      rw [tables, trim_output_of_nil hsplit hnone, hread]
      simp only [Option.map_none, Option.getD_none, net, if_pos hnone]
      rw [splitOn_rows htable (by simp)]
      rfl
  · refine ⟨N.processes.map ProcessRow.text, ?_, ?_⟩
    · rw [seen, if_neg hnone]
      exact hshows N.processes N.processCells
    · have hprocs : N.processes.map ProcessRow.text ≠ [] := by simpa using hne
      have hconns : N.connections.map ConnectionRow.text ≠ [] := by simpa using hnone
      have hread := breakAtBlank_rows N.isTable_processes hprocs
        (u := '\n' :: '\n' :: ['\n'].intercalate (N.connections.map ConnectionRow.text)) rfl
      have hread' := breakAtBlank_rows N.isTable_connections hconns (u := []) rfl
      rw [List.append_nil] at hread'
      rw [tables, trim_output_of_ne hne hnone, hread]
      simp only [Option.map_some, Option.getD_some, net, if_neg hnone]
      rw [List.tail_cons, hread', splitOn_rows N.isTable_processes hprocs,
        splitOn_rows N.isTable_connections hconns]

/-! ## What is found under an image -/

/-- A connection belongs to the process whose number it has. -/
theorem endpointsOf_net (N : Netstat) (pid : ℕ) :
    endpointsOf N.net (pidText pid) =
      (N.connections.filter fun c => c.pid = pid).map ConnectionRow.cells := by
  unfold net
  by_cases hnone : N.connections = []
  · have hempty : (pidText pid).isEmpty = false := by simpa using pidText_ne_nil pid
    have hno : ownedBy (pidText pid) [] = false := hempty
    simp [endpointsOf, hnone, hno]
  · rw [if_neg hnone, endpointsOf, List.filter_map, List.map_map]
    have hcells : ∀ c ∈ N.connections, ∀ i, cell c.text i =
        [c.proto, c.interface, c.port, pidText c.pid][i]? := by
      intro c hc i
      rw [cell, cells_connection (N.connectionCells c hc)]
    have howned : ∀ c ∈ N.connections,
        (ownedBy (pidText pid) ∘ ConnectionRow.text) c = decide (c.pid = pid) := by
      intro c hc
      show ownedBy (pidText pid) c.text = _
      rw [ownedBy, hcells c hc]
      exact Loose.textEq_toDigits c.pid pid
    rw [List.filter_congr howned]
    apply List.map_congr_left
    intro c hc
    have hmem := List.mem_of_mem_filter hc
    simp only [Function.comp_apply, hcells c hmem]
    rfl

/-- Rows under an image are the processes they show. -/
theorem filter_shows {rows : List Text} {ps : List ProcessRow} (h : List.Forall₂ Shows rows ps)
    (image : Text) :
    (rows.filter fun r => rowPath r = image).map rowPid =
      (ps.filter fun p => Text.lower p.path = image).map fun p => pidText p.pid := by
  induction h with
  | nil => rfl
  | @cons row p rows ps hshow hrest ih =>
      obtain ⟨hpid, hpath⟩ := hshow
      by_cases himage : Text.lower p.path = image
      · rw [List.filter_cons_of_pos (by simpa [hpath] using himage),
          List.filter_cons_of_pos (by simpa using himage), List.map_cons, List.map_cons, ih, hpid]
      · rw [List.filter_cons_of_neg (by simpa [hpath] using himage),
          List.filter_cons_of_neg (by simpa using himage), ih]

/-- What `getByImage` finds: the processes as they are read. -/
theorem getByImage_output (N : Netstat) (hne : N.processes ≠ []) (image : Text) :
    pidsIn (getByImage (ofOutput N.output) image) =
        (N.seen.filter fun p => Text.lower p.path = image).map (fun p => pidText p.pid) ∧
      endpointsIn (getByImage (ofOutput N.output) image) =
        (N.seen.filter fun p => Text.lower p.path = image).flatMap fun p =>
          (N.connectionsOf p).map ConnectionRow.cells := by
  obtain ⟨rows, hshows, htables⟩ := N.exists_tables hne
  obtain ⟨hpids, hendpoints⟩ := foldl_record N.net rows (fun _ => none) image
  have hoff : getByImage (ofOutput N.output) image =
      rows.foldl (record N.net) (fun _ => none) image := by
    rw [getByImage, ofOutput, htables]
  have hflat : ∀ l : List Text, (l.flatMap fun r => endpointsOf N.net (rowPid r)) =
      (l.map rowPid).flatMap (endpointsOf N.net) := fun l => (List.flatMap_map _ _ l).symm
  rw [hoff, hpids, hendpoints, hflat, filter_shows hshows, List.flatMap_map]
  refine ⟨rfl, ?_⟩
  simp only [endpointsOf_net]
  rfl

/-- Both tables are there, or the last path ends as it is read. -/
def Complete (N : Netstat) : Prop :=
  N.processes ≠ [] ∧ (N.connections = [] →
    ∀ p ∈ N.processes.getLast?, ∀ c ∈ p.path.getLast?, Text.isTrimChar c = false)

theorem Complete.seen_eq (h : N.Complete) : N.seen = N.processes := by
  obtain ⟨hne, hend⟩ := h
  unfold seen
  by_cases hnone : N.connections = []
  · obtain ⟨init, last, hsplit⟩ := (List.eq_nil_or_concat' N.processes).resolve_left hne
    have hlast := hend hnone last (by simp [hsplit])
    have hcut : cut last = last := by
      have hpath : last.path.rdropWhile Text.isTrimChar = last.path := by
        rw [List.rdropWhile_eq_self_iff]
        intro hpath htrim
        rw [hlast _ (List.getLast_mem_getLast? hpath)] at htrim
        cases htrim
      rw [cut, hpath]
    simp [hnone, hsplit, hcut]
  · rw [if_neg hnone]

/-- Grouped by process or not, connections are the same. -/
theorem connections_perm (cs : List ConnectionRow) {ps : List ProcessRow}
    (h : (ps.map (·.pid)).Nodup) :
    (ps.flatMap fun p => cs.filter fun c => c.pid = p.pid).Perm
      (cs.filter fun c => c.pid ∈ ps.map (·.pid)) := by
  induction ps with
  | nil => simp
  | cons p ps ih =>
      rw [List.map_cons, List.nodup_cons] at h
      set all := cs.filter fun c => c.pid ∈ (p :: ps).map (·.pid)
      have hfirst : all.filter (fun c => c.pid = p.pid) = cs.filter fun c => c.pid = p.pid := by
        rw [List.filter_filter]
        apply List.filter_congr
        intro c _
        by_cases hc : c.pid = p.pid <;> simp [hc]
      have hrest : all.filter (fun c => !decide (c.pid = p.pid)) =
          cs.filter fun c => c.pid ∈ ps.map (·.pid) := by
        rw [List.filter_filter]
        apply List.filter_congr
        intro c _
        by_cases hc : c.pid = p.pid
        · rw [hc]
          simp [h.1]
        · simp [hc]
      rw [List.flatMap_cons]
      refine ((ih h.2).append_left _).trans ?_
      rw [← hfirst, ← hrest]
      exact List.filter_append_perm _ all

/-- The answer is right for every path exactly if the output is complete. -/
theorem answers_iff (N : Netstat) :
    (∀ path, Answers N path (getByImage (ofOutput N.output) (Text.lower path))) ↔ N.Complete := by
  constructor
  · intro h
    refine ⟨?_, fun hnone p hp c hc => ?_⟩
    · intro hempty
      obtain ⟨row, rows, hrows⟩ : ∃ row rows, (tables N.output).1 = row :: rows :=
        List.exists_cons_of_ne_nil (List.splitOn_ne_nil _ _)
      have hanswer := (h ((cell row 1).getD [])).pids
      have hfound := (foldl_record (tables N.output).2 (tables N.output).1 (fun _ => none)
        (rowPath row)).1
      have hnobody : N.running ((cell row 1).getD []) = [] := by simp [running, hempty]
      have hsame : pidsIn (getByImage (ofOutput N.output) (rowPath row)) = [] := by
        rw [show rowPath row = Text.lower ((cell row 1).getD []) from rfl, hanswer, hnobody]
        rfl
      rw [getByImage, ofOutput, hfound, hrows] at hsame
      simp at hsame
    · by_contra htrim
      obtain ⟨init, hsplit⟩ := List.getLast?_eq_some_iff.mp hp
      obtain ⟨front, hpath⟩ := List.getLast?_eq_some_iff.mp hc
      have hne : N.processes ≠ [] := by simp [hsplit]
      have hseen : N.seen = init ++ [cut p] := by simp [seen, hnone, hsplit]
      have hother : Text.lower (cut p).path ≠ Text.lower p.path := by
        intro heq
        have hcut : (cut p).path = front.rdropWhile Text.isTrimChar := by
          show p.path.rdropWhile Text.isTrimChar = _
          rw [hpath, List.rdropWhile_concat_pos _ _ _ (by simpa using htrim)]
        have hle := (List.rdropWhile_prefix Text.isTrimChar front).length_le
        have hlength := congrArg List.length heq
        simp only [Text.lower, List.length_map, hcut, hpath, List.length_append,
          List.length_singleton] at hlength
        omega
      have hanswer := (h p.path).pids
      rw [(getByImage_output N hne _).1, hseen, running, hsplit, List.filter_append,
        List.filter_append, List.filter_cons_of_neg (by simpa using hother),
        List.filter_cons_of_pos (by simp)] at hanswer
      have hlength := congrArg List.length hanswer
      simp at hlength
  · intro hcomplete path
    obtain ⟨hpids, hendpoints⟩ := getByImage_output N hcomplete.1 (Text.lower path)
    rw [hcomplete.seen_eq] at hpids hendpoints
    refine ⟨hpids, hendpoints, ?_⟩
    rw [hendpoints]
    have hdistinct : ((N.running path).map (·.pid)).Nodup :=
      N.distinct.sublist (List.filter_sublist.map _)
    have hperm := (connections_perm N.connections hdistinct).map ConnectionRow.cells
    rw [List.map_flatMap] at hperm
    exact hperm

/-! ## Killing by path -/

/-- The columns that make the name of an instance hold no path separator. -/
def OneSegment (package : Option PackageInfo) : Prop :=
  '\\' ∉ Instance.column package (·.title) ∧ '\\' ∉ Instance.column package (·.row.version) ∧
    '\\' ∉ Instance.column package (·.row.arch)

instance (package : Option PackageInfo) : Decidable (OneSegment package) :=
  inferInstanceAs (Decidable (_ ∧ _ ∧ _))

theorem not_mem_nameOf {package : Option PackageInfo} (h : OneSegment package) (id : ℤ) :
    '\\' ∉ Text.lower (Instance.nameOf id package) := by
  obtain ⟨htitle, hversion, harch⟩ := h
  have hdecimal : '\\' ∉ decimal id := by
    cases id with
    | ofNat n => exact not_mem_pidText (by rfl)
    | negSucc n =>
        rw [decimal, List.mem_cons, not_or]
        have hpid : '\\' ∉ pidText (n + 1) := not_mem_pidText (by rfl)
        exact ⟨by decide, hpid⟩
  intro hmem
  obtain ⟨d, hd, hlower⟩ := List.mem_map.mp hmem
  obtain rfl := (FilePath.toLower_eq_iff (by decide)).mp hlower
  simp [Instance.nameOf, hdecimal, htitle, hversion, harch] at hd

/-- Process paths of different instances differ, and none starts with another. -/
theorem processName_not_begin {binPath : Text} {a b : ℤ} {p q : Option PackageInfo}
    (hp : OneSegment p) (hq : OneSegment q) (hne : a ≠ b) :
    ¬ Text.lower (Instance.setInstanceVars binPath a p).processName <+:
      Text.lower (Instance.setInstanceVars binPath b q).processName := by
  rintro ⟨rest, hrest⟩
  have hpath : ∀ (i : ℤ) (r : Option PackageInfo),
      Text.lower (Instance.setInstanceVars binPath i r).processName =
        Text.lower binPath ++ '\\' :: (Text.lower (Instance.nameOf i r) ++
          '\\' :: Text.lower (Instance.column r (·.row.process))) := by
    intro i r
    simp only [Instance.setInstanceVars, Text.lower_append, List.append_assoc]
    simp [Text.lower]
  have htake : ∀ {s : Text}, '\\' ∉ s → ∀ t : Text,
      (s ++ '\\' :: t).takeWhile (· ≠ '\\') = s := by
    intro s hs t
    rw [List.takeWhile_append_of_pos fun c hc => by
      simpa using fun heq : c = '\\' => hs (heq ▸ hc)]
    simp
  rw [hpath, hpath, List.append_assoc, List.cons_append, List.append_assoc,
    List.cons_append] at hrest
  have htail := (List.cons.inj (List.append_cancel_left hrest)).2
  have hname := congrArg (List.takeWhile (· ≠ '\\')) htail
  rw [htake (not_mem_nameOf hp a), htake (not_mem_nameOf hq b)] at hname
  have hfold : ∀ (i : ℤ) (r : Option PackageInfo), ∃ t,
      Text.lower (Instance.nameOf i r) = decimal i ++ '-' :: t := by
    intro i r
    have hname : Instance.nameOf i r = decimal i ++ '-' :: (Instance.column r (·.title) ++
        '_' :: (Instance.column r (·.row.version) ++ '_' :: Instance.column r (·.row.arch))) := by
      simp [Instance.nameOf]
    exact ⟨_, by rw [hname, Text.lower_append, lower_decimal]; rfl⟩
  obtain ⟨s, hs⟩ := hfold a p
  obtain ⟨t, ht⟩ := hfold b q
  rw [hs, ht] at hname
  exact hne (decimal_append_inj hname)

/-- A process that is read has a path that starts the one it was written with. -/
theorem exists_of_mem_seen (N : Netstat) {s : ProcessRow} (hs : s ∈ N.seen) :
    ∃ p ∈ N.processes, s.pid = p.pid ∧ s.path <+: p.path := by
  unfold seen at hs
  by_cases hnone : N.connections = []
  · rw [if_pos hnone, List.mem_append, Option.mem_toList,
      Option.map_eq_some_iff] at hs
    rcases hs with hs | ⟨p, hp, rfl⟩
    · exact ⟨s, List.mem_of_mem_dropLast hs, rfl, List.prefix_refl _⟩
    · exact ⟨p, List.mem_of_mem_getLast? hp, rfl, List.rdropWhile_prefix _ _⟩
  · rw [if_neg hnone] at hs
    exact ⟨s, hs, rfl, List.prefix_refl _⟩

/-- `getByImage` is right for every path exactly if the output is complete, and
`killByPath` never hits a process of another instance. -/
theorem service_status_exact (N : Netstat) :
    ((∀ path, Answers N path (getByImage (ofOutput N.output) (Text.lower path))) ↔
        N.Complete) ∧
      ∀ (binPath : Text) (a b : ℤ) (p q : Option PackageInfo), a ≠ b → OneSegment p →
        OneSegment q → ∀ row ∈ N.processes,
        Text.lower row.path = Text.lower (Instance.setInstanceVars binPath b q).processName →
        pidText row.pid ∉ killByPath N.output (Instance.setInstanceVars binPath a p).processName := by
  refine ⟨N.answers_iff, ?_⟩
  intro binPath a b p q hne hp hq row hrow hpath hkilled
  have hprocs : N.processes ≠ [] := List.ne_nil_of_mem hrow
  have hkill : killByPath N.output (Instance.setInstanceVars binPath a p).processName =
      pidsIn (getByImage (ofOutput N.output)
        (Text.lower (Instance.setInstanceVars binPath a p).processName)) := by
    unfold killByPath pidsIn
    cases getByImage (ofOutput N.output) _ <;> rfl
  rw [hkill, (getByImage_output N hprocs _).1, List.mem_map] at hkilled
  obtain ⟨s, hs, hpid⟩ := hkilled
  obtain ⟨hseen, himage⟩ := List.mem_filter.mp hs
  obtain ⟨row', hrow', hpid', hbegin⟩ := N.exists_of_mem_seen hseen
  have hsame : row' = row := by
    refine List.inj_on_of_nodup_map N.distinct hrow' hrow ?_
    rw [← hpid', pidText_injective hpid]
  refine @processName_not_begin binPath _ _ _ _ hp hq hne ?_
  rw [← hpath, ← of_decide_eq_true himage, ← hsame]
  exact hbegin.map Char.toLower

/-- Two processes of one instance, and one of another. -/
def sample : Netstat where
  processes := [⟨4, []⟩, ⟨8, "C:\\bin\\1-__\\".toList⟩, ⟨12, "c:\\bin\\2-__\\".toList⟩]
  connections := [⟨"tcp".toList, "0.0.0.0".toList, "80".toList, 8⟩]
  tail := []
  distinct := by decide
  processCells := by decide
  connectionCells := by decide
  blank := by decide

/-- Stopping the first instance leaves the process of the second alone. -/
theorem sample_status :
    pidText 12 ∉ killByPath sample.output
      (Instance.setInstanceVars "C:\\bin".toList 1 none).processName :=
  (service_status_exact sample).2 "C:\\bin".toList 1 2 none none (by decide) (by decide)
    (by decide) ⟨12, "c:\\bin\\2-__\\".toList⟩ (by simp [sample]) (by decide)

/-- Without a process, rows of connections are read as processes. -/
theorem connections_read_as_processes :
    ¬ ∀ (N : Netstat) (path : Text),
      Answers N path (getByImage (ofOutput N.output) (Text.lower path)) := by
  intro h
  have hnone := h ⟨[], [⟨"tcp".toList, "127.0.0.1".toList, "80".toList, 8⟩], [], by decide,
    by decide, by decide, by decide⟩ "127.0.0.1".toList
  exact absurd hnone.pids (by decide)

end Netstat

end ServiceStatus

end WampManager
