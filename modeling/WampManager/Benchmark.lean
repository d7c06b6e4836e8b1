/-
# Queueing a benchmark

The form of a benchmark becomes a command line for `abs.exe`. The fields are pasted into
a command that stands in the quotes of another one, so the address that was entered is the
one that is run only if no character of it means something to the command interpreter.
-/

import WampManager.Lib.Argv
import WampManager.Lib.LooseOrder
import WampManager.Ports

namespace WampManager

open Loose (compareInt textCompare truthy)

namespace Validator

/-- `option`: a select is not left on the entry that posts -1. -/
def option (form : PostedForm) (field : Text) : List FieldError :=
  record field
    (match form.scalar field with
      | .text value => Loose.eqInt value (-1)
      | _ => false)
    "Please select an option".toList

end Validator

namespace BenchmarkController

/-! ## The request -/

/-- A posted field as text. -/
def posted (form : PostedForm) (field : String) : Text := (form.value field.toList).toText

/-- The endpoint of the site, as the query finds it, with the labels of its servers. -/
structure Site where
  port : SqlValue
  type : SqlValue
  httpd : SqlValue
  php : SqlValue

/-- A row of the table of benchmarks. -/
structure Benchmark where
  created : ℤ
  c : Text
  n : Text
  address : Text
  httpd : SqlValue
  php : SqlValue

/-- An accepted form: what is stored and the line that is executed. -/
structure Queued where
  benchmark : Benchmark
  line : Text

/-- What a request does. The data is written to a file before anything is checked. -/
structure Outcome where
  file : Option (Text × Text)
  result : Except (List FieldError) Queued

/-- What is wrong with a form. -/
def errors (form : PostedForm) : List FieldError :=
  Validator.record "concurrency".toList
      (compareInt (posted form "concurrency") 20000 == .gt)
      "Can't be greater than 20,000".toList ++
    Validator.record "concurrency".toList
      (textCompare (posted form "requests") (posted form "concurrency") == .lt)
      "Can't be greater than requests".toList ++
    Instance.requiredNumber form "requests" ++ Instance.requiredNumber form "concurrency" ++
    Validator.option form "domain".toList

/-- `explode("\r\n", ..)`. -/
def explodeLines : Text → List Text
  | [] => [[]]
  | '\r' :: '\n' :: t => [] :: explodeLines t
  | c :: t => (explodeLines t).modifyHead (c :: ·)

/-- The lines of the field for headers. -/
def headerLines (form : PostedForm) : List Text :=
  explodeLines (Text.trim (posted form "headers"))

variable (wampPath : Text)

def tmpPath : Text := wampPath ++ "\\tmp".toList

def toolsPath : Text := wampPath ++ "\\manager\\bin\\tools".toList

/-- The program that is benchmarked with. -/
def abs : Text := toolsPath wampPath ++ "\\ab\\abs.exe".toList

def dataPath : Text := tmpPath wampPath ++ "\\data.txt".toList

/-- The file of a benchmark. -/
def txtPath (insertId : ℕ) : Text :=
  tmpPath wampPath ++ '\\' :: Nat.toDigits 10 insertId ++ ".txt".toList

/-- The file that is there as long as a benchmark runs. -/
def pidPath (insertId : ℕ) : Text :=
  tmpPath wampPath ++ '\\' :: Nat.toDigits 10 insertId ++ ".pid".toList

/-- The parts of the command that depend on the method. -/
structure Parts where
  m : Text
  pp : Text
  T : Text

/-- The methods with data, and the option for the data. -/
def dataOption (method : Text) : Option Text :=
  if method = "POST".toList then some "-p ".toList
  else if method = "PUT".toList then some "-u ".toList
  else none

def parts (form : PostedForm) : Parts :=
  let method := posted form "method"
  match dataOption method with
  | some flag =>
      ⟨[], flag ++ dataPath wampPath,
        "-T \\\"".toList ++ posted form "data_type" ++ "\\\"".toList⟩
  | none =>
      if method ∈ ["HEAD".toList, "GET".toList, "DELETE".toList, "OPTIONS".toList,
          "TRACE".toList] then ⟨"-m ".toList ++ method, [], []⟩
      else ⟨[], [], []⟩

/-- The options for the headers; `array_filter` leaves out what is not true. -/
def headerOptions (form : PostedForm) : Text :=
  ((headerLines form).filter (truthy ·)).flatMap fun header =>
    "-H \\\"".toList ++ Text.trim header ++ "\\\" ".toList

/-- The address that is stored. -/
def address (form : PostedForm) (site? : Option Site) : Text :=
  (site?.map (·.type.toText)).getD [] ++ "://".toList ++ posted form "domain" ++
    ":".toList ++ (site?.map (·.port.toText)).getD [] ++ "/".toList ++
    posted form "script"

/-- The command that is put in quotes. -/
def command (form : PostedForm) (address : Text) (insertId : ℕ) : Text :=
  let p := parts wampPath form
  abs wampPath ++ " -q -v ".toList ++ posted form "verbosity" ++ " ".toList ++ p.m ++
    " ".toList ++ headerOptions form ++ " ".toList ++ p.pp ++ " ".toList ++ p.T ++
    " -c ".toList ++ posted form "concurrency" ++ " -n ".toList ++
    posted form "requests" ++ " ".toList ++ address ++ " > ".toList ++
    txtPath wampPath insertId ++ " 2>&1 & del ".toList ++ pidPath wampPath insertId

/-- The line that `Util::background` executes. -/
def background (cmd : Text) : Text := wampPath ++ "\\Wamp.NET.exe --bg ".toList ++ cmd

/-- The line that is executed. -/
def line (form : PostedForm) (address : Text) (insertId : ℕ) : Text :=
  background wampPath ("cmd.exe /C \"".toList ++ command wampPath form address insertId ++
    "\" > ".toList ++ pidPath wampPath insertId)

/-- What an accepted form is stored and executed as. -/
def queue (form : PostedForm) (site? : Option Site) (time : ℤ) (insertId : ℕ) : Queued where
  benchmark :=
    { created := time
      c := posted form "concurrency"
      n := posted form "requests"
      address := address form site?
      httpd := (site?.map Site.httpd).getD .null
      php := (site?.map Site.php).getD .null }
  line := line wampPath form (address form site?) insertId

/-- `BenchmarkController::create`, with the time and the key of the new row. -/
def create (form : PostedForm) (site? : Option Site) (time : ℤ) (insertId : ℕ) : Outcome where
  file := (dataOption (posted form "method")).map fun _ => (dataPath wampPath, posted form "data")
  result :=
    if errors form = [] then .ok (queue wampPath form site? time insertId)
    else .error (errors form)

/-! ## What the line runs -/

/-- A program splits its arguments at these. -/
def separates (c : Char) : Bool := c == ' ' || c == '\t'

/-- What `Wamp.NET.exe --bg` hands to the command interpreter: its last argument, where the
line runs nothing else. -/
def handedOver (line : Text) : Option Text :=
  match Cmd.cut line with
  | [.word program, .redirect '>' none, .word _] =>
      match Argv.split program with
      | [exe, bg, shell, flag, command] =>
          if [exe, bg, shell, flag] = [wampPath ++ "\\Wamp.NET.exe".toList, "--bg".toList,
              "cmd.exe".toList, "/C".toList] then some command
          else none
      | _ => none
  | _ => none

/-- The arguments of the options `-H`. -/
def headerArguments : List Text → List Text
  | option :: value :: rest =>
      if option = "-H".toList then value :: headerArguments rest
      else headerArguments (value :: rest)
  | _ => []

/-- The file that the output of a command goes to. -/
def output (c : Cmd.Command) : Option Text :=
  ((c.redirects.filter fun r => r.1 = '>' ∧ (r.2.1 = none ∨ r.2.1 = some '1')).map
    (·.2.2)).getLast?

/-- The command runs `abs.exe` once, with an address as its last argument and one `-H` for
each line of headers that is not empty, and its output goes to the file of the benchmark. -/
def runsOnce (form : PostedForm) (insertId : ℕ) (address command : Text) : Bool :=
  match (Cmd.commands (Cmd.read separates command)).filter
      (·.words.head? == some (abs wampPath)) with
  | [c] =>
      c.words.getLast? == some address &&
        headerArguments c.words.dropLast ==
          ((headerLines form).filter (· ≠ [])).map Text.trim &&
        output c == some (txtPath wampPath insertId)
  | _ => false

/-- What is queued runs the address that is stored. -/
def RunsStored (form : PostedForm) (insertId : ℕ) (queued : Queued) : Prop :=
  ∃ command, handedOver wampPath queued.line = some command ∧
    runsOnce wampPath form insertId queued.benchmark.address command = true

instance (form : PostedForm) (insertId : ℕ) (queued : Queued) :
    Decidable (RunsStored wampPath form insertId queued) :=
  decidable_of_iff ((handedOver wampPath queued.line).any
      (runsOnce wampPath form insertId queued.benchmark.address) = true)
    (Option.any_eq_true _ _)

/-- A form that is passed on as it is, but for the address. -/
structure Verbatim (form : PostedForm) : Prop where
  path : ∀ c ∈ wampPath, Cmd.isPlain separates c = true
  verbosity : ∀ c ∈ posted form "verbosity", Cmd.isSpecial c = false
  no_option : Cmd.Token.word "-H".toList ∉ Cmd.read separates (posted form "verbosity")
  requests : '\n' ∉ posted form "requests"
  concurrency : '\n' ∉ posted form "concurrency"
  headers : ∀ line ∈ headerLines form, line ≠ ['0'] ∧ (Piece.quoted (Text.trim line)).Safe
  type : dataOption (posted form "method") ≠ none →
    (Piece.quoted (posted form "data_type")).Safe ∧ posted form "data_type" ≠ "-H".toList

/-! ## Accepted forms -/

theorem result_of_errors {form : PostedForm} (h : errors form = []) (site? : Option Site)
    (time : ℤ) (insertId : ℕ) : (create wampPath form site? time insertId).result =
      .ok (queue wampPath form site? time insertId) :=
  if_pos h

/-- A number that has to be there is one. -/
theorem isNumeric_of_requiredNumber {form : PostedForm} {field : String}
    (h : Instance.requiredNumber form field = []) :
    Loose.isNumeric (posted form field) = true := by
  rw [Instance.requiredNumber, List.append_eq_nil_iff] at h
  refine (Ports.nil_or_isNumeric_of_number h.2).resolve_left fun hempty => ?_
  have hrequired := h.1
  rw [Validator.required, Validator.record, if_pos (by rw [hempty]; decide)] at hrequired
  cases hrequired

theorem isNumeric_of_errors {form : PostedForm} (h : errors form = []) :
    Loose.isNumeric (posted form "requests") = true ∧
      Loose.isNumeric (posted form "concurrency") = true := by
  simp only [errors, List.append_eq_nil_iff] at h
  exact ⟨isNumeric_of_requiredNumber h.1.1.2, isNumeric_of_requiredNumber h.1.2⟩

/-- Without a line feed nothing in a number is special. -/
theorem not_isSpecial_of_isNumeric {t : Text} (h : Loose.isNumeric t = true)
    (hfeed : '\n' ∉ t) : ∀ c ∈ t, Cmd.isSpecial c = false := by
  intro c hc
  have hnumber := (Loose.chars_of_isNumeric h).1 c hc
  by_contra hspecial
  rw [Bool.not_eq_false, Cmd.isSpecial, decide_eq_true_eq] at hspecial
  simp only [String.reduceToList, List.mem_cons, List.not_mem_nil, or_false] at hspecial
  rcases hspecial with rfl | rfl | rfl | rfl | rfl | rfl | rfl | rfl
  any_goals
    revert hnumber
    decide
  exact hfeed hc

theorem not_mem_of_isNumeric {t : Text} (h : Loose.isNumeric t = true) {c : Char}
    (hc : Loose.isNumberChar c = false) : c ∉ t := by
  intro hmem
  rw [(Loose.chars_of_isNumeric h).1 c hmem] at hc
  cases hc

/-! ## The command in pieces -/

/-- The headers that become options. -/
def sent (form : PostedForm) : List Text :=
  ((headerLines form).filter (truthy ·)).map Text.trim

/-- The piece for the type of the data. -/
def typePieces (form : PostedForm) : List Piece :=
  match dataOption (posted form "method") with
  | some _ => [.text "-T ".toList, .quoted (posted form "data_type")]
  | none => []

def headerPieces (header : Text) : List Piece :=
  [.text "-H ".toList, .quoted header, .text [' ']]

/-- What stands in front of the address. -/
def front (form : PostedForm) : List Piece :=
  [.text (abs wampPath ++ " -q -v ".toList), .text (posted form "verbosity" ++ [' ']),
      .text ((parts wampPath form).m ++ [' '])] ++
    (sent form).flatMap headerPieces ++
    [.text (' ' :: (parts wampPath form).pp ++ [' '])] ++ typePieces form ++
    [.text [' '], .text "-c ".toList, .text (posted form "concurrency" ++ [' ']),
      .text "-n ".toList, .text (posted form "requests" ++ [' '])]

/-- What stands behind it. -/
def back (insertId : ℕ) : Text :=
  " > ".toList ++ txtPath wampPath insertId ++ " 2>&1 & del ".toList ++
    pidPath wampPath insertId

variable {wampPath} {form : PostedForm}

theorem parts_of_some {flag : Text} (h : dataOption (posted form "method") = some flag) :
    parts wampPath form = ⟨[], flag ++ dataPath wampPath,
      "-T \\\"".toList ++ posted form "data_type" ++ "\\\"".toList⟩ := by
  rw [parts, h]

theorem typePieces_of_some {flag : Text} (h : dataOption (posted form "method") = some flag) :
    typePieces form = [.text "-T ".toList, .quoted (posted form "data_type")] := by
  rw [typePieces, h]

variable (wampPath) in
/-- Without data there is at most the option for the method. -/
theorem parts_of_none (h : dataOption (posted form "method") = none) :
    ∃ m, parts wampPath form = ⟨m, [], []⟩ ∧ (m = [] ∨ m ∈ ["-m HEAD".toList, "-m GET".toList,
      "-m DELETE".toList, "-m OPTIONS".toList, "-m TRACE".toList]) := by
  rw [parts, h]
  dsimp only
  split
  · next hmem =>
      refine ⟨_, rfl, .inr ?_⟩
      exact List.mem_map_of_mem (f := ("-m ".toList ++ ·)) hmem
  · exact ⟨[], rfl, .inl rfl⟩

theorem typePieces_of_none (h : dataOption (posted form "method") = none) :
    typePieces form = [] := by
  rw [typePieces, h]

theorem T_eq : (parts wampPath form).T = (typePieces form).flatMap Piece.source := by
  cases h : dataOption (posted form "method") with
  | some flag =>
      rw [parts_of_some h, typePieces_of_some h]
      simp only [List.flatMap_cons, List.flatMap_nil, Piece.source, String.reduceToList,
        List.cons_append, List.nil_append, List.append_nil]
  | none =>
      obtain ⟨m, hparts, -⟩ := parts_of_none wampPath h
      rw [hparts, typePieces_of_none h]
      rfl

theorem headerOptions_eq :
    headerOptions form = ((sent form).flatMap headerPieces).flatMap Piece.source := by
  rw [headerOptions, sent, List.flatMap_assoc, List.flatMap_map]
  refine List.flatMap_congr fun header _ => ?_
  simp only [headerPieces, List.flatMap_cons, List.flatMap_nil, Piece.source,
    String.reduceToList, List.cons_append, List.nil_append, List.append_nil, List.append_assoc]

theorem command_eq (address : Text) (insertId : ℕ) :
    command wampPath form address insertId =
      (front wampPath form).flatMap Piece.source ++ (address ++ back wampPath insertId) := by
  unfold command front back
  -- the literals have to be lists before anything is appended to them
  simp only [headerOptions_eq, T_eq, List.flatMap_append, List.flatMap_cons, List.flatMap_nil,
    Piece.source, String.reduceToList]
  simp only [List.append_assoc, List.cons_append, List.nil_append, List.append_nil]

/-! ## Reading the command -/

theorem isBlank_blank : Cmd.isBlank separates ' ' = true := by decide

theorem plain_append {s t : Text} (hs : ∀ c ∈ s, Cmd.isPlain separates c = true)
    (ht : ∀ c ∈ t, Cmd.isPlain separates c = true) :
    ∀ c ∈ s ++ t, Cmd.isPlain separates c = true :=
  List.forall_mem_append.mpr ⟨hs, ht⟩

theorem isPlain_of_isDigit {c : Char} (hdigit : c.isDigit = true) :
    Cmd.isPlain separates c = true := by
  rw [Cmd.isPlain_iff]
  constructor
  · by_contra hspecial
    rw [Bool.not_eq_false, Cmd.isSpecial, decide_eq_true_eq] at hspecial
    simp only [String.reduceToList, List.mem_cons, List.not_mem_nil, or_false] at hspecial
    rcases hspecial with rfl | rfl | rfl | rfl | rfl | rfl | rfl | rfl <;> cases hdigit
  · by_contra hblank
    simp only [separates, Bool.not_eq_false, Bool.or_eq_true, beq_iff_eq] at hblank
    rcases hblank with rfl | rfl <;> cases hdigit

theorem plain_toDigits (n : ℕ) : ∀ c ∈ Nat.toDigits 10 n, Cmd.isPlain separates c = true :=
  fun _ hc => isPlain_of_isDigit (Nat.isDigit_of_mem_toDigits (by decide) (by decide) hc)

theorem slash_mem_abs : '\\' ∈ abs wampPath := List.mem_append_right _ (by decide)

theorem slash_mem_dataPath : '\\' ∈ dataPath wampPath := List.mem_append_right _ (by decide)

theorem Verbatim.plain_abs (h : Verbatim wampPath form) :
    ∀ c ∈ abs wampPath, Cmd.isPlain separates c = true :=
  plain_append (plain_append h.path (by decide)) (by decide)

theorem Verbatim.plain_dataPath (h : Verbatim wampPath form) :
    ∀ c ∈ dataPath wampPath, Cmd.isPlain separates c = true :=
  plain_append (plain_append h.path (by decide)) (by decide)

theorem Verbatim.plain_txtPath (h : Verbatim wampPath form) (insertId : ℕ) :
    ∀ c ∈ txtPath wampPath insertId, Cmd.isPlain separates c = true :=
  plain_append (plain_append (plain_append h.path (by decide))
    (plain_append (s := ['\\']) (by decide) (plain_toDigits insertId))) (by decide)

theorem Verbatim.plain_pidPath (h : Verbatim wampPath form) (insertId : ℕ) :
    ∀ c ∈ pidPath wampPath insertId, Cmd.isPlain separates c = true :=
  plain_append (plain_append (plain_append h.path (by decide))
    (plain_append (s := ['\\']) (by decide) (plain_toDigits insertId))) (by decide)

/-- A text that is read as words. -/
def ReadsWords (t : Text) (ws : List Text) : Prop := Cmd.Reads separates t (ws.map .word)

theorem ReadsWords.append {s t : Text} {vs ws : List Text} (hs : ReadsWords s vs)
    (ht : ReadsWords t ws) : ReadsWords (s ++ t) (vs ++ ws) := by
  rw [ReadsWords, List.map_append]
  exact Cmd.Reads.append hs ht

theorem readsWords_word {p : Text} (hp : ∀ c ∈ p, Cmd.isPlain separates c = true)
    (hne : p ≠ []) : ReadsWords (p ++ [' ']) [p] :=
  Cmd.reads_word hp hne isBlank_blank

theorem exists_readsWords {t : Text} (h : ∀ c ∈ t, Cmd.isSpecial c = false) :
    ∃ ws : List Text, ReadsWords (t ++ [' ']) ws ∧ Cmd.read separates t = ws.map .word ∧
      (∀ w ∈ ws, ∀ d ∈ w, d ∈ t) ∧
      ((∃ d ∈ t, Cmd.isPlain separates d = true) → ws ≠ []) := by
  have hchars : ∀ c ∈ t, Cmd.isPlain separates c = true ∨ Cmd.isBlank separates c = true := by
    intro c hc
    rw [Cmd.isPlain_iff, Cmd.isBlank, h c hc]
    cases separates c <;> decide
  obtain ⟨ws, hadvance, hrun, hmem, hne⟩ := Cmd.exists_words hchars isBlank_blank none
  refine ⟨ws, hadvance, hrun, fun w hw d hd => ?_, fun hsome => hne (.inr hsome)⟩
  exact (hmem w hw d hd).resolve_left List.not_mem_nil

theorem readsWords_quoted {t : Text} (h : (Piece.quoted t).Safe) :
    ReadsWords ('"' :: t ++ ['"', ' ']) [t] :=
  Cmd.reads_quoted (fun c hc => Cmd.not_mem_of_not_isSpecial (h.plain c hc)) isBlank_blank

theorem readsWords_headers {headers : List Text} (h : ∀ header ∈ headers, (Piece.quoted header).Safe) :
    ReadsWords ((headers.flatMap headerPieces).flatMap Piece.meant)
      (headers.flatMap fun header => ["-H".toList, header]) := by
  induction headers with
  | nil => rfl
  | cons header headers ih =>
      obtain ⟨hheader, hheaders⟩ := List.forall_mem_cons.mp h
      have hoption : ReadsWords "-H ".toList ["-H".toList] := rfl
      have hone := (hoption.append (readsWords_quoted hheader)).append (ih hheaders)
      simp only [List.flatMap_cons, List.flatMap_append, headerPieces, Piece.meant,
        List.flatMap_nil, String.reduceToList] at hone ⊢
      simpa only [List.append_assoc, List.cons_append, List.nil_append] using hone

/-! ## The options for headers -/

theorem headerArguments_append {ws : List Text} (h : "-H".toList ∉ ws) (rest : List Text) :
    headerArguments (ws ++ rest) = headerArguments rest := by
  induction ws with
  | nil => rfl
  | cons w ws ih =>
      obtain ⟨hw, hws⟩ := not_or.mp (List.mem_cons.not.mp h)
      have hrest := ih hws
      rw [List.cons_append]
      cases hcons : ws ++ rest with
      | nil =>
          obtain ⟨rfl, rfl⟩ := List.append_eq_nil_iff.mp hcons
          rfl
      | cons v vs => rw [headerArguments, if_neg (Ne.symm hw), ← hcons, hrest]

theorem headerArguments_headers (headers rest : List Text) :
    headerArguments ((headers.flatMap fun header => ["-H".toList, header]) ++ rest) =
      headers ++ headerArguments rest := by
  induction headers with
  | nil => rfl
  | cons header headers ih =>
      rw [List.flatMap_cons, List.append_assoc]
      show (if "-H".toList = "-H".toList then _ else _) = _
      rw [if_pos rfl]
      exact congrArg (header :: ·) ih

/-! ## What stands in front of the address -/

/-- The option for the method. -/
theorem exists_readsWords_m (wampPath : Text) (form : PostedForm) :
    ∃ ws, ReadsWords ((parts wampPath form).m ++ [' ']) ws ∧
    "-H".toList ∉ ws := by
  cases hoption : dataOption (posted form "method") with
  | some flag =>
      rw [parts_of_some hoption]
      exact ⟨[], rfl, List.not_mem_nil⟩
  | none =>
      obtain ⟨m, hparts, hm⟩ := parts_of_none wampPath hoption
      rw [hparts]
      rcases hm with rfl | hm
      · exact ⟨[], rfl, List.not_mem_nil⟩
      · simp only [List.mem_cons, List.not_mem_nil, or_false] at hm
        rcases hm with rfl | rfl | rfl | rfl | rfl
        · exact ⟨["-m".toList, "HEAD".toList], rfl, by decide⟩
        · exact ⟨["-m".toList, "GET".toList], rfl, by decide⟩
        · exact ⟨["-m".toList, "DELETE".toList], rfl, by decide⟩
        · exact ⟨["-m".toList, "OPTIONS".toList], rfl, by decide⟩
        · exact ⟨["-m".toList, "TRACE".toList], rfl, by decide⟩

theorem eq_of_dataOption {method flag : Text} (h : dataOption method = some flag) :
    flag = "-p ".toList ∨ flag = "-u ".toList := by
  unfold dataOption at h
  split_ifs at h
  · exact .inl (Option.some.inj h).symm
  · exact .inr (Option.some.inj h).symm

/-- The option for the data. -/
theorem exists_readsWords_pp (h : Verbatim wampPath form) :
    ∃ ws, ReadsWords (' ' :: (parts wampPath form).pp ++ [' ']) ws ∧ "-H".toList ∉ ws := by
  cases hoption : dataOption (posted form "method") with
  | some flag =>
      have hpath : ReadsWords (dataPath wampPath ++ [' ']) [dataPath wampPath] :=
        readsWords_word h.plain_dataPath
          (List.append_ne_nil_of_right_ne_nil _ (by decide))
      have hne : "-H".toList ≠ dataPath wampPath :=
        (ne_of_mem_of_not_mem' slash_mem_dataPath (by decide)).symm
      obtain ⟨option, hflag, hoption'⟩ : ∃ option, ReadsWords (' ' :: flag) [option] ∧
          "-H".toList ≠ option := by
        rcases eq_of_dataOption hoption with rfl | rfl
        · exact ⟨"-p".toList, rfl, by decide⟩
        · exact ⟨"-u".toList, rfl, by decide⟩
      rw [parts_of_some hoption]
      refine ⟨[option, dataPath wampPath], ?_, ?_⟩
      swap
      · rw [List.mem_pair]
        exact not_or.mpr ⟨hoption', hne⟩
      rw [List.cons_append, List.append_assoc]
      exact hflag.append hpath
  | none =>
      obtain ⟨m, hparts, -⟩ := parts_of_none wampPath hoption
      rw [hparts]
      exact ⟨[], rfl, List.not_mem_nil⟩

/-- The option for the type of the data. -/
theorem exists_readsWords_type (h : Verbatim wampPath form) :
    ∃ ws, ReadsWords ((typePieces form).flatMap Piece.meant ++ [' ']) ws ∧
      "-H".toList ∉ ws := by
  cases hoption : dataOption (posted form "method") with
  | some flag =>
      obtain ⟨hsafe, hne⟩ := h.type (by rw [hoption]; exact Option.some_ne_none flag)
      have hflag : ReadsWords "-T ".toList ["-T".toList] := rfl
      have hall := hflag.append (readsWords_quoted hsafe)
      refine ⟨["-T".toList, posted form "data_type"], ?_, ?_⟩
      swap
      · rw [List.mem_pair]
        exact not_or.mpr ⟨by decide, Ne.symm hne⟩
      rw [typePieces_of_some hoption]
      simp only [List.flatMap_cons, List.flatMap_nil, Piece.meant, String.reduceToList] at hall ⊢
      simpa only [List.append_assoc, List.cons_append, List.nil_append] using hall
  | none =>
      rw [typePieces_of_none hoption]
      exact ⟨[], rfl, List.not_mem_nil⟩

theorem Verbatim.safe_of_mem_sent (h : Verbatim wampPath form) :
    ∀ header ∈ sent form, (Piece.quoted header).Safe := by
  intro header hheader
  obtain ⟨line, hline, rfl⟩ := List.mem_map.mp hheader
  exact (h.headers line (List.mem_of_mem_filter hline)).2

/-- All of it is read as words. The first is the program, the last the number of requests,
and the headers are among them. -/
theorem exists_readsWords_front (h : Verbatim wampPath form) (herrors : errors form = []) :
    ∃ ws n, ReadsWords ((front wampPath form).flatMap Piece.meant) (abs wampPath :: ws ++ [n]) ∧
      headerArguments (abs wampPath :: ws ++ [n]) = sent form ∧
      ∀ c ∈ n, c ∈ posted form "requests" := by
  obtain ⟨hrequests, hconcurrency⟩ := isNumeric_of_errors herrors
  have habs : ReadsWords (abs wampPath ++ " -q -v ".toList)
      [abs wampPath, "-q".toList, "-v".toList] := by
    have hswitches : ReadsWords "-q -v ".toList ["-q".toList, "-v".toList] := rfl
    have hall := (readsWords_word h.plain_abs
      (List.append_ne_nil_of_right_ne_nil _ (by decide))).append hswitches
    simp only [String.reduceToList] at hall ⊢
    simpa only [List.append_assoc, List.cons_append, List.nil_append] using hall
  obtain ⟨vs, hverbosity, hread, -, -⟩ := exists_readsWords h.verbosity
  obtain ⟨ms, hm, hmoption⟩ := exists_readsWords_m wampPath form
  have hheaders := readsWords_headers h.safe_of_mem_sent
  obtain ⟨ps, hpp, hpoption⟩ := exists_readsWords_pp h
  obtain ⟨ts, htype, htoption⟩ := exists_readsWords_type h
  have hc : ReadsWords "-c ".toList ["-c".toList] := rfl
  obtain ⟨cs, hcs, -, hcsmem, -⟩ :=
    exists_readsWords (not_isSpecial_of_isNumeric hconcurrency h.concurrency)
  have hn : ReadsWords "-n ".toList ["-n".toList] := rfl
  obtain ⟨ns, hns, -, hnsmem, hnsne⟩ :=
    exists_readsWords (not_isSpecial_of_isNumeric hrequests h.requests)
  have hall := habs.append (hverbosity.append (hm.append (hheaders.append (hpp.append
    (htype.append (hc.append (hcs.append (hn.append hns))))))))
  obtain ⟨digit, hdigit, hisdigit⟩ := (Loose.chars_of_isNumeric hrequests).2
  have hns_ne : ns ≠ [] := hnsne ⟨digit, hdigit, isPlain_of_isDigit hisdigit⟩
  obtain ⟨init, n, rfl⟩ : ∃ init n, ns = init ++ [n] :=
    ⟨_, _, (List.dropLast_append_getLast hns_ne).symm⟩
  -- none of the other words is the option for a header
  have hvoption : "-H".toList ∉ vs := fun hmem =>
    h.no_option (hread ▸ List.mem_map_of_mem hmem)
  have hcoption : "-H".toList ∉ cs := fun hmem =>
    not_mem_of_isNumeric hconcurrency (by decide) (hcsmem _ hmem 'H' (by decide))
  have hnoption : "-H".toList ∉ init ++ [n] := fun hmem =>
    not_mem_of_isNumeric hrequests (by decide) (hnsmem _ hmem 'H' (by decide))
  have habsoption : "-H".toList ∉ [abs wampPath, "-q".toList, "-v".toList] := by
    rw [List.mem_cons, not_or]
    exact ⟨(ne_of_mem_of_not_mem' slash_mem_abs (by decide)).symm, by decide⟩
  have hwords : ∃ ws, abs wampPath :: ws ++ [n] = [abs wampPath, "-q".toList, "-v".toList] ++
      (vs ++ (ms ++ (((sent form).flatMap fun header => ["-H".toList, header]) ++
        (ps ++ (ts ++ (["-c".toList] ++ (cs ++ (["-n".toList] ++ (init ++ [n])))))))) ) :=
    ⟨["-q".toList, "-v".toList] ++
      (vs ++ (ms ++ (((sent form).flatMap fun header => ["-H".toList, header]) ++
        (ps ++ (ts ++ (["-c".toList] ++ (cs ++ (["-n".toList] ++ init)))))))),
      by simp only [List.append_assoc, List.cons_append, List.nil_append]⟩
  obtain ⟨ws, hws⟩ := hwords
  refine ⟨ws, n, ?_, ?_, ?_⟩
  · rw [hws]
    simp only [front, List.flatMap_append, List.flatMap_cons, List.flatMap_nil, Piece.meant,
      List.append_nil]
    simpa only [List.append_assoc] using hall
  · rw [hws, headerArguments_append habsoption, headerArguments_append hvoption,
      headerArguments_append hmoption, headerArguments_headers, headerArguments_append hpoption,
      headerArguments_append htoption, headerArguments_append (by decide),
      headerArguments_append hcoption, headerArguments_append (by decide), ←
      List.append_nil (init ++ [n]), headerArguments_append hnoption]
    exact List.append_nil _
  · exact hnsmem n (List.mem_append_right init (List.mem_singleton_self n))

/-! ## What stands behind the address -/

variable (wampPath) in
/-- The redirections of the command and the command behind it. -/
def backTokens (insertId : ℕ) : List Cmd.Token :=
  [.redirect '>' none, .word (txtPath wampPath insertId), .redirect '>' (some '2'),
    .word "&1".toList, .next, .word "del".toList, .word (pidPath wampPath insertId)]

theorem txtPath_ne_nil (insertId : ℕ) : txtPath wampPath insertId ≠ [] :=
  List.append_ne_nil_of_right_ne_nil _ (by decide)

theorem pidPath_ne_nil (insertId : ℕ) : pidPath wampPath insertId ≠ [] :=
  List.append_ne_nil_of_right_ne_nil _ (by decide)

/-- Behind the sign of the redirection. -/
theorem run_behind (h : Verbatim wampPath form) (insertId : ℕ) :
    (Cmd.reader separates).run ⟨.behind, none⟩ (back wampPath insertId).tail.tail =
      (backTokens wampPath insertId).tail := by
  have hback : (back wampPath insertId).tail.tail = ' ' :: ((txtPath wampPath insertId ++ [' ']) ++
      "2>&1 & del ".toList ++ pidPath wampPath insertId) := by
    simp only [back, String.reduceToList]
    simp only [List.append_assoc, List.cons_append, List.nil_append, List.tail_cons]
  have hsigns : Cmd.Reads separates "2>&1 & del ".toList
      [.redirect '>' (some '2'), .word "&1".toList, .next, .word "del".toList] := rfl
  have htxt := Cmd.reads_word (h.plain_txtPath insertId) (txtPath_ne_nil insertId) isBlank_blank
  have hpid := Cmd.run_plain (h.plain_pidPath insertId) none []
  rw [List.append_nil, if_neg (pidPath_ne_nil insertId)] at hpid
  have hstep : (Cmd.reader separates).step ⟨.behind, none⟩ ' ' = ([], .fresh) := rfl
  rw [hback, Transducer.run, hstep, (htxt.append hsigns).run, Cmd.State.fresh, hpid]
  rfl

theorem back_eq (insertId : ℕ) :
    back wampPath insertId = ' ' :: '>' :: (back wampPath insertId).tail.tail := by
  simp only [back, String.reduceToList]
  simp only [List.append_assoc, List.cons_append, List.tail_cons]

/-- An argument that is not finished ends in front of the redirection. -/
theorem run_back (h : Verbatim wampPath form) (insertId : ℕ) (held : Option Text) :
    (Cmd.reader separates).run ⟨.plain, held⟩ (back wampPath insertId) =
      Cmd.State.flush ⟨.plain, held⟩ ++ backTokens wampPath insertId := by
  have hsign : (Cmd.reader separates).step .fresh '>' = ([.redirect '>' none], ⟨.behind, none⟩) :=
    rfl
  rw [back_eq, Transducer.run, Cmd.step_separating isBlank_blank, Transducer.run, hsign,
    run_behind h]
  rfl

/-! ## What is handed over -/

theorem not_isSpecial_of_plain {t : Text} (h : ∀ c ∈ t, Cmd.isPlain separates c = true) :
    ∀ c ∈ t, Cmd.isSpecial c = false :=
  fun c hc => (Cmd.isPlain_iff.mp (h c hc)).1

/-- A piece that ends in a blank. -/
theorem safe_text {s t : Text} (hs : ∀ c ∈ s, Cmd.isSpecial c = false)
    (ht : ∀ c ∈ t, Cmd.isSpecial c = false) (hlast : t.getLast? = some ' ') :
    (Piece.text (s ++ t)).Safe := by
  refine ⟨List.forall_mem_append.mpr ⟨hs, ht⟩, ?_⟩
  · rw [Piece.content, List.getLast?_append, hlast]
    show some ' ' ≠ some '\\'
    decide

theorem safe_headerPieces {header : Text} (h : (Piece.quoted header).Safe) :
    ∀ p ∈ headerPieces header, p.Safe := by
  intro p hp
  simp only [headerPieces, List.mem_cons, List.not_mem_nil, or_false] at hp
  rcases hp with rfl | rfl | rfl
  · exact safe_text (s := []) (by decide) (by decide) (by decide)
  · exact h
  · exact safe_text (s := []) (by decide) (by decide) (by decide)

theorem safe_typePieces (h : Verbatim wampPath form) : ∀ p ∈ typePieces form, p.Safe := by
  intro p hp
  cases hoption : dataOption (posted form "method") with
  | none =>
      rw [typePieces_of_none hoption] at hp
      cases hp
  | some flag =>
      obtain ⟨hsafe, -⟩ := h.type (by rw [hoption]; exact Option.some_ne_none flag)
      rw [typePieces_of_some hoption, List.mem_pair] at hp
      rcases hp with rfl | rfl
      · exact safe_text (s := []) (by decide) (by decide) (by decide)
      · exact hsafe

theorem not_isSpecial_m : ∀ c ∈ (parts wampPath form).m, Cmd.isSpecial c = false := by
  cases hoption : dataOption (posted form "method") with
  | some flag =>
      rw [parts_of_some hoption]
      exact fun c hc => absurd hc List.not_mem_nil
  | none =>
      obtain ⟨m, hparts, hm⟩ := parts_of_none wampPath hoption
      rw [hparts]
      rcases hm with rfl | hm
      · exact fun c hc => absurd hc List.not_mem_nil
      · have hall : ∀ m ∈ ["-m HEAD".toList, "-m GET".toList, "-m DELETE".toList,
            "-m OPTIONS".toList, "-m TRACE".toList], ∀ c ∈ m, Cmd.isSpecial c = false := by
          decide
        exact hall m hm

theorem not_isSpecial_pp (h : Verbatim wampPath form) :
    ∀ c ∈ (parts wampPath form).pp, Cmd.isSpecial c = false := by
  cases hoption : dataOption (posted form "method") with
  | some flag =>
      rw [parts_of_some hoption]
      refine List.forall_mem_append.mpr ⟨?_, not_isSpecial_of_plain h.plain_dataPath⟩
      rcases eq_of_dataOption hoption with rfl | rfl <;> decide
  | none =>
      obtain ⟨m, hparts, -⟩ := parts_of_none wampPath hoption
      rw [hparts]
      exact fun c hc => absurd hc List.not_mem_nil

theorem safe_front (h : Verbatim wampPath form) (herrors : errors form = []) :
    ∀ p ∈ front wampPath form, p.Safe := by
  obtain ⟨hrequests, hconcurrency⟩ := isNumeric_of_errors herrors
  simp only [front, List.forall_mem_append]
  refine ⟨⟨⟨⟨?_, ?_⟩, ?_⟩, safe_typePieces h⟩, ?_⟩
  · simp only [List.forall_mem_cons, List.not_mem_nil, false_implies, implies_true, and_true]
    exact ⟨safe_text (not_isSpecial_of_plain h.plain_abs) (by decide) (by decide),
      safe_text h.verbosity (by decide) (by decide),
      safe_text not_isSpecial_m (by decide) (by decide)⟩
  · intro p hp
    obtain ⟨header, hheader, hp⟩ := List.mem_flatMap.mp hp
    exact safe_headerPieces (h.safe_of_mem_sent header hheader) p hp
  · rw [List.forall_mem_singleton]
    exact safe_text (List.forall_mem_cons.mpr ⟨by decide, not_isSpecial_pp h⟩) (by decide)
      (by decide)
  · simp only [List.forall_mem_cons, List.not_mem_nil, false_implies, implies_true, and_true]
    exact ⟨safe_text (s := []) (by decide) (by decide) (by decide),
      safe_text (s := []) (by decide) (by decide) (by decide),
      safe_text (not_isSpecial_of_isNumeric hconcurrency h.concurrency) (by decide) (by decide),
      safe_text (s := []) (by decide) (by decide) (by decide),
      safe_text (not_isSpecial_of_isNumeric hrequests h.requests) (by decide) (by decide)⟩

variable (wampPath form) in
/-- What `Wamp.NET.exe` is given. -/
def program (address : Text) (insertId : ℕ) : Text :=
  wampPath ++ "\\Wamp.NET.exe --bg cmd.exe /C ".toList ++
    '"' :: ((front wampPath form).flatMap Piece.source ++ (address ++ back wampPath insertId)) ++
    ['"', ' ']

variable (wampPath form) in
/-- What it hands over. -/
def handed (address : Text) (insertId : ℕ) : Text :=
  (front wampPath form).flatMap Piece.meant ++ (address ++ back wampPath insertId)

theorem line_eq (address : Text) (insertId : ℕ) :
    line wampPath form address insertId =
      program wampPath form address insertId ++ '>' :: ' ' :: pidPath wampPath insertId := by
  unfold line background program
  simp only [command_eq, String.reduceToList]
  simp only [List.append_assoc, List.cons_append, List.nil_append]

theorem not_mem_back (h : Verbatim wampPath form) (insertId : ℕ) :
    ∀ c ∈ back wampPath insertId, c ∉ "\"\n\x00".toList := by
  have hplain : ∀ {t : Text}, (∀ c ∈ t, Cmd.isPlain separates c = true) →
      ∀ c ∈ t, c ∉ "\"\n\x00".toList :=
    fun ht c hc => Cmd.not_mem_of_not_isSpecial (not_isSpecial_of_plain ht c hc)
  simp only [back, List.forall_mem_append]
  exact ⟨⟨⟨by decide, hplain (h.plain_txtPath insertId)⟩, by decide⟩,
    hplain (h.plain_pidPath insertId)⟩

/-- An address without quotes stays in the quotes. -/
theorem cut_line (h : Verbatim wampPath form) (herrors : errors form = []) {address : Text}
    (haddress : ∀ c ∈ address, c ∉ "\"\n\x00".toList) (insertId : ℕ) :
    Cmd.cut (line wampPath form address insertId) =
      [.word (program wampPath form address insertId), .redirect '>' none,
        .word (' ' :: pidPath wampPath insertId)] := by
  have hstart := Cmd.advance_cutter_plain (t := wampPath ++ "\\Wamp.NET.exe --bg cmd.exe /C ".toList)
    (List.forall_mem_append.mpr ⟨not_isSpecial_of_plain h.path, by decide⟩) none
  rw [if_neg (List.append_ne_nil_of_right_ne_nil _ (by decide))] at hstart
  have hopen : ∀ w, Cmd.cutter.step ⟨.plain, some w⟩ '"' = ([], ⟨.quoted, some (w ++ ['"'])⟩) :=
    fun _ => rfl
  have hclose : ∀ w, Cmd.cutter.advance ⟨.quoted, some w⟩ ['"', ' '] =
      ([], ⟨.plain, some (w ++ ['"', ' '])⟩) := by
    intro w
    simp [Transducer.advance, Cmd.cutter, Cmd.State.add]
  have hprogram : Cmd.cutter.advance .fresh (program wampPath form address insertId) =
      ([], ⟨.plain, some (program wampPath form address insertId)⟩) := by
    rw [program, Transducer.advance_append, Transducer.advance_append, Cmd.State.fresh, hstart,
      Transducer.advance, hopen, Transducer.advance_append,
      Piece.advance_cutter (safe_front h herrors),
      Cmd.advance_cutter_quoted (List.forall_mem_append.mpr ⟨haddress, not_mem_back h insertId⟩),
      hclose]
    simp
  have hsign : ∀ w, Cmd.cutter.step ⟨.plain, some w⟩ '>' =
      ([.word w, .redirect '>' none], ⟨.behind, none⟩) := fun _ => rfl
  have hblank : Cmd.cutter.step ⟨.behind, none⟩ ' ' = ([], ⟨.plain, some [' ']⟩) := rfl
  have hpid := Cmd.advance_cutter_plain
    (not_isSpecial_of_plain (h.plain_pidPath insertId)) (some [' '])
  rw [if_neg (pidPath_ne_nil insertId)] at hpid
  have hend := Transducer.run_append_of_advance _ hpid []
  rw [List.append_nil] at hend
  rw [line_eq, Cmd.cut, Transducer.run_append_of_advance _ hprogram, Transducer.run, hsign,
    Transducer.run, hblank, hend]
  rfl

theorem isLiteral_of_plain {c : Char} (h : Cmd.isPlain separates c = true) (quoted : Bool) :
    Argv.isLiteral quoted c = true := by
  obtain ⟨hspecial, hblank⟩ := Cmd.isPlain_iff.mp h
  have hquote : c ≠ '"' := by
    rintro rfl
    cases hspecial
  simp only [separates, Bool.or_eq_false_iff, beq_eq_false_iff_ne] at hblank
  simp [Argv.isLiteral, hquote, hblank]

/-- The program finds the command as it is meant. -/
theorem split_program (h : Verbatim wampPath form) (herrors : errors form = []) {address : Text}
    (haddress : ∀ c ∈ address, c ∉ "\"\n\x00".toList) (insertId : ℕ) :
    Argv.split (program wampPath form address insertId) =
      [wampPath ++ "\\Wamp.NET.exe".toList, "--bg".toList, "cmd.exe".toList, "/C".toList,
        handed wampPath form address insertId] := by
  have hexe : Argv.reader.advance .fresh (wampPath ++ "\\Wamp.NET.exe".toList) =
      ([], ⟨false, 0, some (wampPath ++ "\\Wamp.NET.exe".toList)⟩) := by
    refine Argv.advance_literal (fun c hc => isLiteral_of_plain
      (plain_append h.path (by decide) c hc) false)
      (List.append_ne_nil_of_right_ne_nil _ (by decide)) ?_ 0 none
    rw [List.getLast?_append]
    show some 'e' ≠ some '\\'
    decide
  have hblank : ∀ w, Argv.reader.step ⟨false, 0, some w⟩ ' ' = ([w], .fresh) := by
    intro w
    simp [Argv.reader, Argv.State.flush, Argv.State.text]
  have hmiddle : Argv.reader.advance .fresh "--bg cmd.exe /C ".toList =
      (["--bg".toList, "cmd.exe".toList, "/C".toList], .fresh) := rfl
  have hopen : Argv.reader.step .fresh '"' = ([], ⟨true, 0, some []⟩) := rfl
  have hbody : ∀ w, Argv.reader.advance ⟨true, 0, some w⟩ (address ++ back wampPath insertId) =
      ([], ⟨true, 0, some (w ++ (address ++ back wampPath insertId))⟩) := by
    intro w
    have hall := List.forall_mem_append.mpr ⟨haddress, not_mem_back h insertId⟩
    have hlast : (back wampPath insertId).getLast? = some 'd' := by
      rw [back, pidPath, List.getLast?_append, List.getLast?_append]
      rfl
    have hliteral : ∀ c ∈ address ++ back wampPath insertId, Argv.isLiteral true c = true := by
      intro c hc
      have hquote : c ≠ '"' := fun heq => hall c hc (heq ▸ by decide)
      simp [Argv.isLiteral, hquote]
    have hne : address ++ back wampPath insertId ≠ [] := by
      intro hnil
      rw [(List.append_eq_nil_iff.mp hnil).2] at hlast
      cases hlast
    have hslash : (address ++ back wampPath insertId).getLast? ≠ some '\\' := by
      rw [List.getLast?_append, hlast]
      show some 'd' ≠ some '\\'
      decide
    rw [Argv.advance_literal hliteral hne hslash]
    simp
  have hclose : ∀ w, Argv.reader.run ⟨true, 0, some w⟩ ['"', ' '] = [w] := by
    intro w
    simp [Transducer.run, Argv.reader, Argv.State.flush, Argv.State.text, Argv.State.fresh]
  have hprogram : program wampPath form address insertId =
      (wampPath ++ "\\Wamp.NET.exe".toList) ++ ' ' :: ("--bg cmd.exe /C ".toList ++
        '"' :: ((front wampPath form).flatMap Piece.source ++
          ((address ++ back wampPath insertId) ++ ['"', ' ']))) := by
    unfold program
    simp only [String.reduceToList]
    simp only [List.append_assoc, List.cons_append, List.nil_append]
  rw [hprogram, Argv.split, Transducer.run_append_of_advance _ hexe, Transducer.run, hblank,
    Transducer.run_append_of_advance _ hmiddle, Transducer.run, hopen,
    Transducer.run_append_of_advance _ (Piece.advance_reader (safe_front h herrors) []),
    Transducer.run_append_of_advance _ (hbody _), hclose]
  rfl

/-- Without quotes in the address the command is handed over as it is meant. -/
theorem handedOver_line (h : Verbatim wampPath form) (herrors : errors form = [])
    {address : Text} (haddress : ∀ c ∈ address, c ∉ "\"\n\x00".toList) (insertId : ℕ) :
    handedOver wampPath (line wampPath form address insertId) =
      some (handed wampPath form address insertId) := by
  simp only [handedOver, cut_line h herrors haddress, split_program h herrors haddress, if_true]

/-! ## Running it -/

theorem commands_backTokens (insertId : ℕ) :
    Cmd.commands (backTokens wampPath insertId) =
      [⟨[], [('>', none, txtPath wampPath insertId), ('>', some '2', "&1".toList)]⟩,
        ⟨["del".toList, pidPath wampPath insertId], []⟩] := rfl

/-- Without lines that say only `0` every header is sent. -/
theorem sent_eq (h : Verbatim wampPath form) :
    sent form = ((headerLines form).filter (· ≠ [])).map Text.trim := by
  rw [sent]
  congr 1
  refine List.filter_congr fun line hline => ?_
  rw [truthy, bne_iff_ne.mpr (h.headers line hline).1, Bool.and_true]
  cases line <;> rfl

theorem runsOnce_of_filter {command address : Text} {insertId : ℕ} {c : Cmd.Command}
    (h : (Cmd.commands (Cmd.read separates command)).filter
      (·.words.head? == some (abs wampPath)) = [c]) :
    runsOnce wampPath form insertId address command = true ↔
      c.words.getLast? = some address ∧ headerArguments c.words.dropLast =
        ((headerLines form).filter (· ≠ [])).map Text.trim ∧
      output c = some (txtPath wampPath insertId) := by
  rw [runsOnce, h]
  simp only [Bool.and_eq_true, beq_iff_eq, and_assoc]

theorem exists_filter_of_runsOnce {command address : Text} {insertId : ℕ}
    (h : runsOnce wampPath form insertId address command = true) :
    ∃ c, (Cmd.commands (Cmd.read separates command)).filter
      (·.words.head? == some (abs wampPath)) = [c] := by
  unfold runsOnce at h
  split at h
  · next c hfilter => exact ⟨c, hfilter⟩
  · cases h

/-- A plain address is run as it is. -/
theorem runsOnce_of_plain (h : Verbatim wampPath form) (herrors : errors form = [])
    {address : Text} (hplain : ∀ c ∈ address, Cmd.isPlain separates c = true)
    (hne : address ≠ []) (insertId : ℕ) :
    runsOnce wampPath form insertId address (handed wampPath form address insertId) = true := by
  obtain ⟨ws, n, hfront, hheaders, -⟩ := exists_readsWords_front h herrors
  have hread : Cmd.read separates (handed wampPath form address insertId) =
      (abs wampPath :: ws ++ [n] ++ [address]).map .word ++ backTokens wampPath insertId := by
    rw [Cmd.read, handed, Cmd.Reads.run hfront, Cmd.State.fresh, Cmd.run_plain hplain,
      if_neg hne, run_back h]
    simp only [List.map_append, List.append_assoc]
    rfl
  have hcommands : Cmd.commands (Cmd.read separates (handed wampPath form address insertId)) =
      [⟨abs wampPath :: ws ++ [n] ++ [address], [('>', none, txtPath wampPath insertId),
        ('>', some '2', "&1".toList)]⟩, ⟨["del".toList, pidPath wampPath insertId], []⟩] := by
    rw [hread, Cmd.commands_words, commands_backTokens, List.modifyHead_cons, List.append_nil]
  have hdel : "del".toList ≠ abs wampPath :=
    (ne_of_mem_of_not_mem' slash_mem_abs (by decide)).symm
  have hfilter : (Cmd.commands (Cmd.read separates
      (handed wampPath form address insertId))).filter
      (·.words.head? == some (abs wampPath)) =
      [⟨abs wampPath :: ws ++ [n] ++ [address], [('>', none, txtPath wampPath insertId),
        ('>', some '2', "&1".toList)]⟩] := by
    rw [hcommands]
    simp only [List.filter_cons, List.cons_append, List.head?_cons, beq_self_eq_true, if_true,
      beq_eq_false_iff_ne.mpr (fun heq => hdel (Option.some.inj heq))]
    rfl
  rw [runsOnce_of_filter hfilter]
  refine ⟨List.getLast?_concat, ?_, rfl⟩
  rw [List.dropLast_concat, hheaders, sent_eq h]

/-! ## An address that is not plain -/

theorem not_mem_of_plain {t : Text} (h : ∀ c ∈ t, Cmd.isSpecial c = false) : '^' ∉ t :=
  fun hmem => nomatch h '^' hmem

/-- All carets of the line come from the address. -/
theorem count_line (h : Verbatim wampPath form) (herrors : errors form = []) (address : Text)
    (insertId : ℕ) : (line wampPath form address insertId).count '^' = address.count '^' := by
  have hpath := List.count_eq_zero.mpr (not_mem_of_plain (not_isSpecial_of_plain h.path))
  have htxt := List.count_eq_zero.mpr
    (not_mem_of_plain (not_isSpecial_of_plain (h.plain_txtPath insertId)))
  have hpid := List.count_eq_zero.mpr
    (not_mem_of_plain (not_isSpecial_of_plain (h.plain_pidPath insertId)))
  have hfront : ((front wampPath form).flatMap Piece.source).count '^' = 0 := by
    rw [List.count_eq_zero, List.mem_flatMap]
    rintro ⟨p, hp, hmem⟩
    exact (safe_front h herrors p hp).not_mem_source hmem
  have hback : (back wampPath insertId).count '^' = 0 := by
    simp only [back, List.count_append, htxt, hpid]
    decide
  rw [line_eq, program]
  simp only [List.count_append, List.count_cons, hpath, hpid, hfront, hback]
  simp

/-- What is run as it is has no quotes, as there are not enough carets for them. -/
theorem not_mem_of_runsOnce (h : Verbatim wampPath form) (herrors : errors form = [])
    {address command : Text} {insertId : ℕ}
    (hover : handedOver wampPath (line wampPath form address insertId) = some command)
    (hruns : runsOnce wampPath form insertId address command = true) :
    ∀ c ∈ address, c ∉ "\"\n\x00".toList := by
  have hcommand : command.count '^' ≤ address.count '^' := by
    rw [← count_line h herrors address insertId]
    have hcut := Cmd.count_cut_le (line wampPath form address insertId)
    unfold handedOver at hover
    split at hover
    · next program target hparts =>
        have hsplit := Argv.count_split_le program
        split at hover
        · next exe bg shell flag last hargs =>
            split_ifs at hover
            obtain rfl := Option.some.inj hover
            rw [hparts] at hcut
            rw [hargs] at hsplit
            simp only [List.map_cons, List.map_nil, List.sum_cons, List.sum_nil, Cmd.Token.count,
              List.count_eq_countP] at hcut hsplit ⊢
            omega
        · cases hover
    · cases hover
  obtain ⟨c, hfilter⟩ := exists_filter_of_runsOnce hruns
  have hc : c ∈ Cmd.commands (Cmd.read separates command) :=
    List.mem_of_mem_filter (hfilter ▸ List.mem_singleton_self c)
  have hlast := ((runsOnce_of_filter hfilter).mp hruns).1
  have hword := Cmd.word_mem_of_mem_commands hc (List.mem_of_getLast? hlast)
  exact Cmd.not_mem_of_countP_isSign_le
    ((Cmd.countP_isSign_le_of_mem_read hword).trans hcommand)

/-- What the reader still holds in front of the redirection comes from the address, but for
a blank that is escaped. -/
theorem exists_run_back (h : Verbatim wampPath form) {s : Cmd.State}
    (hs : s.mode ≠ .quoted ∧ s.mode ≠ .ended) (insertId : ℕ) :
    ∃ ts, (Cmd.reader separates).run s (back wampPath insertId) =
        ts ++ backTokens wampPath insertId ∧
      ∀ w, .word w ∈ ts → .word w ∈ s.flush ∨ (s.mode = .escaped ∧ w.getLast? = some ' ') := by
  obtain ⟨mode, held⟩ := s
  cases mode with
  | plain => exact ⟨_, run_back h insertId held, fun w hw => .inl hw⟩
  | behind =>
      have hsame : (Cmd.reader separates).run ⟨.behind, held⟩ (back wampPath insertId) =
          (Cmd.reader separates).run ⟨.plain, held⟩ (back wampPath insertId) := by
        rw [back_eq]
        rfl
      exact ⟨_, hsame.trans (run_back h insertId held), fun w hw => .inl hw⟩
  | escaped =>
      have hblank : (Cmd.reader separates).step ⟨.escaped, held⟩ ' ' =
          ([], ⟨.plain, some (held.getD [] ++ [' '])⟩) := rfl
      have hsign : ∀ v, (Cmd.reader separates).step ⟨.plain, some (v ++ [' '])⟩ '>' =
          ([.word (v ++ [' ']), .redirect '>' none], ⟨.behind, none⟩) := by
        intro v
        cases v with
        | nil => rfl
        | cons d v => cases v <;> rfl
      refine ⟨[.word (held.getD [] ++ [' '])], ?_, ?_⟩
      · rw [back_eq, Transducer.run, hblank, Transducer.run, hsign, run_behind h]
        rfl
      · intro w hw
        obtain rfl : w = held.getD [] ++ [' '] := by simpa using hw
        exact .inr ⟨rfl, List.getLast?_concat⟩
  | quoted => exact absurd rfl hs.1
  | ended => exact absurd rfl hs.2

/-- A word of a text that is not plain is shorter than the text. -/
theorem length_lt_of_mem_read {address w : Text}
    (hnot : ∃ c ∈ address, Cmd.isPlain separates c = false)
    (hw : .word w ∈ Cmd.read separates address) : w.length < address.length := by
  have hlt := Cmd.weight_run_lt hnot none
  obtain ⟨front, back, heq⟩ := List.append_of_mem hw
  rw [Cmd.read, Cmd.State.fresh] at heq
  have hnone : Cmd.State.weight ⟨.plain, none⟩ = 0 := rfl
  rw [heq, List.map_append, List.sum_append, List.map_cons, List.sum_cons, Cmd.Token.weight,
    hnone] at hlt
  omega

/-- None of the words that it is read into is the address. -/
theorem ne_of_mem_headWords (h : Verbatim wampPath form) {address : Text}
    (hquotes : ∀ c ∈ address, c ∉ "\"\n\x00".toList)
    (hnot : ∃ c ∈ address, Cmd.isPlain separates c = false) {insertId : ℕ} {w : Text}
    (hw : w ∈ Cmd.headWords
      ((Cmd.reader separates).run .fresh (address ++ back wampPath insertId))) :
    w ≠ address := by
  have houtside := Cmd.advance_outside separates hquotes (s := .fresh) (by decide)
  obtain ⟨ts, hrun, hts⟩ := exists_run_back h houtside insertId
  have hread : Cmd.read separates address =
      ((Cmd.reader separates).advance .fresh address).1 ++
        ((Cmd.reader separates).advance .fresh address).2.flush := by
    have happend := (Cmd.reader separates).run_append .fresh address []
    rwa [List.append_nil] at happend
  have hshort : .word w ∈ Cmd.read separates address → w ≠ address := by
    rintro hin rfl
    exact Nat.lt_irrefl _ (length_lt_of_mem_read hnot hin)
  rw [Transducer.run_append, hrun, ← List.append_assoc] at hw
  have hsign : ∀ t ∈ (backTokens wampPath insertId).head?, ∀ v, t ≠ Cmd.Token.word v := by
    intro t ht v heq
    cases (Option.some.inj ht).trans heq
  rcases Cmd.word_mem_or_of_mem_headWords hsign hw with hin | hin
  · rcases List.mem_append.mp hin with hin | hin
    · exact hshort (hread ▸ List.mem_append_left _ hin)
    · rcases hts w hin with hflush | ⟨hescaped, hblank⟩
      · exact hshort (hread ▸ List.mem_append_right _ hflush)
      · rintro rfl
        rw [Cmd.getLast?_of_advance_escaped (by decide) hescaped] at hblank
        cases hblank
  · cases hin

/-- What runs as it is is plain. -/
theorem plain_of_runsOnce (h : Verbatim wampPath form) (herrors : errors form = [])
    {address : Text} (hcolon : ':' ∈ address) (hquotes : ∀ c ∈ address, c ∉ "\"\n\x00".toList)
    {insertId : ℕ}
    (hruns : runsOnce wampPath form insertId address
      (handed wampPath form address insertId) = true) :
    ∀ c ∈ address, Cmd.isPlain separates c = true := by
  by_contra hsome
  have hnot : ∃ c ∈ address, Cmd.isPlain separates c = false := by
    simpa only [not_forall, Bool.not_eq_true, exists_prop] using hsome
  obtain ⟨ws, n, hfront, -, hn⟩ := exists_readsWords_front h herrors
  have hread : Cmd.read separates (handed wampPath form address insertId) =
      (abs wampPath :: ws ++ [n]).map .word ++
        (Cmd.reader separates).run .fresh (address ++ back wampPath insertId) := by
    rw [Cmd.read, handed, Cmd.Reads.run hfront]
  obtain ⟨c, hfilter⟩ := exists_filter_of_runsOnce hruns
  have hlast := ((runsOnce_of_filter hfilter).mp hruns).1
  rw [hread, Cmd.commands_words] at hfilter
  have hhead : ∀ w ∈ Cmd.headWords
      ((Cmd.reader separates).run .fresh (address ++ back wampPath insertId)), w ≠ address :=
    fun _ hw => ne_of_mem_headWords h hquotes hnot hw
  unfold Cmd.headWords at hhead
  obtain ⟨d, ds, hcommands⟩ := List.exists_cons_of_ne_nil (Cmd.commands_ne_nil
    ((Cmd.reader separates).run .fresh (address ++ back wampPath insertId)))
  rw [hcommands] at hfilter hhead
  rw [List.modifyHead_cons, List.filter_cons_of_pos (by simp)] at hfilter
  obtain ⟨rfl, -⟩ := List.cons.inj hfilter
  change (abs wampPath :: ws ++ [n] ++ d.words).getLast? = some address at hlast
  cases hwords : d.words with
  | nil =>
      -- the number of requests has no colon
      rw [hwords, List.append_nil, List.getLast?_concat] at hlast
      obtain rfl := Option.some.inj hlast
      exact not_mem_of_isNumeric (isNumeric_of_errors herrors).1 (by decide) (hn ':' hcolon)
  | cons w vs =>
      rw [List.getLast?_append_of_ne_nil _ (by rw [hwords]; exact List.cons_ne_nil w vs)] at hlast
      exact hhead address (List.mem_of_getLast? hlast) rfl

/-- What is queued runs the address that is stored exactly if no character of the address
means something to the command interpreter, provided the other fields are passed on as
they are. -/
theorem runsStored_iff (h : Verbatim wampPath form) {site? : Option Site} {time : ℤ}
    {insertId : ℕ} {queued : Queued}
    (hqueued : (create wampPath form site? time insertId).result = .ok queued) :
    RunsStored wampPath form insertId queued ↔
      ∀ c ∈ queued.benchmark.address, Cmd.isPlain separates c = true := by
  by_cases herrors : errors form = []
  swap
  · rw [create, if_neg herrors] at hqueued
    cases hqueued
  rw [create, if_pos herrors] at hqueued
  obtain rfl := Except.ok.inj hqueued
  have hcolon : ':' ∈ address form site? := by simp [address]
  have hquotes : (∀ c ∈ address form site?, Cmd.isPlain separates c = true) →
      ∀ c ∈ address form site?, c ∉ "\"\n\x00".toList :=
    fun hplain c hc => Cmd.not_mem_of_not_isSpecial (not_isSpecial_of_plain hplain c hc)
  constructor
  · rintro ⟨command, hover, hruns⟩
    have hclean := not_mem_of_runsOnce h herrors hover hruns
    obtain rfl := Option.some.inj ((handedOver_line h herrors hclean insertId).symm.trans hover)
    exact plain_of_runsOnce h herrors hcolon hclean hruns
  · intro hplain
    exact ⟨_, handedOver_line h herrors (hquotes hplain) insertId,
      runsOnce_of_plain h herrors hplain (List.ne_nil_of_mem hcolon) insertId⟩

/-! ## A query string -/

/-- A form for a script on the local machine. -/
def sampleForm (script : String) : PostedForm :=
  [("requests", "100"), ("concurrency", "10"), ("site_id", "1"), ("domain", "localhost"),
    ("script", script), ("proto", "http"), ("headers", "Accept: text/html\r\n\r\nX-Test: a b"),
    ("method", "GET"), ("verbosity", "1"), ("data", ""), ("data_type", "")].map
    fun field => (field.1.toList, field.2.toList)

def sampleSite : Site where
  port := .int 80
  type := .text "http".toList
  httpd := .null
  php := .null

/-- An address without a query is run. -/
theorem runsStored_sample : RunsStored "C:\\Wamp.NET".toList (sampleForm "index.php") 1
    (queue "C:\\Wamp.NET".toList (sampleForm "index.php") (some sampleSite) 0 1) := by
  have hverbatim : Verbatim "C:\\Wamp.NET".toList (sampleForm "index.php") := by
    refine ⟨by decide, by decide, by decide, by decide, by decide, by decide +kernel, ?_⟩
    intro hdata
    exact absurd (by decide) hdata
  have herrors : errors (sampleForm "index.php") = [] := by decide +kernel
  exact (runsStored_iff hverbatim (result_of_errors _ herrors _ _ _)).mpr (by decide +kernel)

/-- The second parameter of a query is taken for a command. -/
theorem ampersand_ends_address : ¬ ∀ (wampPath : Text) (form : PostedForm) (site? : Option Site)
    (time : ℤ) (insertId : ℕ) (queued : Queued),
    posted form "method" ∈ ["GET".toList, "HEAD".toList, "POST".toList, "PUT".toList] →
    (create wampPath form site? time insertId).result = .ok queued →
    RunsStored wampPath form insertId queued := by
  intro h
  have herrors : errors (sampleForm "?a=1&b=2") = [] := by decide +kernel
  have hruns := h "C:\\Wamp.NET".toList _ (some sampleSite) 0 1 _ (by decide)
    (result_of_errors _ herrors _ _ _)
  revert hruns
  decide +kernel

end BenchmarkController

end WampManager
