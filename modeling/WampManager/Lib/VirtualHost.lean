/-
# Name-based virtual hosts

A web server keeps a list of hosts and answers a request with the first one that listens at
the address of the request and has the name that was asked for; if none has, the first one
that listens there answers. Which host that is depends on the order of the list only where
several have the name. The two readers take the hosts out of what Apache and Nginx read of
their configuration.
-/

import WampManager.Lib.ApacheConf
import WampManager.Lib.NginxConf

/-- A virtual host: where it listens, the names it has and what it serves. -/
structure VirtualHost (L P R : Type*) where
  listens : List L
  names : List P
  root : R
  deriving DecidableEq

namespace VirtualHost

/-! ## Choosing -/

section Choosing

variable {L A P N R : Type*} (hears : L → A → Bool) (covers : P → N → Bool)

/-- The host listens at the address. -/
def listensAt (address : A) (host : VirtualHost L P R) : Bool :=
  host.listens.any fun listen => hears listen address

/-- The host listens at the address and has the name. -/
def answers (address : A) (name : N) (host : VirtualHost L P R) : Bool :=
  host.listensAt hears address && host.names.any fun pattern => covers pattern name

/-- The host that a request for a name at an address goes to. -/
def choose (hosts : List (VirtualHost L P R)) (address : A) (name : N) :
    Option (VirtualHost L P R) :=
  (hosts.find? (answers hears covers address name)).or (hosts.find? (listensAt hears address))

variable {hears covers}

theorem answers_iff {address : A} {name : N} {host : VirtualHost L P R} :
    answers hears covers address name host = true ↔
      (∃ listen ∈ host.listens, hears listen address = true) ∧
        ∃ pattern ∈ host.names, covers pattern name = true := by
  rw [answers, listensAt, Bool.and_eq_true, List.any_eq_true, List.any_eq_true]

/-- Where some host answers and all that do serve the same, that is served, wherever in the
list they stand. -/
theorem root_choose {hosts : List (VirtualHost L P R)} {address : A} {name : N}
    {host : VirtualHost L P R} (hmem : host ∈ hosts)
    (hanswers : answers hears covers address name host = true)
    (hsame : ∀ other ∈ hosts, answers hears covers address name other = true →
      other.root = host.root) :
    (choose hears covers hosts address name).map root = some host.root := by
  cases hfind : hosts.find? (answers hears covers address name) with
  | none => exact absurd hanswers (List.find?_eq_none.mp hfind host hmem)
  | some found =>
      rw [choose, hfind, Option.some_or, Option.map_some,
        hsame found (List.mem_of_find?_eq_some hfind) (List.find?_some hfind)]

end Choosing

end VirtualHost

namespace ApacheConf

open VirtualHost

/-- Take a directive into the host that is open. -/
def noteStatement (s : Statement) (host : VirtualHost Text Text Text) :
    VirtualHost Text Text Text :=
  if s.name = "DocumentRoot".toList then { host with root := s.arguments.flatten }
  else if s.name = "ServerName".toList ∨ s.name = "ServerAlias".toList then
    { host with names := host.names ++ s.arguments }
  else host

/-- The hosts behind a place in a file, given the one that is open there. -/
def hostsFrom : Option (VirtualHost Text Text Text) → List Statement →
    List (VirtualHost Text Text Text)
  | _, [] => []
  | host, s :: rest =>
      if s.name = "<VirtualHost".toList then hostsFrom (some ⟨s.arguments, [], []⟩) rest
      else if s.name = "</VirtualHost".toList then host.toList ++ hostsFrom none rest
      else hostsFrom (host.map (noteStatement s)) rest

/-- The virtual hosts of a file. -/
def hosts (file : Text) : List (VirtualHost Text Text Text) := hostsFrom none (read file)

/-- The words that say something about hosts. -/
def hostWords : List Text :=
  ["<VirtualHost".toList, "</VirtualHost".toList, "DocumentRoot".toList, "ServerName".toList,
    "ServerAlias".toList]

theorem noteStatement_root {s : Statement} (h : s.name = "DocumentRoot".toList)
    (host : VirtualHost Text Text Text) :
    noteStatement s host = { host with root := s.arguments.flatten } := by
  rw [noteStatement, if_pos h]

theorem noteStatement_name {s : Statement}
    (h : s.name = "ServerName".toList ∨ s.name = "ServerAlias".toList)
    (host : VirtualHost Text Text Text) :
    noteStatement s host = { host with names := host.names ++ s.arguments } := by
  have hroot : s.name ≠ "DocumentRoot".toList := by
    rcases h with h | h <;> rw [h] <;> decide
  rw [noteStatement, if_neg hroot, if_pos h]

theorem noteStatement_other {s : Statement} (h : s.name ∉ hostWords)
    (host : VirtualHost Text Text Text) : noteStatement s host = host := by
  simp only [hostWords, List.mem_cons, List.not_mem_nil, or_false, not_or] at h
  rw [noteStatement, if_neg h.2.2.1, if_neg (not_or.mpr h.2.2.2)]

/-- Statements without such words change nothing. -/
theorem foldl_noteStatement_other {statements : List Statement}
    (h : ∀ s ∈ statements, s.name ∉ hostWords) (host : VirtualHost Text Text Text) :
    statements.foldl (fun host s => noteStatement s host) host = host := by
  induction statements with
  | nil => rfl
  | cons s statements ih =>
      rw [List.foldl_cons, noteStatement_other (h s List.mem_cons_self),
        ih fun t ht => h t (List.mem_cons_of_mem s ht)]

/-- The statements between the head of a host and its end are taken in one after another. -/
theorem hostsFrom_block {head foot : Statement} (hhead : head.name = "<VirtualHost".toList)
    (hfoot : foot.name = "</VirtualHost".toList) {statements : List Statement}
    (h : ∀ s ∈ statements, s.name ≠ "<VirtualHost".toList ∧ s.name ≠ "</VirtualHost".toList)
    (rest : List Statement) :
    hostsFrom none (head :: (statements ++ foot :: rest)) =
      statements.foldl (fun host s => noteStatement s host) ⟨head.arguments, [], []⟩ ::
        hostsFrom none rest := by
  have hopen : ∀ host : VirtualHost Text Text Text,
      hostsFrom (some host) (statements ++ foot :: rest) =
        statements.foldl (fun host s => noteStatement s host) host :: hostsFrom none rest := by
    induction statements with
    | nil =>
        intro host
        have hend : foot.name ≠ "<VirtualHost".toList := by
          rw [hfoot]
          decide
        rw [List.nil_append, hostsFrom, if_neg hend, if_pos hfoot]
        rfl
    | cons s statements ih =>
        intro host
        obtain ⟨hopens, hends⟩ := h s List.mem_cons_self
        rw [List.cons_append, hostsFrom, if_neg hopens, if_neg hends, Option.map_some,
          ih fun t ht => h t (List.mem_cons_of_mem s ht)]
        rfl
  rw [hostsFrom, if_pos hhead, hopen]

end ApacheConf

namespace NginxConf

open VirtualHost

/-- Take a directive of a server block into its host. -/
def noteWords (words : List Text) (host : VirtualHost Text Text Text) :
    VirtualHost Text Text Text :=
  match words with
  | [] => host
  | directive :: arguments =>
      if directive = "listen".toList then
        { host with listens := host.listens ++ arguments.take 1 }
      else if directive = "server_name".toList then
        { host with names := host.names ++ arguments }
      else if directive = "root".toList then { host with root := arguments.flatten }
      else host

/-- The hosts behind a place in a file, given how deep in blocks it lies, the words of the
directive there and the server block that is open. -/
def hostsFrom : ℕ → List Text → VirtualHost Text Text Text → List Token →
    List (VirtualHost Text Text Text)
  | _, _, _, [] => []
  | depth, words, host, .word w :: rest => hostsFrom depth (words ++ [w]) host rest
  | depth, words, host, .semicolon :: rest =>
      hostsFrom depth [] (if depth = 1 then noteWords words host else host) rest
  | depth, _, host, .opening :: rest =>
      hostsFrom (depth + 1) [] (if depth = 0 then ⟨[], [], []⟩ else host) rest
  | 1, _, host, .closing :: rest => host :: hostsFrom 0 [] host rest
  | depth, _, host, .closing :: rest => hostsFrom (depth - 1) [] host rest
  | _, _, _, .error :: _ => []

/-- The virtual hosts of a file that consists of server blocks. -/
def hosts (file : Text) : List (VirtualHost Text Text Text) :=
  hostsFrom 0 [] ⟨[], [], []⟩ (read file)

/-- Words in front of anything are gathered. -/
theorem hostsFrom_words (depth : ℕ) (host : VirtualHost Text Text Text) (rest : List Token)
    (words more : List Text) :
    hostsFrom depth words host (more.map .word ++ rest) =
      hostsFrom depth (words ++ more) host rest := by
  induction more generalizing words with
  | nil => rw [List.map_nil, List.nil_append, List.append_nil]
  | cons w more ih =>
      rw [List.map_cons, List.cons_append, hostsFrom, ih, List.append_assoc]
      rfl

/-- A directive of a server block is taken into its host. -/
theorem hostsFrom_directive (host : VirtualHost Text Text Text) (rest : List Token)
    (words : List Text) :
    hostsFrom 1 [] host (words.map .word ++ .semicolon :: rest) =
      hostsFrom 1 [] (noteWords words host) rest := by
  rw [hostsFrom_words, List.nil_append, hostsFrom, if_pos rfl]

end NginxConf
