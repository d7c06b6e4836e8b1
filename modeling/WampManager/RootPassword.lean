/-
# Root passwords

The installs of the database servers put the posted root password between quotes. The
MySQL family escapes the quotes in it and no backslashes, PostgreSQL escapes nothing, and
the text `0` counts as no password at all.
-/

import WampManager.Lib.Loose
import WampManager.Lib.SqlLiteral

namespace WampManager

namespace RootPassword

open SqlLiteral (Plain escape read)
open Text (strReplace)

/-- The servers with a root password. -/
inductive Server
  | mysql | mysql8 | mariadb | postgresql
  deriving DecidableEq

/-- The literal rules that a server begins with. -/
def Server.rules : Server → SqlLiteral.Rules
  | .postgresql => .doubled
  | _ => .backslash

/-- The text of a statement, or the password between quotes. -/
inductive Piece
  | text (t : Text)
  | password

/-- What is put between the quotes, if a password was posted. -/
def rootPassword (server : Server) (posted : Text) : Option Text :=
  if Loose.truthy posted then
    match server with
    | .postgresql => some posted
    | _ => some (strReplace ['\''] ['\\', '\''] posted)
  else none

/-- `$root_password_query`. -/
def rootPasswordQuery (server : Server) (posted : Text) : List Piece :=
  match rootPassword server posted with
  | none => []
  | some _ =>
      match server with
      | .mysql8 => [.text "IDENTIFIED WITH mysql_native_password BY ".toList, .password]
      | _ => [.text "IDENTIFIED BY ".toList, .password]

/-- `$final_interface`. -/
def finalInterface (interface : Text) : Text :=
  if interface = "0.0.0.0".toList then "127.0.0.1".toList else interface

/-- The grants of the MySQL family. -/
def grants (server : Server) (interface posted : Text) : List Piece :=
  let host := finalInterface interface
  if host ≠ "127.0.0.1".toList then
    [.text ("CREATE USER `wamp`@`".toList ++ host ++ "`;".toList),
      .text ("GRANT ALL PRIVILEGES ON *.* TO `wamp`@`".toList ++ host ++
        "` WITH GRANT OPTION;".toList)] ++
    match server with
    | .mysql8 =>
        [.text ("CREATE USER `root`@`".toList ++ host ++ "` ".toList)] ++
          rootPasswordQuery server posted ++ [.text ";".toList,
            .text ("GRANT ALL PRIVILEGES ON *.* TO `root`@`".toList ++ host ++
              "` WITH GRANT OPTION;".toList)]
    | _ =>
        [.text ("CREATE USER `root`@`".toList ++ host ++ "`;".toList),
          .text ("GRANT ALL PRIVILEGES ON *.* TO `root`@`".toList ++ host ++ "` ".toList)] ++
          rootPasswordQuery server posted ++ [.text " WITH GRANT OPTION;".toList]
  else
    [.text "CREATE USER `wamp`@`localhost`;".toList,
      .text "GRANT ALL PRIVILEGES ON *.* TO `wamp`@`localhost` WITH GRANT OPTION;".toList,
      .text "CREATE USER `wamp`@`127.0.0.1`;".toList,
      .text "GRANT ALL PRIVILEGES ON *.* TO `wamp`@`127.0.0.1` WITH GRANT OPTION;".toList]

/-- The statements that set the password of `root` for the local machine. -/
def setPassword (server : Server) (posted : Text) : List Piece :=
  if (rootPassword server posted).any Loose.truthy then
    match server with
    | .mysql => [.text "SET PASSWORD FOR `root`@`localhost` = PASSWORD(".toList, .password,
        .text ");".toList]
    | .mysql8 => [.text "ALTER USER `root`@`localhost` ".toList] ++
        rootPasswordQuery server posted ++ [.text ";".toList]
    | .mariadb => [.text "SET PASSWORD FOR `root`@`localhost` = PASSWORD(".toList, .password,
        .text ");".toList, .text "SET PASSWORD FOR `root`@`127.0.0.1` = PASSWORD(".toList,
        .password, .text ");".toList]
    | .postgresql => [.text "ALTER USER postgres WITH PASSWORD ".toList, .password]
  else []

/-- What an install sends once the server runs; PostgreSQL gets the statement alone. -/
def query (server : Server) (interface posted : Text) : List Piece :=
  match server with
  | .postgresql => setPassword server posted
  | _ => grants server interface posted ++ setPassword server posted ++ [.text "SHUTDOWN;".toList]

/-- The text of a query. -/
def fill (password : Text) : List Piece → Text
  | [] => []
  | .text t :: pieces => t ++ fill password pieces
  | .password :: pieces => '\'' :: (password ++ '\'' :: fill password pieces)

/-- The query has a literal for the password, and every such literal denotes what was posted
and ends where the query goes on. -/
def SetsPosted (server : Server) (interface posted : Text) : Prop :=
  ∃ password, rootPassword server posted = some password ∧
    .password ∈ setPassword server posted ∧
    ∀ front back, query server interface posted = front ++ .password :: back →
      fill password (query server interface posted) =
        fill password front ++ '\'' :: (password ++ '\'' :: fill password back) ∧
      read server.rules (password ++ '\'' :: fill password back) = some (posted, fill password back)

/-- What a server reads back between its quotes. -/
def Kept : SqlLiteral.Rules → Text → Prop
  | .backslash, p => Plain p
  | .doubled, p => '\'' ∉ p

/-! ## Literals in a query -/

variable {server : Server} {interface posted password : Text}

theorem fill_append (pieces pieces' : List Piece) :
    fill password (pieces ++ pieces') = fill password pieces ++ fill password pieces' := by
  induction pieces with
  | nil => rfl
  | cons piece pieces ih => cases piece <;> simp [fill, ih]

/-- No quote follows the closing quote of a password. -/
def Spaced : List Piece → Prop
  | [] => True
  | .text _ :: pieces => Spaced pieces
  | .password :: pieces =>
      (∀ password, (fill password pieces).head? ≠ some '\'') ∧ Spaced pieces

theorem Spaced.head {front back : List Piece} (h : Spaced (front ++ .password :: back))
    (password : Text) : (fill password back).head? ≠ some '\'' := by
  induction front with
  | nil => exact h.1 password
  | cons piece front ih =>
      cases piece with
      | text t => exact ih h
      | password => exact ih h.2

theorem spaced_append {pieces pieces' : List Piece} (h : Spaced pieces)
    (h' : Spaced pieces') (hhead : ∀ password, (fill password pieces').head? ≠ some '\'') :
    Spaced (pieces ++ pieces') := by
  induction pieces with
  | nil => exact h'
  | cons piece pieces ih =>
      cases piece with
      | text t => exact ih h
      | password =>
          refine ⟨fun password => ?_, ih h.2⟩
          have hfront := h.1 password
          show (fill password (pieces ++ pieces')).head? ≠ some '\''
          rw [fill_append, List.head?_append]
          cases hfill : (fill password pieces).head? with
          | none => simpa using hhead password
          | some c => simpa [hfill] using hfront

theorem spaced_password {t : Text} {pieces : List Piece} {c : Char} (hhead : t.head? = some c)
    (hc : c ≠ '\'') (h : Spaced pieces) : Spaced (.password :: .text t :: pieces) := by
  refine ⟨fun password => ?_, h⟩
  rw [fill, List.head?_append, hhead]
  simpa using hc

theorem spaced_rootPasswordQuery {t : Text} {pieces : List Piece} {c : Char}
    (hhead : t.head? = some c) (hc : c ≠ '\'') (h : Spaced pieces) :
    Spaced (rootPasswordQuery server posted ++ .text t :: pieces) := by
  unfold rootPasswordQuery
  split
  · exact h
  · split <;> exact spaced_password hhead hc h

theorem spaced_grants : Spaced (grants server interface posted) := by
  have hsemicolon : (";".toList : Text).head? = some ';' := by simp
  have hblank : (" WITH GRANT OPTION;".toList : Text).head? = some ' ' := by simp
  unfold grants
  dsimp only
  split
  · split
    · exact spaced_rootPasswordQuery hsemicolon (by decide) trivial
    · exact spaced_rootPasswordQuery hblank (by decide) trivial
  · trivial

theorem spaced_setPassword : Spaced (setPassword server posted) := by
  have hsemicolon : (";".toList : Text).head? = some ';' := by simp
  have hparenthesis : (");".toList : Text).head? = some ')' := by simp
  unfold setPassword
  split
  · split
    · exact spaced_password hparenthesis (by decide) trivial
    · exact spaced_rootPasswordQuery hsemicolon (by decide) trivial
    · exact spaced_password hparenthesis (by decide)
        (spaced_password hparenthesis (by decide) trivial)
    · exact ⟨fun password => by simp [fill], trivial⟩
  · trivial

theorem head_setPassword (password : Text) :
    (fill password (setPassword server posted)).head? ≠ some '\'' := by
  unfold setPassword
  split
  · split <;> simp [fill]
  · simp [fill]

theorem spaced_query : Spaced (query server interface posted) := by
  have hshutdown : ∀ password, (fill password [.text "SHUTDOWN;".toList]).head? ≠ some '\'' :=
    fun password => by simp [fill]
  have hfamily : Spaced (grants server interface posted ++ setPassword server posted ++
      [.text "SHUTDOWN;".toList]) :=
    spaced_append (spaced_append spaced_grants spaced_setPassword head_setPassword) trivial hshutdown
  cases server with
  | postgresql => exact spaced_setPassword
  | mysql | mysql8 | mariadb => exact hfamily

/-! ## Passwords that are set -/

/-- What stands between the quotes for a password. -/
def quoted (server : Server) (posted : Text) : Text :=
  match server.rules with
  | .backslash => escape posted
  | .doubled => posted

theorem rootPassword_eq : rootPassword server posted =
    if Loose.truthy posted then some (quoted server posted) else none := by
  cases server <;> simp [rootPassword, quoted, Server.rules, SqlLiteral.strReplace_quote]

theorem truthy_quoted (h : Loose.truthy posted = true) :
    Loose.truthy (quoted server posted) = true := by
  have hescape : Loose.truthy (escape posted) = true := by
    unfold Loose.truthy at h ⊢
    match posted, h with
    | [c], h =>
        by_cases hc : c = '\''
        · simp [hc, escape]
        · simpa [escape, hc] using h
    | c :: d :: posted, _ =>
        by_cases hc : c = '\''
        · simp [hc, escape]
        · by_cases hd : d = '\'' <;> simp [hc, hd, escape]
  cases server <;> assumption

theorem mem_setPassword_iff : .password ∈ setPassword server posted ↔
    Loose.truthy posted = true := by
  unfold setPassword
  by_cases h : Loose.truthy posted = true
  · have hsome : rootPassword server posted = some (quoted server posted) := by
      rw [rootPassword_eq, if_pos h]
    rw [hsome, Option.any_some, if_pos (truthy_quoted h)]
    refine iff_of_true ?_ h
    cases server <;> simp [rootPasswordQuery, hsome]
  · have hnone : rootPassword server posted = none := by rw [rootPassword_eq, if_neg h]
    simp [hnone, h]

theorem mem_query (interface : Text) (h : .password ∈ setPassword server posted) :
    .password ∈ query server interface posted := by
  cases server <;> simp [query, h]

/-- A literal denotes what was posted exactly if the rules of the server keep it. -/
theorem read_quoted_iff {rest : Text} (hrest : rest.head? ≠ some '\'') :
    read server.rules (quoted server posted ++ '\'' :: rest) = some (posted, rest) ↔
      Kept server.rules posted := by
  unfold quoted
  cases server.rules with
  | backslash => exact SqlLiteral.read_escape_iff hrest posted
  | doubled => exact SqlLiteral.read_doubled_iff hrest posted

/-- The password that is set is the posted one exactly if it is true as a condition and has
nothing in it that the server reads as anything else. -/
theorem setsPosted_iff : SetsPosted server interface posted ↔
    Loose.truthy posted = true ∧ Kept server.rules posted := by
  constructor
  · rintro ⟨password, hpassword, hmem, hreads⟩
    have htruthy := mem_setPassword_iff.mp hmem
    refine ⟨htruthy, ?_⟩
    rw [rootPassword_eq, if_pos htruthy] at hpassword
    obtain rfl := Option.some.inj hpassword
    obtain ⟨front, back, hsplit⟩ := List.append_of_mem (mem_query interface hmem)
    have hspaced : Spaced (front ++ .password :: back) := hsplit ▸ spaced_query
    exact (read_quoted_iff (hspaced.head _)).mp (hreads front back hsplit).2
  · rintro ⟨htruthy, hkept⟩
    refine ⟨quoted server posted, by rw [rootPassword_eq, if_pos htruthy],
      mem_setPassword_iff.mpr htruthy, fun front back hsplit => ⟨?_, ?_⟩⟩
    · rw [hsplit, fill_append]
      rfl
    · have hspaced : Spaced (front ++ .password :: back) := hsplit ▸ spaced_query
      exact (read_quoted_iff (hspaced.head _)).mpr hkept

/-- A backslash takes the closing quote with it. -/
theorem backslash_not_set : ¬ SetsPosted .mysql "127.0.0.1".toList ['\\'] := by
  rintro ⟨password, hpassword, hmem, hreads⟩
  obtain rfl : quoted .mysql ['\\'] = password := by
    simpa [rootPassword_eq, Loose.truthy] using hpassword
  obtain ⟨front, back, hsplit⟩ :=
    List.append_of_mem (mem_query "127.0.0.1".toList hmem)
  have hread := (hreads front back hsplit).2
  obtain ⟨value, -, hvalue⟩ := SqlLiteral.before_eq_some.mp hread
  cases hvalue

end RootPassword

end WampManager
