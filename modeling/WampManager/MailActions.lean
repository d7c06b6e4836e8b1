/-
# Actions on mails

The page of mails renders two links for each file, with the path of the file in base64.
The routes behind the links decode whatever stands there and unlink it or run it, so a
link leads back to its file, but other requests lead elsewhere.
-/

import WampManager.Deltree
import WampManager.Lib.Base64
import WampManager.Lib.Url

namespace WampManager

namespace MailController

/-! ## Routes -/

/-- The bytes of a text without special letters. -/
def bytesOf (t : Text) : List UInt8 := t.map fun c => UInt8.ofNat c.toNat

/-- Bytes as characters. -/
def charsOf (bs : List UInt8) : Text := bs.map fun b => Char.ofNat b.toNat

/-- What an action does: `delete` unlinks, `open` runs a command. -/
inductive Action
  | unlink (path : List UInt8)
  | run (command : List UInt8)
  deriving DecidableEq

/-- A text without a line feed at its end. -/
def withoutFeed (t : Text) : Text := if t.getLast? = some '\n' then t.dropLast else t

/-- What the pattern of a route captures: a line behind the fixed text, which may have a
line feed behind it. -/
def capture (route path : Text) : Option Text :=
  if route <+: path ∧ withoutFeed (path.drop route.length) ≠ [] ∧
      '\n' ∉ withoutFeed (path.drop route.length) then
    some (withoutFeed (path.drop route.length))
  else none

/-- What `Util::exec` puts behind a command. -/
def redirection : Text := " 2>&1".toList

/-- `MailController::delete`. -/
def delete (file : Text) : Action := .unlink (Base64.decode file)

/-- `MailController::open`. -/
def «open» (file : Text) : Action := .run (Base64.decode file ++ bytesOf redirection)

/-- `Router::dispatch` for the two routes. -/
def dispatch (requestUri : Text) : Option Action :=
  let path := (Url.path? requestUri).getD []
  match capture "/mail/delete/".toList path with
  | some file => some (delete file)
  | none => (capture "/mail/open/".toList path).map «open»

/-- The folder of the mails. -/
def mailFolder (wampPath : List UInt8) : List UInt8 := wampPath ++ bytesOf "\\manager\\mail".toList

/-- The path that the page lists a mail with. -/
def mailPath (wampPath name : List UInt8) : List UInt8 :=
  mailFolder wampPath ++ bytesOf ['\\'] ++ name

/-- The links of a mail. -/
def deleteLink (mail : List UInt8) : Text := "/mail/delete/".toList ++ Base64.encode mail

def openLink (mail : List UInt8) : Text := "/mail/open/".toList ++ Base64.encode mail

/-! ## Confinement -/

/-- A path of a mail directly in the folder. -/
def InFolder (wampPath path : List UInt8) : Prop :=
  ∃ name, Drive.key (charsOf path) = Drive.key (charsOf (mailFolder wampPath)) ++ [name] ∧
    ".eml".toList <:+ name

/-- Whatever is requested, a mail in the folder is acted on. -/
def Confined (wampPath : List UInt8) : Prop :=
  ∀ requestUri action, dispatch requestUri = some action →
    match action with
    | .unlink path => InFolder wampPath path
    | .run command => ∃ path, command = path ++ bytesOf redirection ∧ InFolder wampPath path

/-- A file of the system is unlinked. -/
theorem system_file_unlinked : ¬ Confined (bytesOf "C:\\Wamp.NET".toList) := by
  intro h
  have hrequest : dispatch "/mail/delete/QzpcYm9vdC5pbmk=".toList =
      some (.unlink (bytesOf "C:\\boot.ini".toList)) := by decide +kernel
  obtain ⟨name, hkey, -⟩ := h _ _ hrequest
  have hlength := congrArg List.length hkey
  rw [List.length_append, List.length_singleton] at hlength
  revert hlength
  decide +kernel

/-! ## Requests -/

/-- A request for a route with a text behind it. -/
def Requested (route requestUri code : Text) : Prop :=
  code ≠ [] ∧ '\n' ∉ code ∧ ∃ path, Url.path? requestUri = some path ∧
    (path = route ++ code ∨ path = route ++ code ++ ['\n'])

theorem withoutFeed_cases (t : Text) : t = withoutFeed t ∨ t = withoutFeed t ++ ['\n'] := by
  unfold withoutFeed
  split
  · next hlast =>
      obtain ⟨front, rfl⟩ := List.getLast?_eq_some_iff.mp hlast
      exact .inr (by rw [List.dropLast_concat])
  · exact .inl rfl

theorem capture_eq_some_iff {route path code : Text} :
    capture route path = some code ↔
      code ≠ [] ∧ '\n' ∉ code ∧ (path = route ++ code ∨ path = route ++ code ++ ['\n']) := by
  constructor
  · intro h
    obtain ⟨⟨⟨rest, rfl⟩, hne, hfeed⟩, hcode⟩ := Option.ite_none_right_eq_some.mp h
    rw [List.drop_left] at hne hfeed hcode
    obtain rfl := Option.some.inj hcode
    refine ⟨hne, hfeed, ?_⟩
    rcases withoutFeed_cases rest with hrest | hrest
    · exact .inl (by rw [← hrest])
    · exact .inr (by rw [List.append_assoc, ← hrest])
  · rintro ⟨hne, hfeed, hpath⟩
    have hline : route <+: path ∧ withoutFeed (path.drop route.length) = code := by
      rcases hpath with rfl | rfl
      · have hlast : code.getLast? ≠ some '\n' := fun hlast => hfeed (List.mem_of_getLast? hlast)
        rw [List.drop_left]
        exact ⟨List.prefix_append _ _, if_neg hlast⟩
      · rw [List.append_assoc, List.drop_left, withoutFeed, if_pos List.getLast?_concat]
        exact ⟨List.prefix_append _ _, List.dropLast_concat⟩
    rw [capture, hline.2, if_pos ⟨hline.1, hne, hfeed⟩]

theorem capture_request_iff (route : Text) {requestUri code : Text} (hroute : route ≠ []) :
    capture route ((Url.path? requestUri).getD []) = some code ↔
      Requested route requestUri code := by
  rw [capture_eq_some_iff, Requested]
  cases hpath : Url.path? requestUri with
  | none => simp [hroute]
  | some path => simp

/-- The two routes exclude each other. -/
theorem capture_open_of_delete {path code : Text}
    (h : capture "/mail/open/".toList path = some code) :
    capture "/mail/delete/".toList path = none := by
  obtain ⟨-, -, hpath⟩ := capture_eq_some_iff.mp h
  have hbegin : ¬ "/mail/delete/".toList <+: path := by
    rintro ⟨rest, hrest⟩
    rcases hpath with rfl | rfl <;> simp [String.reduceToList] at hrest
  exact if_neg fun h => hbegin h.1

/-- What is unlinked is what the request decodes to. -/
theorem dispatch_unlink_iff {requestUri : Text} {path : List UInt8} :
    dispatch requestUri = some (.unlink path) ↔
      ∃ code, Requested "/mail/delete/".toList requestUri code ∧ Base64.decode code = path := by
  simp only [← capture_request_iff "/mail/delete/".toList (by decide)]
  simp only [dispatch]
  cases hdelete : capture "/mail/delete/".toList ((Url.path? requestUri).getD []) with
  | some file => simp [delete]
  | none =>
      cases capture "/mail/open/".toList ((Url.path? requestUri).getD []) <;> simp [«open»]

/-- What is run is what the request decodes to. -/
theorem dispatch_run_iff {requestUri : Text} {command : List UInt8} :
    dispatch requestUri = some (.run command) ↔
      ∃ code, Requested "/mail/open/".toList requestUri code ∧
        Base64.decode code ++ bytesOf redirection = command := by
  simp only [← capture_request_iff "/mail/open/".toList (by decide)]
  simp only [dispatch]
  cases hopen : capture "/mail/open/".toList ((Url.path? requestUri).getD []) with
  | some file =>
      rw [capture_open_of_delete hopen]
      simp [«open»]
  | none =>
      cases capture "/mail/delete/".toList ((Url.path? requestUri).getD []) <;> simp [delete]

/-! ## Links -/

/-- The parser of URLs leaves a path alone that has no marks of other components. -/
theorem path?_of_plain {t : Text}
    (h : ∀ c ∈ t, c ≠ ':' ∧ c ≠ '#' ∧ c ≠ '?' ∧ 32 ≤ c.toNat ∧ c.toNat ≠ 127) :
    Url.path? ('/' :: 'm' :: t) = some ('/' :: 'm' :: t) := by
  have hall : ∀ c ∈ '/' :: 'm' :: t,
      c ≠ ':' ∧ c ≠ '#' ∧ c ≠ '?' ∧ 32 ≤ c.toNat ∧ c.toNat ≠ 127 := by
    intro c hc
    rcases List.mem_cons.mp hc with rfl | hc
    · decide
    · rcases List.mem_cons.mp hc with rfl | hc
      · decide
      · exact h c hc
  have hcolon : ('/' :: 'm' :: t).dropWhile (· ≠ ':') = [] :=
    List.dropWhile_eq_nil_iff.mpr fun c hc => decide_eq_true (hall c hc).1
  have hfragment : ('/' :: 'm' :: t).takeWhile (· ≠ '#') = '/' :: 'm' :: t :=
    List.takeWhile_eq_self_iff.mpr fun c hc => decide_eq_true (hall c hc).2.1
  have hquery : ('/' :: 'm' :: t).takeWhile (· ≠ '?') = '/' :: 'm' :: t :=
    List.takeWhile_eq_self_iff.mpr fun c hc => decide_eq_true (hall c hc).2.2.1
  have hcontrol : Url.replaceControl ('/' :: 'm' :: t) = '/' :: 'm' :: t := by
    have hsame : ∀ c ∈ '/' :: 'm' :: t, (if c.toNat < 32 ∨ c.toNat = 127 then '_' else c) = c := by
      intro c hc
      obtain ⟨-, -, -, hlow, hdel⟩ := hall c hc
      exact if_neg (by omega)
    rw [Url.replaceControl, List.map_congr_left hsame, List.map_id']
  have hjust : Url.justPath ('/' :: 'm' :: t) = some ('/' :: 'm' :: t) := by
    simp only [Url.justPath, hfragment, hquery, hcontrol]
    simp
  have hrelative : Url.parseRelative ('/' :: 'm' :: t) = some ('/' :: 'm' :: t) := by
    rw [Url.parseRelative]
    · exact hjust
    · rintro rest heq
      simp at heq
  simp only [Url.path?, hcolon]
  exact hrelative

/-- A code is a path without marks. -/
theorem plain_encode (bs : List UInt8) : ∀ c ∈ Base64.encode bs,
    c ≠ ':' ∧ c ≠ '#' ∧ c ≠ '?' ∧ 32 ≤ c.toNat ∧ c.toNat ≠ 127 := by
  have hall : ∀ c ∈ '=' :: Base64.alphabet,
      c ≠ ':' ∧ c ≠ '#' ∧ c ≠ '?' ∧ 32 ≤ c.toNat ∧ c.toNat ≠ 127 := by decide +kernel
  intro c hc
  rcases Base64.mem_encode hc with hmem | rfl
  · exact hall c (List.mem_cons_of_mem _ hmem)
  · exact hall '=' List.mem_cons_self

/-- A link is a request for the code of its mail. -/
theorem requested_link (name : Text) (hname : ∀ c ∈ name,
    c ≠ ':' ∧ c ≠ '#' ∧ c ≠ '?' ∧ 32 ≤ c.toNat ∧ c.toNat ≠ 127) {mail : List UInt8}
    (h : mail ≠ []) :
    Requested ('/' :: 'm' :: name) ('/' :: 'm' :: name ++ Base64.encode mail)
      (Base64.encode mail) := by
  refine ⟨Base64.encode_ne_nil h, ?_, _, ?_, .inl rfl⟩
  · intro hfeed
    have hlow := (plain_encode mail _ hfeed).2.2.2.1
    revert hlow
    decide
  · apply path?_of_plain
    intro c hc
    rcases List.mem_append.mp hc with hc | hc
    · exact hname c hc
    · exact plain_encode mail c hc

theorem dispatch_deleteLink {mail : List UInt8} (h : mail ≠ []) :
    dispatch (deleteLink mail) = some (.unlink mail) := by
  rw [dispatch_unlink_iff]
  exact ⟨_, requested_link "ail/delete/".toList (by decide) h, Base64.decode_encode mail⟩

theorem dispatch_openLink {mail : List UInt8} (h : mail ≠ []) :
    dispatch (openLink mail) = some (.run (mail ++ bytesOf redirection)) := by
  rw [dispatch_run_iff]
  exact ⟨_, requested_link "ail/open/".toList (by decide) h,
    congrArg (· ++ bytesOf redirection) (Base64.decode_encode mail)⟩

/-! ## The command of a link -/

/-- A path that is one word is all that its command runs. -/
theorem commands_of_oneWord {mail : List UInt8} (h : Util.OneWord (charsOf mail))
    (vars : Text → Option Text) :
    Cmd.commands (Cmd.read Util.separates
      (Cmd.expand vars (charsOf (mail ++ bytesOf redirection)))) =
        [⟨[charsOf mail], [('>', some '2', "&1".toList)]⟩] := by
  have hchars : charsOf (mail ++ bytesOf redirection) = charsOf mail ++ redirection := by
    rw [charsOf, List.map_append]
    rfl
  have hvariable : Cmd.namesVariable (charsOf mail ++ redirection) = false := by
    rw [Cmd.namesVariable_append (by decide), h.no_variable]
  have hread : Cmd.read Util.separates (charsOf mail ++ redirection) =
      [.word (charsOf mail), .redirect '>' (some '2'), .word "&1".toList] := by
    have hrun := Cmd.run_plain h.plain none redirection
    rw [if_neg h.not_empty] at hrun
    exact hrun
  rw [hchars, Cmd.expand_of_not_namesVariable vars hvariable, hread]
  rfl

/-- The requests act on what they decode to, and the links of a mail lead back to it:
its path is unlinked, and it is the command that is run, alone if it is one word. -/
theorem mail_actions :
    (∀ requestUri path, dispatch requestUri = some (.unlink path) ↔
      ∃ code, Requested "/mail/delete/".toList requestUri code ∧ Base64.decode code = path) ∧
    (∀ requestUri command, dispatch requestUri = some (.run command) ↔
      ∃ code, Requested "/mail/open/".toList requestUri code ∧
        Base64.decode code ++ bytesOf redirection = command) ∧
    ∀ wampPath name,
      dispatch (deleteLink (mailPath wampPath name)) = some (.unlink (mailPath wampPath name)) ∧
      dispatch (openLink (mailPath wampPath name)) =
        some (.run (mailPath wampPath name ++ bytesOf redirection)) ∧
      (Util.OneWord (charsOf (mailPath wampPath name)) → ∀ vars,
        Cmd.commands (Cmd.read Util.separates (Cmd.expand vars
          (charsOf (mailPath wampPath name ++ bytesOf redirection)))) =
            [⟨[charsOf (mailPath wampPath name)], [('>', some '2', "&1".toList)]⟩]) := by
  refine ⟨fun _ _ => dispatch_unlink_iff, fun _ _ => dispatch_run_iff, fun wampPath name => ?_⟩
  have hne : mailPath wampPath name ≠ [] := by
    simp [mailPath, mailFolder, bytesOf]
  exact ⟨dispatch_deleteLink hne, dispatch_openLink hne, commands_of_oneWord⟩

/-- The links of a mail in an installation without blanks in its path. -/
theorem mail_actions_sample :
    dispatch (deleteLink (mailPath (bytesOf "C:\\Wamp.NET".toList)
      (bytesOf "1700000000000.eml".toList))) =
        some (.unlink (bytesOf "C:\\Wamp.NET\\manager\\mail\\1700000000000.eml".toList)) ∧
      Cmd.commands (Cmd.read Util.separates (Cmd.expand (fun _ => none)
        "C:\\Wamp.NET\\manager\\mail\\1700000000000.eml 2>&1".toList)) =
          [⟨["C:\\Wamp.NET\\manager\\mail\\1700000000000.eml".toList],
            [('>', some '2', "&1".toList)]⟩] := by
  have hlinks := mail_actions.2.2 (bytesOf "C:\\Wamp.NET".toList)
    (bytesOf "1700000000000.eml".toList)
  exact ⟨hlinks.1, hlinks.2.2 (by decide +kernel) fun _ => none⟩

end MailController

end WampManager
