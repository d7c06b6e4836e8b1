/-
# The mailbox

Mails arrive while the page is loaded, links on it are followed and the folder is
emptied, in any order; a link may be followed long after its page was loaded. A file
is named by the millisecond nearest to the arrival of its mail, and the page sorts by
name. With thirteen digits in each name that is the order of arrival, so the page shows
the mails that arrived and were not removed, each with a link that removes it and no
other. The files are found by a pattern that begins with the path of the installation,
so all this is about paths without pattern characters.
-/

import WampManager.Lib.Glob
import WampManager.Lib.LooseOrder
import WampManager.Lib.Transition
import WampManager.Mail
import WampManager.MailActions

namespace WampManager

namespace Mailbox

open MailController (bytesOf charsOf deleteLink mailPath openLink)

/-! ## The folder and the page -/

/-- The files of the mail folder, with their contents. -/
abbrev Folder := List (Text × Text)

/-- `file_put_contents`. -/
def put (name content : Text) (folder : Folder) : Folder :=
  if name ∈ folder.map Prod.fst then
    folder.map fun file => if file.1 = name then (name, content) else file
  else folder ++ [(name, content)]

/-- The name of a mail: it ends in `.eml` and does not begin with a dot. -/
def isMail (name : Text) : Bool := Glob.matchSegment "*.eml".toList name

/-- The panel of a mail: its number, its second, the text that `htmlentities` is given, and
its links. -/
structure Panel where
  count : ℕ
  date : ℕ
  text : Text
  openLink : Text
  deleteLink : Text
  deriving DecidableEq

/-- `(int)`, where there is no sign. -/
def intval (t : Text) : ℕ := Loose.value (t.takeWhile Char.isDigit)

section Page

variable (wampPath : List UInt8)

/-- The path of a file of the folder. -/
def path (name : Text) : List UInt8 := mailPath wampPath (bytesOf name)

/-- What the page and the button for emptying look for. -/
def pattern : Text := charsOf wampPath ++ '\\' :: "manager\\mail\\*.eml".toList

/-- Does `glob` find a file of the folder? -/
def found (name : Text) : Bool :=
  !Glob.crosses (pattern wampPath) &&
    Glob.matchPath (FilePath.segments (pattern wampPath))
      (FilePath.segments (charsOf wampPath) ++ ["manager".toList, "mail".toList, name])

/-- The files on the page, by name. -/
def mails (folder : Folder) : Folder :=
  (folder.filter fun file => found wampPath file.1).mergeSort fun a b =>
    Loose.charCompare a.1 b.1 != .gt

/-- A file on the page; the second is read off the name without its extension. -/
def panel (i : ℕ) (file : Text × Text) : Panel where
  count := i + 1
  date := intval ((file.1.take (file.1.length - ".eml".length)).take 10)
  text := Text.trim file.2
  openLink := openLink (path wampPath file.1)
  deleteLink := deleteLink (path wampPath file.1)

/-- The page. -/
def page (folder : Folder) : List Panel := (mails wampPath folder).mapIdx (panel wampPath)

/-- `unlink`. -/
def unlink (file : List UInt8) (folder : Folder) : Folder :=
  folder.filter fun f => path wampPath f.1 != file

/-! ## What happens -/

/-- A program sends a mail, the page is loaded, a link on it is followed, or the folder
is emptied. The message is a text, so it is valid UTF-8; the page would show nothing of
any other. -/
inductive Label
  | deliver (ahead : Bool) (message : Text) (time : ℚ)
  | load
  | remove (link : Text)
  | empty

/-- The folder, the links of all pages that were loaded, and the names that were given
to mails. -/
structure State where
  folder : Folder
  links : List Text
  names : List Text

/-- The milliseconds with thirteen digits: from 2001 to 2286. -/
def Thirteen (millis : ℤ) : Prop := 10 ^ 12 ≤ millis ∧ millis < 10 ^ 13

instance (millis : ℤ) : Decidable (Thirteen millis) := inferInstanceAs (Decidable (_ ∧ _))

/-- No two mails are named by one millisecond. -/
def Step (s : State) (label : Label) (s' : State) : Prop :=
  match label with
  | .deliver ahead message time =>
      Thirteen (round time) ∧ Sendmail.fileName time ∉ s.names ∧
        s' = { s with
          folder := put (Sendmail.fileName time) (Sendmail.content ahead message) s.folder
          names := s.names ++ [Sendmail.fileName time] }
  | .load =>
      s' = { s with links := s.links ++ (page wampPath s.folder).map Panel.deleteLink }
  | .remove link =>
      link ∈ s.links ∧
        s' = { s with
          folder := match MailController.dispatch link with
            | some (.unlink file) => unlink wampPath file s.folder
            | _ => s.folder }
  | .empty => s' = { s with folder := s.folder.filter fun file => !found wampPath file.1 }

end Page

/-! ## A box of mails -/

/-- A mail that has arrived, at a time in milliseconds. -/
structure Arrived where
  time : ℚ
  thirteen : Thirteen (round time)
  content : Text

namespace Arrived

/-- The nearest millisecond. -/
def millis (mail : Arrived) : ℤ := round mail.time

/-- The name of its file. -/
def name (mail : Arrived) : Text := decimal mail.millis ++ ".eml".toList

/-- Its file. -/
def file (mail : Arrived) : Text × Text := (mail.name, mail.content)

variable (wampPath : List UInt8)

/-- The link that removes it. -/
def link (mail : Arrived) : Text := deleteLink (path wampPath mail.name)

/-- Its panel, with the second of its millisecond. -/
def panel (i : ℕ) (mail : Arrived) : Panel where
  count := i + 1
  date := mail.millis.toNat / 1000
  text := Text.trim mail.content
  openLink := openLink (path wampPath mail.name)
  deleteLink := mail.link wampPath

end Arrived

section Box

variable (wampPath : List UInt8)

/-- What is in the box: mails go in, the one with a given link goes out, or all do. -/
def boxStep (box : List Arrived) : Label → List Arrived
  | .deliver ahead message time =>
      if h : Thirteen (round time) then
        box ++ [⟨time, h, Sendmail.content ahead message⟩]
      else box
  | .load => box
  | .remove link => box.filter fun mail => mail.link wampPath != link
  | .empty => []

/-- The box after all that happened. -/
def boxAfter (labels : List Label) : List Arrived := labels.foldl (boxStep wampPath) []

/-- The mails of a box in the order in which they arrived. -/
def shown (box : List Arrived) : List Panel :=
  (box.mergeSort fun a b => decide (a.time ≤ b.time)).mapIdx (Arrived.panel wampPath)

end Box

/-! ## Names -/

theorem isMail_iff (name : Text) :
    isMail name = true ↔ ".eml".toList <:+ name ∧ name.head? ≠ some '.' :=
  Glob.matchSegment_star_append (by decide) name

/-- Where the installation has no pattern characters in its path, mails are found and
nothing else is. -/
theorem found_eq_isMail {wampPath : List UInt8} (hpath : Glob.Literal (charsOf wampPath))
    (name : Text) : found wampPath name = isMail name := by
  have hfront : ∀ s ∈ FilePath.segments (charsOf wampPath) ++ ["manager".toList, "mail".toList],
      Glob.Literal s := by
    intro s hs
    rcases List.mem_append.mp hs with hs | hs
    · exact fun c hc => hpath c (FilePath.mem_of_mem_segments hs c hc)
    · have hboth : ∀ s ∈ ["manager".toList, "mail".toList], Glob.Literal s := by decide
      exact hboth s hs
  have hcrosses : Glob.crosses (pattern wampPath) = false := by
    rw [pattern, Glob.crosses_append hpath]
    decide
  have hsegments : FilePath.segments (pattern wampPath) =
      (FilePath.segments (charsOf wampPath) ++ ["manager".toList, "mail".toList]) ++
        ["*.eml".toList] := by
    rw [pattern, FilePath.segments_append_sep _ _ (by decide), List.append_assoc]
    rfl
  have hplace : FilePath.segments (charsOf wampPath) ++ ["manager".toList, "mail".toList, name] =
      (FilePath.segments (charsOf wampPath) ++ ["manager".toList, "mail".toList]) ++ [name] := by
    rw [List.append_assoc]
    rfl
  rw [found, hcrosses, hsegments, hplace, Glob.matchPath_literal_append hfront, isMail]
  simp [Glob.matchPath]

section Name

variable (mail other : Arrived)

theorem thirteen_millis : Thirteen mail.millis := mail.thirteen

theorem decimal_millis : decimal mail.millis = Nat.toDigits 10 mail.millis.toNat := by
  obtain ⟨n, hn⟩ := Int.eq_ofNat_of_zero_le (le_trans (by decide) (thirteen_millis mail).1)
  rw [hn]
  rfl

theorem digits_millis : ∀ c ∈ decimal mail.millis, c.isDigit = true := by
  intro c hc
  rw [decimal_millis] at hc
  exact Nat.isDigit_of_mem_toDigits (by decide) (by decide) hc

theorem value_millis : Loose.value (decimal mail.millis) = mail.millis.toNat := by
  rw [decimal_millis, Loose.value_toDigits]

theorem length_millis : (decimal mail.millis).length = 13 := by
  have hthirteen := thirteen_millis mail
  rw [Thirteen] at hthirteen
  rw [decimal_millis]
  apply Nat.le_antisymm
  · apply (Nat.length_toDigits_le_iff (by decide) (by decide)).mpr
    omega
  · apply Nat.le_of_not_lt
    intro hshort
    have hlt := (Nat.length_toDigits_le_iff (b := 10) (n := mail.millis.toNat) (by decide)
      (by decide)).mp (Nat.le_of_lt_succ hshort)
    omega

theorem isMail_name : isMail mail.name = true := by
  apply (isMail_iff mail.name).mpr
  apply And.intro (List.suffix_append _ _)
  have hlength := length_millis mail
  have hdigits := digits_millis mail
  rw [Arrived.name]
  cases h : decimal mail.millis with
  | nil => simp [h] at hlength
  | cons c t =>
      intro hdot
      rw [List.cons_append, List.head?_cons, Option.some.injEq] at hdot
      have hdigit := hdigits c (h ▸ List.mem_cons_self)
      rw [hdot] at hdigit
      exact absurd hdigit (by decide)

/-- Names are in the alphabet as their mails are in time. -/
theorem charCompare_name :
    Loose.charCompare mail.name other.name ≠ .gt ↔ mail.millis ≤ other.millis := by
  have hlt := Loose.append_lt_append_iff (digits_millis mail) (digits_millis other)
    ((length_millis mail).trans (length_millis other).symm) ".eml".toList
  have hmail := (thirteen_millis mail).1
  have hother := (thirteen_millis other).1
  rw [value_millis, value_millis] at hlt
  show compareOfLessAndEq (decimal mail.millis ++ ".eml".toList)
    (decimal other.millis ++ ".eml".toList) ≠ .gt ↔ _
  rw [compareOfLessAndEq]
  split
  · next h =>
      have hthis := hlt.mp h
      simp
      omega
  · next h =>
      rw [hlt] at h
      split
      · next heq =>
          rw [decimal_injective (List.append_cancel_right heq)]
          simp
      · next hne =>
          have hthis : mail.millis ≠ other.millis := fun heq => hne (by rw [heq])
          simp
          omega

/-- Among mails of different milliseconds the milliseconds are in order as the times are. -/
theorem millis_le_iff (h : mail.name = other.name → mail = other) :
    mail.millis ≤ other.millis ↔ mail.time ≤ other.time := by
  apply Iff.intro
  · intro hle
    by_contra hlater
    have hback := Sendmail.round_le_round (le_of_not_ge hlater)
    have hsame : mail.name = other.name := by
      rw [Arrived.name, Arrived.name, le_antisymm hle hback]
    rw [h hsame] at hlater
    exact hlater le_rfl
  · exact Sendmail.round_le_round

/-- The second that the page reads off a name. -/
theorem date_name :
    intval ((mail.name.take (mail.name.length - ".eml".length)).take 10) =
      mail.millis.toNat / 1000 := by
  have hfront : mail.name.take (mail.name.length - ".eml".length) = decimal mail.millis := by
    rw [Arrived.name, List.length_append]
    exact List.take_left' rfl
  have hdigits : ∀ c ∈ (decimal mail.millis).take 10, c.isDigit = true :=
    fun c hc => digits_millis mail c (List.mem_of_mem_take hc)
  rw [hfront, intval, List.takeWhile_eq_self_iff.mpr hdigits,
    Loose.value_take (digits_millis mail), value_millis, length_millis]
  rfl

end Name

/-! ## Links -/

section Link

variable {wampPath : List UInt8}

theorem path_ne_nil (name : Text) : path wampPath name ≠ [] := by
  simp [path, MailController.mailPath, MailController.mailFolder, bytesOf]

theorem deleteLink_inj {file file' : List UInt8} :
    deleteLink file = deleteLink file' ↔ file = file' := by
  apply Iff.intro
  · intro h
    have hcode := List.append_cancel_left h
    rw [← Base64.decode_encode file, hcode, Base64.decode_encode]
  · exact congrArg deleteLink

/-- The file of a mail has a path of its own. -/
theorem path_inj {mail other : Arrived} :
    path wampPath mail.name = path wampPath other.name ↔ mail.name = other.name := by
  apply Iff.intro
  · intro h
    have hbytes : bytesOf mail.name = bytesOf other.name := List.append_cancel_left h
    have hsmall : ∀ mail : Arrived, ∀ c ∈ mail.name, c.toNat < 256 := by
      intro mail c hc
      rcases List.mem_append.mp hc with hc | hc
      · have hdigit := digits_millis mail c hc
        simp only [Char.isDigit, Bool.and_eq_true, decide_eq_true_eq] at hdigit
        have hle := UInt32.le_iff_toNat_le.mp hdigit.2
        exact lt_of_le_of_lt hle (by decide)
      · have hall : ∀ c ∈ ".eml".toList, c.toNat < 256 := by decide
        exact hall c hc
    have hmap := congrArg (List.map fun b : UInt8 => Char.ofNat b.toNat) hbytes
    have hread : ∀ mail : Arrived,
        (bytesOf mail.name).map (fun b => Char.ofNat b.toNat) = mail.name := by
      intro mail
      rw [bytesOf, List.map_map]
      apply (List.map_congr_left _).trans (List.map_id _)
      intro c hc
      show Char.ofNat (UInt8.ofNat c.toNat).toNat = c
      rw [UInt8.toNat_ofNat_of_lt' (hsmall mail c hc), Char.ofNat_toNat]
    rwa [hread, hread] at hmap
  · exact congrArg (path wampPath)

theorem link_inj {mail other : Arrived} :
    mail.link wampPath = other.link wampPath ↔ mail.name = other.name :=
  deleteLink_inj.trans path_inj

end Link

/-! ## Runs -/

section Runs

variable {wampPath : List UInt8} {s s' : State} {box : List Arrived} {label : Label}

/-- The mails of the folder are those of the box, and links lead to mails. -/
structure Holds (wampPath : List UInt8) (s : State) (box : List Arrived) : Prop where
  files : s.folder.filter (fun file => isMail file.1) = box.map Arrived.file
  named : ∀ mail ∈ box, mail.name ∈ s.names
  distinct : (box.map Arrived.name).Nodup
  linked : ∀ link ∈ s.links, ∃ mail : Arrived, link = mail.link wampPath

theorem put_fresh (h : Holds wampPath s box) (mail : Arrived) (hfresh : mail.name ∉ s.names) :
    put mail.name mail.content s.folder = s.folder ++ [mail.file] := by
  have habsent : mail.name ∉ s.folder.map Prod.fst := by
    intro hmem
    obtain ⟨file, hfile, hname⟩ := List.mem_map.mp hmem
    have hlisted : file ∈ s.folder.filter fun file => isMail file.1 :=
      List.mem_filter.mpr ⟨hfile, hname ▸ isMail_name mail⟩
    rw [h.files] at hlisted
    obtain ⟨other, hother, rfl⟩ := List.mem_map.mp hlisted
    exact hfresh (hname ▸ h.named other hother)
  exact if_neg habsent

/-- A mail that arrives lies in the folder. -/
theorem holds_deliver (h : Holds wampPath s box) (mail : Arrived) (hfresh : mail.name ∉ s.names) :
    Holds wampPath
      { s with
        folder := put mail.name mail.content s.folder
        names := s.names ++ [mail.name] }
      (box ++ [mail]) := by
  constructor
  · have hkept : isMail mail.file.1 = true := isMail_name mail
    rw [put_fresh h mail hfresh, List.filter_append, h.files, List.map_append,
      List.filter_singleton, hkept]
    rfl
  · intro other hother
    rcases List.mem_append.mp hother with hother | hother
    · exact List.mem_append_left _ (h.named other hother)
    · rw [List.mem_singleton.mp hother]
      exact List.mem_append_right _ List.mem_cons_self
  · rw [List.map_append]
    apply List.nodup_append.mpr
    apply And.intro h.distinct
    apply And.intro (List.nodup_singleton _)
    intro name hname name' hname' heq
    obtain ⟨other, hother, rfl⟩ := List.mem_map.mp hname
    rw [List.mem_singleton.mp hname'] at heq
    exact hfresh (heq ▸ h.named other hother)
  · exact h.linked

/-- The files on the page are the mails of the folder. -/
theorem mails_eq (hpath : Glob.Literal (charsOf wampPath)) (folder : Folder) :
    mails wampPath folder = (folder.filter fun file => isMail file.1).mergeSort fun a b =>
      Loose.charCompare a.1 b.1 != .gt := by
  simp only [mails, found_eq_isMail hpath]

/-- The page has the links of the mails in the box. -/
theorem holds_load (hpath : Glob.Literal (charsOf wampPath)) (h : Holds wampPath s box) :
    Holds wampPath
      { s with links := s.links ++ (page wampPath s.folder).map Panel.deleteLink } box := by
  refine ⟨h.files, h.named, h.distinct, ?_⟩
  intro link hlink
  rcases List.mem_append.mp hlink with hlink | hlink
  · exact h.linked link hlink
  · obtain ⟨shown, hshown, rfl⟩ := List.mem_map.mp hlink
    obtain ⟨i, hi, rfl⟩ := List.mem_mapIdx.mp hshown
    have hlisted : (mails wampPath s.folder)[i] ∈ mails wampPath s.folder := List.getElem_mem hi
    generalize (mails wampPath s.folder)[i] = file at hlisted
    rw [mails_eq hpath, h.files] at hlisted
    have hfile := (List.mergeSort_perm _ _).mem_iff.mp hlisted
    obtain ⟨mail, -, hmail⟩ := List.mem_map.mp hfile
    apply Exists.intro mail
    rw [Arrived.link, panel, ← hmail]
    rfl

/-- A link removes the mail it was made for. -/
theorem holds_remove (h : Holds wampPath s box) (mail : Arrived) :
    Holds wampPath { s with folder := unlink wampPath (path wampPath mail.name) s.folder }
      (box.filter fun other => other.link wampPath != mail.link wampPath) := by
  have hsame : (fun other : Arrived => other.link wampPath != mail.link wampPath) =
      (fun file : Text × Text => path wampPath file.1 != path wampPath mail.name) ∘
        Arrived.file := by
    funext other
    rw [Bool.eq_iff_iff, bne_iff_ne, Function.comp_apply, bne_iff_ne]
    exact not_congr deleteLink_inj
  constructor
  · rw [unlink, List.filter_filter, hsame, ← List.filter_map, ← h.files, List.filter_filter]
    simp only [Bool.and_comm]
  · exact fun other hother => h.named other (List.mem_filter.mp hother).1
  · exact h.distinct.sublist (List.filter_sublist.map _)
  · exact h.linked

/-- Emptying takes all mails. -/
theorem holds_empty (hpath : Glob.Literal (charsOf wampPath)) (h : Holds wampPath s box) :
    Holds wampPath { s with folder := s.folder.filter fun file => !found wampPath file.1 }
      [] := by
  constructor
  · simp [found_eq_isMail hpath]
  · simp
  · simp
  · exact h.linked

/-- A step of the folder is a step of the box. -/
theorem holds_step (hpath : Glob.Literal (charsOf wampPath)) (h : Holds wampPath s box)
    (hstep : Step wampPath s label s') :
    Holds wampPath s' (boxStep wampPath box label) := by
  cases label with
  | deliver ahead message time =>
      obtain ⟨hthirteen, hfresh, rfl⟩ := hstep
      rw [boxStep, dif_pos hthirteen]
      exact holds_deliver h ⟨time, hthirteen, Sendmail.content ahead message⟩ hfresh
  | load =>
      obtain rfl := hstep
      exact holds_load hpath h
  | remove link =>
      obtain ⟨hlink, rfl⟩ := hstep
      obtain ⟨mail, rfl⟩ := h.linked link hlink
      have hdispatch : MailController.dispatch (mail.link wampPath) =
          some (.unlink (path wampPath mail.name)) :=
        MailController.dispatch_deleteLink (path_ne_nil mail.name)
      rw [hdispatch]
      exact holds_remove h mail
  | empty =>
      obtain rfl := hstep
      exact holds_empty hpath h

theorem holds_run (hpath : Glob.Literal (charsOf wampPath)) {folder : Folder}
    (hempty : ∀ file ∈ folder, isMail file.1 = false) {labels : List Label}
    (run : Transition.Run (Step wampPath) ⟨folder, [], []⟩ labels s) :
    Holds wampPath s (boxAfter wampPath labels) := by
  generalize hstart : (⟨folder, [], []⟩ : State) = start at run
  induction run with
  | nil =>
      rw [← hstart]
      refine ⟨?_, by simp [boxAfter], by simp [boxAfter], by simp⟩
      exact List.filter_eq_nil_iff.mpr fun file hfile => by simp [hempty file hfile]
  | snoc _ hstep ih =>
      rw [boxAfter, List.foldl_append]
      exact holds_step hpath ih hstep

theorem panel_file (i : ℕ) (mail : Arrived) :
    panel wampPath i mail.file = mail.panel wampPath i := by
  have hdate := date_name mail
  simp only [panel, Arrived.file, hdate]
  rfl

/-- The page of the folder is the page of the box. -/
theorem page_of_holds (hpath : Glob.Literal (charsOf wampPath)) (h : Holds wampPath s box) :
    page wampPath s.folder = shown wampPath box := by
  have hsorted : mails wampPath s.folder =
      (box.mergeSort fun a b => decide (a.time ≤ b.time)).map Arrived.file := by
    rw [mails_eq hpath, h.files, List.map_mergeSort]
    intro mail hmail other hother
    have htimes := millis_le_iff mail other (List.inj_on_of_nodup_map h.distinct hmail hother)
    rw [Bool.eq_iff_iff, decide_eq_true_iff, bne_iff_ne, ← htimes]
    exact (charCompare_name mail other).symm
  rw [page, hsorted, shown]
  apply List.ext_getElem?
  intro i
  rw [List.getElem?_mapIdx, List.getElem?_map, List.getElem?_mapIdx, Option.map_map]
  congr 1
  funext mail
  exact panel_file i mail

/-- The links of a box for removing. -/
theorem deleteLinks_shown (box : List Arrived) :
    ((shown wampPath box).map Panel.deleteLink).Perm (box.map fun mail => mail.link wampPath) := by
  have hlinks : (shown wampPath box).map Panel.deleteLink =
      (box.mergeSort fun a b => decide (a.time ≤ b.time)).map
        fun mail => mail.link wampPath := by
    apply List.ext_getElem?
    intro i
    rw [shown, List.getElem?_map, List.getElem?_mapIdx, List.getElem?_map, Option.map_map]
    rfl
  rw [hlinks]
  exact (List.mergeSort_perm _ _).map _

/-- Whatever arrives, is removed or is looked at in between, the page shows the mails that
arrived and were not removed, in the order in which they arrived, and no two of its links
for removing are the same. -/
theorem page_shows_box (hpath : Glob.Literal (charsOf wampPath)) {folder : Folder}
    (hempty : ∀ file ∈ folder, isMail file.1 = false) {labels : List Label}
    (run : Transition.Run (Step wampPath) ⟨folder, [], []⟩ labels s) :
    page wampPath s.folder = shown wampPath (boxAfter wampPath labels) ∧
      ((page wampPath s.folder).map Panel.deleteLink).Nodup := by
  have h := holds_run hpath hempty run
  have hpage := page_of_holds hpath h
  have hdistinct := h.distinct
  apply And.intro hpage
  rw [hpage, (deleteLinks_shown _).nodup_iff]
  simp only [List.Nodup, List.pairwise_map, ne_eq, link_inj] at hdistinct ⊢
  exact hdistinct

/-- The first of two mails is removed by the link of an old page. -/
def sampleLabels : List Label :=
  [.deliver false "a".toList 1700000000000, .load, .deliver false "b".toList 1700000000001,
    .remove (deleteLink (path (bytesOf "C:\\Wamp.NET".toList) "1700000000000.eml".toList))]

/-- The second of two mails is left. -/
theorem page_shows_box_sample :
    ∃ s, Transition.Run (Step (bytesOf "C:\\Wamp.NET".toList)) ⟨[], [], []⟩ sampleLabels s ∧
      page (bytesOf "C:\\Wamp.NET".toList) s.folder =
        shown (bytesOf "C:\\Wamp.NET".toList)
          (boxAfter (bytesOf "C:\\Wamp.NET".toList) sampleLabels) := by
  have hthirteen : Thirteen (round (1700000000000 : ℚ)) ∧
      Thirteen (round (1700000000001 : ℚ)) := by decide +kernel
  have hnames : Sendmail.fileName 1700000000001 ∉ [Sendmail.fileName 1700000000000] := by
    decide +kernel
  have hrun : ∃ s, Transition.Run (Step (bytesOf "C:\\Wamp.NET".toList)) ⟨[], [], []⟩
      sampleLabels s := by
    refine ⟨_, .snoc (.snoc (.snoc (.snoc (.nil _) ⟨hthirteen.1, List.not_mem_nil, rfl⟩) rfl)
      ⟨hthirteen.2, hnames, rfl⟩) ⟨?_, rfl⟩⟩
    decide +kernel
  obtain ⟨s, run⟩ := hrun
  exact ⟨s, run, (page_shows_box (by decide) (by simp) run).1⟩

end Runs

end Mailbox

end WampManager
