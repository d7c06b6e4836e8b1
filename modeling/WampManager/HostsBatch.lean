/-
# Edits of the hosts file in one go

An operation on a site makes several edits on one `Hosts` object and saves once. The
same edits with a save and a new object behind each of them leave the same lines: what
is in memory and what is in the file agree line by line. Only a line for the empty
hostname does not, since the blank at its end is lost when it is loaded again, and the
expression for the empty hostname asks for it.
-/

import WampManager.HostsEdits

namespace Text

/-! ## Lines that are joined and trimmed -/

theorem length_trim_le (t : Text) : (trim t).length ≤ t.length :=
  ((List.rdropWhile_prefix _ _).length_le).trans (List.dropWhile_sublist _).length_le

/-- What trimming leaves alone has other characters at its ends. -/
theorem ends_of_trim_eq {t : Text} (h : trim t = t) :
    (∀ c ∈ t.head?, isTrimChar c = false) ∧ ∀ c ∈ t.getLast?, isTrimChar c = false := by
  constructor
  · intro c hc
    obtain ⟨rest, rfl⟩ := List.head?_eq_some_iff.mp hc
    by_contra htrim
    rw [trim_cons (by simpa using htrim)] at h
    have hle := length_trim_le rest
    rw [h, List.length_cons] at hle
    omega
  · intro c hc
    obtain ⟨front, rfl⟩ := List.getLast?_eq_some_iff.mp hc
    by_contra htrim
    rw [trim_append_singleton (by simpa using htrim)] at h
    have hle := length_trim_le front
    rw [h, List.length_append, List.length_singleton] at hle
    omega

/-- A line as loading leaves it. -/
def Tidy (l : Text) : Prop := trim l = l ∧ '\n' ∉ l

theorem tidy_of_mem_lines {t l : Text} (h : l ∈ lines t) : Tidy l :=
  ⟨trim_of_mem_lines h, not_mem_newline_of_mem_lines h⟩

theorem joinLines_cons_cons (l l' : Text) (ls : List Text) :
    joinLines (l :: l' :: ls) = l ++ '\r' :: '\n' :: joinLines (l' :: ls) := by
  simp [joinLines, List.intercalate_cons_cons]

theorem joinLines_singleton (l : Text) : joinLines [l] = l := by
  simp [joinLines, List.intercalate_singleton]

theorem joinLines_concat {ls : List Text} (hne : ls ≠ []) (l : Text) :
    joinLines (ls ++ [l]) = joinLines ls ++ '\r' :: '\n' :: l := by
  induction ls with
  | nil => exact absurd rfl hne
  | cons l' ls ih =>
      cases ls with
      | nil => rw [List.singleton_append, joinLines_cons_cons, joinLines_singleton,
          joinLines_singleton]
      | cons l'' ls =>
          rw [List.cons_append, List.cons_append, joinLines_cons_cons, joinLines_cons_cons,
            ← List.cons_append, ih (List.cons_ne_nil l'' ls), List.append_assoc]
          rfl

/-- Trimming the join at its front drops blank lines. -/
theorem exists_dropWhile_joinLines {ls : List Text} (h : ∀ l ∈ ls, Tidy l) :
    ∃ ms, (∀ l ∈ ms, Tidy l) ∧ (joinLines ls).dropWhile isTrimChar = joinLines ms := by
  induction ls with
  | nil => exact ⟨[], h, rfl⟩
  | cons l ls ih =>
      by_cases hl : l = []
      · subst hl
        cases ls with
        | nil => exact ⟨[], fun _ hmem => absurd hmem List.not_mem_nil, rfl⟩
        | cons l' ls =>
            obtain ⟨ms, hms, heq⟩ := ih fun x hx => h x (List.mem_cons_of_mem _ hx)
            exact ⟨ms, hms, by rw [joinLines_cons_cons]; exact heq⟩
      · refine ⟨l :: ls, h, ?_⟩
        obtain ⟨c, rest, rfl⟩ := List.exists_cons_of_ne_nil hl
        have hc : isTrimChar c = false := (ends_of_trim_eq (h _ List.mem_cons_self).1).1 c rfl
        cases ls with
        | nil => rw [joinLines_singleton, List.dropWhile_cons_of_neg (by simp [hc])]
        | cons l' ls =>
            rw [joinLines_cons_cons, List.cons_append, List.dropWhile_cons_of_neg (by simp [hc])]

/-- So does trimming it at its end. -/
theorem exists_rdropWhile_joinLines {ls : List Text} (h : ∀ l ∈ ls, Tidy l) :
    ∃ ms, (∀ l ∈ ms, Tidy l) ∧ (joinLines ls).rdropWhile isTrimChar = joinLines ms := by
  induction ls using List.reverseRecOn with
  | nil => exact ⟨[], h, rfl⟩
  | append_singleton ls l ih =>
      have hls : ∀ x ∈ ls, Tidy x := fun x hx => h x (List.mem_append_left _ hx)
      by_cases hl : l = []
      · subst hl
        by_cases hne : ls = []
        · subst hne
          exact ⟨[], fun _ hmem => absurd hmem List.not_mem_nil, rfl⟩
        · obtain ⟨ms, hms, heq⟩ := ih hls
          refine ⟨ms, hms, ?_⟩
          have hjoin : joinLines (ls ++ [[]]) = joinLines ls ++ ['\r'] ++ ['\n'] := by
            simp [joinLines_concat hne]
          rw [hjoin, List.rdropWhile_concat_pos _ _ _ (by rfl),
            List.rdropWhile_concat_pos _ _ _ (by rfl), heq]
      · refine ⟨ls ++ [l], h, ?_⟩
        have hlast : ∃ front c, joinLines (ls ++ [l]) = front ++ [c] ∧ isTrimChar c = false := by
          obtain ⟨front, c, rfl⟩ := List.eq_nil_or_concat' l |>.resolve_left hl
          have hc : isTrimChar c = false :=
            (ends_of_trim_eq (h _ (List.mem_append_right _ List.mem_cons_self)).1).2 c (by simp)
          by_cases hne : ls = []
          · exact ⟨front, c, by rw [hne, List.nil_append, joinLines_singleton], hc⟩
          · exact ⟨joinLines ls ++ '\r' :: '\n' :: front, c, by simp [joinLines_concat hne], hc⟩
        obtain ⟨front, c, hjoin, hc⟩ := hlast
        rw [hjoin, List.rdropWhile_concat_neg _ _ _ (by simp [hc])]

theorem exists_trim_joinLines {ls : List Text} (h : ∀ l ∈ ls, Tidy l) :
    ∃ ms, (∀ l ∈ ms, Tidy l) ∧ trim (joinLines ls) = joinLines ms := by
  obtain ⟨front, hfront, hdrop⟩ := exists_dropWhile_joinLines h
  obtain ⟨ms, hms, hrdrop⟩ := exists_rdropWhile_joinLines hfront
  exact ⟨ms, hms, by rw [trim, hdrop, hrdrop]⟩

/-- Joined lines read back one by one. -/
theorem lines_joinLines {ls : List Text} (hne : ls ≠ []) (h : ∀ l ∈ ls, Tidy l) :
    lines (joinLines ls) = ls := by
  induction ls with
  | nil => exact absurd rfl hne
  | cons l ls ih =>
      obtain ⟨htrim, hfeed⟩ := h l List.mem_cons_self
      cases ls with
      | nil => rw [joinLines_singleton, lines_of_not_mem hfeed, htrim]
      | cons l' ls =>
          have hjoin : joinLines (l :: l' :: ls) = (l ++ ['\r']) ++ '\n' :: joinLines (l' :: ls) := by
            simp [joinLines_cons_cons]
          rw [hjoin, lines_append_newline, ih (List.cons_ne_nil l' ls) fun x hx =>
            h x (List.mem_cons_of_mem l hx), lines_of_not_mem (by simpa using hfeed),
            trim_append_singleton (by rfl), htrim]
          rfl

end Text

namespace WampManager

namespace Hosts

/-! ## Loading and saving -/

/-- Loading and saving a second time changes nothing. -/
theorem save_load_save_load (file : Text) : save (load (save (load file))) = save (load file) := by
  obtain ⟨ms, hms, hsave⟩ : ∃ ms, (∀ l ∈ ms, Text.Tidy l) ∧ save (load file) = Text.joinLines ms :=
    Text.exists_trim_joinLines fun l hl => Text.tidy_of_mem_lines hl
  have hload : save (load (Text.joinLines ms)) = Text.trim (Text.joinLines ms) := by
    by_cases hne : ms = []
    · subst hne
      rfl
    · rw [load, Text.lines_joinLines hne hms]
      rfl
  rw [hsave, hload, ← hsave]
  exact Text.trim_trim _

/-- Loading and saving loses no line that is not blank. -/
theorem entries_save_load_self (file : Text) :
    Text.entries (save (load file)) = Text.entries file := by
  rw [entries_save_load file (List.Subset.refl _)]
  rfl

/-! ## Calls on a `Hosts` object -/

/-- A call on a `Hosts` object. -/
inductive Call where
  | add (address hostname : Text)
  | remove (hostname : Text)

namespace Call

def hostname : Call → Text
  | add _ hostname => hostname
  | remove hostname => hostname

/-- What the call does to the lines in memory. -/
def run (preg : Text → Text → Bool) (c : Call) (data : List Text) : List Text :=
  match c with
  | add address hostname => Hosts.add preg address hostname data
  | remove hostname => Hosts.remove preg hostname data

/-- Dotted addresses, and hostnames of digits, small letters, dots, hyphens and
asterisks. -/
def Allowed : Call → Prop
  | add address hostname => IsAddress address ∧ ∀ c ∈ hostname, isHostChar c = true
  | remove hostname => ∀ c ∈ hostname, isHostChar c = true

instance (c : Call) : Decidable c.Allowed :=
  match c with
  | add _ _ => inferInstanceAs (Decidable (_ ∧ _))
  | remove hostname => inferInstanceAs (Decidable (∀ c ∈ hostname, _))

/-- The first call writes a line for the empty hostname, and the second asks for
such lines. -/
def Clash (first second : Call) : Prop :=
  (∃ address, first = add address []) ∧ second.hostname = []

end Call

/-- All calls on one object, which is saved behind the last of them. -/
def batched (preg : Text → Text → Bool) (calls : List Call) (file : Text) : Text :=
  save (calls.foldl (fun data call => call.run preg data) (load file))

/-- A new object for each call, which is saved behind it. -/
def oneByOne (preg : Text → Text → Bool) (calls : List Call) (file : Text) : Text :=
  calls.foldl (fun file call => save (call.run preg (load file))) file

/-- Both leave the same lines, and loading and saving is idempotent and loses no
line. -/
def BatchedAlike (preg : Text → Text → Bool) (calls : List Call) (file : Text) : Prop :=
  Text.entries (batched preg calls file) = Text.entries (oneByOne preg calls file) ∧
    save (load (save (load file))) = save (load file) ∧
    Text.entries (save (load file)) = Text.entries file

/-! ## Lines in memory and lines in the file -/

variable {preg : Text → Text → Bool} {hostname address file : Text} {data : List Text}

/-- An item that loading would leave alone. -/
def Settled (item : Text) : Prop := Text.entries item = [item].filter (· ≠ [])

/-- An item for the empty hostname: loading would trim the tab away. -/
def Pending (item : Text) : Prop := ∃ address, IsAddress address ∧ item = address ++ ['\t']

/-- What is in memory and what is in the file agree line by line. -/
structure Kept (data : List Text) (file : Text) : Prop where
  items : ∀ item ∈ data, Settled item ∨ Pending item
  lines : data.flatMap Text.entries = Text.entries file

/-- The expression finds an item exactly if it finds the line that loading makes of it. -/
def Agrees (hostname item : Text) : Prop :=
  (if literalMatch hostname item then [] else Text.entries item) =
    (Text.entries item).filter fun l => !literalMatch hostname l

theorem literalMatch_nil (hostname : Text) : literalMatch hostname [] = false := rfl

theorem Settled.agrees {item : Text} (h : Settled item) (hostname : Text) :
    Agrees hostname item := by
  unfold Agrees
  rw [h]
  by_cases hitem : item = []
  · subst hitem
    rfl
  · cases hmatch : literalMatch hostname item <;> simp [hitem, hmatch]

/-- No expression finds an address alone. -/
theorem literalMatch_address (haddress : IsAddress address) (hostname : Text) :
    literalMatch hostname address = false := by
  rw [literalMatch, show stripAddress address = some [] from haddress]
  rfl

theorem entries_pending (haddress : IsAddress address) :
    Text.entries (address ++ ['\t']) = [address] := by
  have hfield := field_of_isAddress haddress
  rw [Text.entries_append_singleton (by rfl), Text.entries,
    Text.lines_of_not_mem fun h => (hfield.2 _ h).2.2.2 rfl, Text.trim_of_no_ends]
  · simp [hfield.1]
  · exact fun c hc => (hfield.2 c (List.mem_of_mem_head? hc)).2.1
  · exact fun c hc => (hfield.2 c (List.mem_of_mem_getLast? hc)).2.1

theorem Settled.not_pending {item : Text} (h : Settled item) : ¬ Pending item := by
  rintro ⟨address, haddress, rfl⟩
  rw [Settled, entries_pending haddress] at h
  simp at h

/-- The expression for a nonempty hostname misses a pending item. -/
theorem Pending.literalMatch {item : Text} (h : Pending item) (hne : hostname ≠ []) :
    literalMatch hostname item = false := by
  obtain ⟨address, haddress, rfl⟩ := h
  have htab : NoDigit ['\t'] := by
    intro c hc
    rw [← Option.some.inj hc]
    rfl
  rw [Hosts.literalMatch, stripAddress_append haddress htab]
  simp [afterBlanks, hne]

/-- The expression for the empty hostname finds it. -/
theorem Pending.literalMatch_nil {item : Text} (h : Pending item) :
    Hosts.literalMatch [] item = true := by
  obtain ⟨address, haddress, rfl⟩ := h
  exact literalMatch_iff.mpr ⟨address, ['\t'], [], haddress, by simp, by simp [isBlank], by simp,
    rfl⟩

theorem Pending.agrees {item : Text} (h : Pending item) (hne : hostname ≠ []) :
    Agrees hostname item := by
  rw [Agrees, h.literalMatch hne]
  obtain ⟨address, haddress, rfl⟩ := h
  simp [entries_pending haddress, literalMatch_address haddress]

/-- A removal that agrees on every item is the removal of lines. -/
theorem flatMap_entries_remove (hplain : Plain hostname)
    (hagrees : ∀ item ∈ data, Agrees hostname item) :
    (remove preg hostname data).flatMap Text.entries =
      (data.flatMap Text.entries).filter fun l => !literalMatch hostname l := by
  induction data with
  | nil => rfl
  | cons item data ih =>
      have hitem := hagrees item List.mem_cons_self
      have htail := ih fun i hi => hagrees i (List.mem_cons_of_mem _ hi)
      rw [List.flatMap_cons, List.filter_append, ← hitem, ← htail, remove, List.filter_cons,
        matchesLine, if_pos hplain]
      cases literalMatch hostname item <;> rfl

/-! ## One call -/

namespace Call

/-- The items that a call pushes. -/
def newItems : Call → List Text
  | add address hostname =>
      if hostname = "localhost".toList then [] else [address ++ '\t' :: hostname]
  | remove _ => []

/-- What a call does to the lines of the file. -/
def onLines (c : Call) (lines : List Text) : List Text :=
  match c with
  | add address hostname =>
      if hostname = "localhost".toList then lines
      else (lines.filter fun l => !literalMatch hostname l) ++
        Text.entries (address ++ '\t' :: hostname)
  | remove hostname => lines.filter fun l => !literalMatch hostname l

/-- A call does nothing, or it removes its hostname and pushes its items. -/
theorem run_cases (preg : Text → Text → Bool) (c : Call) :
    (c.hostname ≠ [] ∧ c.newItems = [] ∧ (∀ data, c.run preg data = data) ∧
        ∀ lines, c.onLines lines = lines) ∨
      (∀ data, c.run preg data = Hosts.remove preg c.hostname data ++ c.newItems) ∧
        ∀ lines, c.onLines lines = (lines.filter fun l => !literalMatch c.hostname l) ++
          c.newItems.flatMap Text.entries := by
  cases c with
  | remove hostname =>
      exact .inr ⟨fun data => (List.append_nil _).symm, fun lines => (List.append_nil _).symm⟩
  | add address hostname =>
      by_cases hlocal : hostname = "localhost".toList
      · refine .inl ⟨?_, if_pos hlocal, fun data => if_pos hlocal, fun lines => if_pos hlocal⟩
        rw [Call.hostname, hlocal]
        decide
      · refine .inr ⟨fun data => ?_, fun lines => ?_⟩
        · rw [run, Hosts.add, if_neg hlocal, newItems, if_neg hlocal]
          rfl
        · rw [onLines, if_neg hlocal, newItems, if_neg hlocal, List.flatMap_singleton]
          rfl

variable {c : Call}

theorem Allowed.plain (h : c.Allowed) : Plain c.hostname := by
  have hchars : ∀ d ∈ c.hostname, isHostChar d = true := by
    cases c with
    | add address hostname => exact h.2
    | remove hostname => exact h
  exact fun d hd => (isHostChar_spec (hchars d hd)).2.2.2.2

/-- The items of a nonempty hostname are settled. -/
theorem Allowed.settled (h : c.Allowed) (hne : c.hostname ≠ []) {item : Text}
    (hitem : item ∈ c.newItems) : Settled item := by
  cases c with
  | remove hostname => cases hitem
  | add address hostname =>
      have htoken : HostToken hostname := ⟨hne, h.2⟩
      rw [newItems] at hitem
      split at hitem
      · cases hitem
      · rw [List.mem_singleton.mp hitem, Settled, entries_written h.1 htoken]
        simp

/-- Those of the empty hostname are pending. -/
theorem Allowed.pending (h : c.Allowed) (hnil : c.hostname = []) {item : Text}
    (hitem : item ∈ c.newItems) : Pending item := by
  cases c with
  | remove hostname => cases hitem
  | add address hostname =>
      obtain rfl : hostname = [] := hnil
      rw [newItems, if_neg (by decide), List.mem_singleton] at hitem
      exact ⟨address, h.1, hitem⟩

/-- Where the expression agrees on the items, a call is what it does to the lines. -/
theorem Allowed.flatMap_entries_run (h : c.Allowed)
    (hagrees : ∀ item ∈ data, Agrees c.hostname item) :
    (c.run preg data).flatMap Text.entries = c.onLines (data.flatMap Text.entries) := by
  rcases c.run_cases preg with ⟨-, -, hrun, hlines⟩ | ⟨hrun, hlines⟩
  · rw [hrun, hlines]
  · rw [hrun, hlines, List.flatMap_append, flatMap_entries_remove h.plain hagrees]

theorem Allowed.entries_run (h : c.Allowed) (file : Text) :
    Text.entries (save (c.run preg (load file))) = c.onLines (Text.entries file) := by
  have hload : (load file).flatMap Text.entries = Text.entries file :=
    Text.flatMap_entries_of_subset_lines (List.Subset.refl _)
  rw [save, get, Text.entries_trim, Text.entries_joinLines, h.flatMap_entries_run, hload]
  exact fun item hitem => Settled.agrees (Text.entries_of_mem_lines hitem) c.hostname

end Call

/-! ## Calls that agree -/

/-- Some item is pending. -/
def HasPending (data : List Text) : Prop := ∃ item ∈ data, Pending item

theorem kept_load (file : Text) : Kept (load file) file where
  items := fun _ hitem => .inl (Text.entries_of_mem_lines hitem)
  lines := Text.flatMap_entries_of_subset_lines (List.Subset.refl _)

theorem not_hasPending_load (file : Text) : ¬ HasPending (load file) := by
  rintro ⟨item, hitem, hpending⟩
  exact Settled.not_pending (Text.entries_of_mem_lines hitem) hpending

section Step

variable {c : Call} (hc : c.Allowed)

section Kept

variable (hkept : Kept data file)
include hkept

/-- The expression agrees on every item unless it asks for the empty hostname
and an item is pending. -/
theorem Kept.agrees (h : HasPending data → c.hostname ≠ []) :
    ∀ item ∈ data, Agrees c.hostname item := by
  intro item hitem
  rcases hkept.items item hitem with hsettled | hpending
  · exact hsettled.agrees c.hostname
  · exact hpending.agrees (h ⟨item, hitem, hpending⟩)

include hc

/-- Such a call keeps memory and file together. -/
theorem Kept.run (h : HasPending data → c.hostname ≠ []) :
    Kept (c.run preg data) (save (c.run preg (load file))) where
  items := by
    intro item hitem
    rcases c.run_cases preg with ⟨-, -, hrun, -⟩ | ⟨hrun, -⟩
    · exact hkept.items item (hrun data ▸ hitem)
    · rw [hrun, List.mem_append] at hitem
      rcases hitem with hold | hnew
      · exact hkept.items item (List.mem_filter.mp hold).1
      · by_cases hnil : c.hostname = []
        · exact .inr (hc.pending hnil hnew)
        · exact .inl (hc.settled hnil hnew)
  lines := by
    rw [hc.flatMap_entries_run (hkept.agrees h), hc.entries_run, hkept.lines]

end Kept

include hc

/-- A call for a nonempty hostname leaves the pending items. -/
theorem hasPending_run_of_ne (hne : c.hostname ≠ []) :
    HasPending (c.run preg data) ↔ HasPending data := by
  rcases c.run_cases preg with ⟨-, -, hrun, -⟩ | ⟨hrun, -⟩
  · rw [hrun]
  · rw [hrun]
    constructor
    · rintro ⟨item, hitem, hpending⟩
      rcases List.mem_append.mp hitem with hold | hnew
      · exact ⟨item, (List.mem_filter.mp hold).1, hpending⟩
      · exact absurd hpending (hc.settled hne hnew).not_pending
    · rintro ⟨item, hitem, hpending⟩
      refine ⟨item, List.mem_append_left _ (List.mem_filter.mpr ⟨hitem, ?_⟩), hpending⟩
      rw [matchesLine, if_pos hc.plain, hpending.literalMatch hne]
      rfl

/-- A call for the empty hostname leaves those it pushes. -/
theorem hasPending_run_of_nil (hnil : c.hostname = []) :
    HasPending (c.run preg data) ↔ ∃ address, c = .add address [] := by
  have hdropped : ¬ HasPending (remove preg c.hostname data) := by
    rintro ⟨item, hitem, hpending⟩
    have hkeep := (List.mem_filter.mp hitem).2
    rw [matchesLine, if_pos hc.plain, hnil, hpending.literalMatch_nil] at hkeep
    cases hkeep
  rcases c.run_cases preg with ⟨hne, -⟩ | ⟨hrun, -⟩
  · exact absurd hnil hne
  · rw [hrun]
    constructor
    · rintro ⟨item, hitem, hpending⟩
      rcases List.mem_append.mp hitem with hold | hnew
      · exact absurd ⟨item, hold, hpending⟩ hdropped
      · cases c with
        | remove hostname => cases hnew
        | add address hostname =>
            obtain rfl : hostname = [] := hnil
            exact ⟨address, rfl⟩
    · rintro ⟨address, rfl⟩
      have hnew : address ++ ['\t'] ∈ (Call.add address []).newItems := by
        rw [Call.newItems, if_neg (by decide)]
        exact List.mem_singleton_self _
      exact ⟨_, List.mem_append_right _ hnew, hc.pending rfl hnew⟩

end Step

/-! ## Calls that lose an address -/

/-- Memory holds an address in fewer lines than the file. -/
def Behind (address : Text) (data : List Text) (file : Text) : Prop :=
  (data.flatMap Text.entries).count address < (Text.entries file).count address

/-- A removal leaves no more lines than there were. -/
theorem remove_flatMap_sublist (preg : Text → Text → Bool) (hostname : Text) (data : List Text) :
    ((remove preg hostname data).flatMap Text.entries).Sublist (data.flatMap Text.entries) := by
  induction data with
  | nil => exact List.Sublist.refl _
  | cons item data ih =>
      rw [remove, List.filter_cons]
      split
      · exact (List.Sublist.refl _).append ih
      · exact ih.trans (List.sublist_append_right _ _)

section Behind

variable (haddress : IsAddress address)
include haddress

/-- A removal of lines keeps a line that is an address. -/
theorem count_filter_address (hostname : Text) (lines : List Text) :
    (lines.filter fun l => !literalMatch hostname l).count address = lines.count address := by
  apply List.count_filter
  rw [literalMatch_address haddress]
  rfl

/-- Memory stays behind. -/
theorem Behind.run {c : Call} (hc : c.Allowed) (h : Behind address data file) :
    Behind address (c.run preg data) (save (c.run preg (load file))) := by
  unfold Behind at h ⊢
  rw [hc.entries_run]
  rcases c.run_cases preg with ⟨-, -, hrun, hlines⟩ | ⟨hrun, hlines⟩
  · rwa [hrun, hlines]
  · have hle := (remove_flatMap_sublist preg c.hostname data).count_le address
    rw [hrun, hlines, List.flatMap_append, List.count_append, List.count_append,
      count_filter_address haddress]
    omega

/-- A call for the empty hostname drops a pending item, and the file keeps its line. -/
theorem Kept.behind {c : Call} (hc : c.Allowed) (hkept : Kept data file)
    (hnil : c.hostname = []) (hmem : address ++ ['\t'] ∈ data) :
    Behind address (c.run preg data) (save (c.run preg (load file))) := by
  rcases c.run_cases preg with ⟨hne, -⟩ | ⟨hrun, hlines⟩
  · exact absurd hnil hne
  · obtain ⟨front, back, rfl⟩ := List.append_of_mem hmem
    have hdrop : remove preg c.hostname (front ++ (address ++ ['\t']) :: back) =
        remove preg c.hostname front ++ remove preg c.hostname back := by
      have hfound : matchesLine preg c.hostname (address ++ ['\t']) = true := by
        rw [matchesLine, if_pos hc.plain, hnil]
        exact Pending.literalMatch_nil ⟨address, haddress, rfl⟩
      rw [remove, List.filter_append, List.filter_cons_of_neg (by simp [hfound])]
      rfl
    have hfront := (remove_flatMap_sublist preg c.hostname front).count_le address
    have hback := (remove_flatMap_sublist preg c.hostname back).count_le address
    unfold Behind
    rw [hc.entries_run, hrun, hlines, hdrop, ← hkept.lines]
    simp only [List.flatMap_append, List.flatMap_cons, List.count_append,
      count_filter_address haddress, entries_pending haddress, List.count_singleton_self]
    omega

end Behind

/-! ## Runs -/

/-- What is in memory behind some calls. -/
def runAll (preg : Text → Text → Bool) (calls : List Call) (data : List Text) : List Text :=
  calls.foldl (fun data call => call.run preg data) data

theorem entries_ne_of_behind {calls : List Call} (hcalls : ∀ c ∈ calls, c.Allowed)
    (haddress : IsAddress address) (h : Behind address data file) :
    Text.entries (save (runAll preg calls data)) ≠ Text.entries (oneByOne preg calls file) := by
  induction calls generalizing data file with
  | nil =>
      intro heq
      have hsave : Text.entries (save data) = data.flatMap Text.entries := by
        rw [save, get, Text.entries_trim, Text.entries_joinLines]
      have hcount : data.flatMap Text.entries = Text.entries file := hsave ▸ heq
      rw [Behind, hcount] at h
      exact lt_irrefl _ h
  | cons c calls ih =>
      exact ih (fun d hd => hcalls d (List.mem_cons_of_mem c hd))
        (h.run haddress (hcalls c List.mem_cons_self))

/-- From memory and file that agree, the lines agree in the end exactly if no call
for the empty hostname finds a pending item. -/
theorem entries_runAll_iff {calls : List Call} (hcalls : ∀ c ∈ calls, c.Allowed)
    (hkept : Kept data file) :
    Text.entries (save (runAll preg calls data)) = Text.entries (oneByOne preg calls file) ↔
      (HasPending data → ∀ c ∈ calls, c.hostname ≠ []) ∧
        calls.Pairwise fun first second => ¬ first.Clash second := by
  induction calls generalizing data file with
  | nil =>
      have hsave : Text.entries (save data) = Text.entries file := by
        rw [save, get, Text.entries_trim, Text.entries_joinLines, hkept.lines]
      exact iff_of_true hsave ⟨fun _ c hc => absurd hc List.not_mem_nil, List.Pairwise.nil⟩
  | cons c calls ih =>
      have hc := hcalls c List.mem_cons_self
      have hrest : ∀ d ∈ calls, d.Allowed := fun d hd => hcalls d (List.mem_cons_of_mem c hd)
      change Text.entries (save (runAll preg calls (c.run preg data))) =
        Text.entries (oneByOne preg calls (save (c.run preg (load file)))) ↔ _
      rw [List.forall_mem_cons, List.pairwise_cons]
      by_cases hnil : c.hostname = []
      · by_cases hpending : HasPending data
        · obtain ⟨item, hitem, address, haddress, rfl⟩ := hpending
          have hbehind : Behind address (c.run preg data) (save (c.run preg (load file))) :=
            hkept.behind haddress hc hnil hitem
          refine iff_of_false (entries_ne_of_behind hrest haddress hbehind) ?_
          rintro ⟨hne, -⟩
          exact (hne ⟨_, hitem, address, haddress, rfl⟩).1 hnil
        · rw [ih hrest (hkept.run hc fun h => absurd h hpending), hasPending_run_of_nil hc hnil]
          constructor
          · rintro ⟨hne, hpairs⟩
            exact ⟨fun h => absurd h hpending,
              fun d hd hclash => hne hclash.1 d hd hclash.2, hpairs⟩
          · rintro ⟨-, hne, hpairs⟩
            exact ⟨fun hadd d hd hd' => hne d hd ⟨hadd, hd'⟩, hpairs⟩
      · rw [ih hrest (hkept.run hc fun _ => hnil), hasPending_run_of_ne hc hnil]
        constructor
        · rintro ⟨hne, hpairs⟩
          refine ⟨fun h => ⟨hnil, hne h⟩, fun d hd hclash => ?_, hpairs⟩
          obtain ⟨⟨address, rfl⟩, -⟩ := hclash
          exact hnil rfl
        · rintro ⟨hne, -, hpairs⟩
          exact ⟨fun h => (hne h).2, hpairs⟩

/-- Calls in one go and calls one by one leave the same lines exactly if no call
for the empty hostname stands behind an addition of it. -/
theorem batched_alike_iff (preg : Text → Text → Bool) (file : Text) {calls : List Call}
    (hcalls : ∀ c ∈ calls, c.Allowed) :
    BatchedAlike preg calls file ↔ calls.Pairwise fun first second => ¬ first.Clash second := by
  have hruns : Text.entries (save (runAll preg calls (load file))) =
      Text.entries (oneByOne preg calls file) ↔ _ := entries_runAll_iff hcalls (kept_load file)
  constructor
  · rintro ⟨hlines, -⟩
    exact (hruns.mp hlines).2
  · intro hpairs
    exact ⟨hruns.mpr ⟨fun h => absurd h (not_hasPending_load file), hpairs⟩,
      save_load_save_load file, entries_save_load_self file⟩

/-- A proper hostname is added, replaced and removed in an empty file. -/
theorem batched_alike_proper :
    BatchedAlike (fun _ _ => false)
      [.add "127.0.0.1".toList "a.test".toList, .add "127.0.0.2".toList "a.test".toList,
        .remove "a.test".toList] [] := by
  refine (batched_alike_iff _ _ (by decide)).mpr ?_
  simp [Call.Clash, Call.hostname]

/-- The line for the empty hostname is removed from memory, but not from the file. -/
theorem empty_hostname_not_alike :
    (∀ c ∈ [Call.add "127.0.0.1".toList [], Call.remove []], c.Allowed) ∧
      ¬ BatchedAlike (fun _ _ => false) [.add "127.0.0.1".toList [], .remove []] [] := by
  refine ⟨by decide, ?_⟩
  rintro ⟨hlines, -⟩
  exact absurd hlines (by decide)

end Hosts

end WampManager
