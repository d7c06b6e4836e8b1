/-
# Removing a directory tree

An installed package is removed with a command of the command interpreter, tried
again while the directory is still there. The path stands in the command line as
it is, so it names the directory only if the interpreter reads it as one word.
-/

import WampManager.Lib.CmdLine
import WampManager.Lib.Drive

namespace WampManager

namespace Util

/-! ## The command line -/

/-- Where a command of the interpreter separates words. -/
def separates (c : Char) : Bool := c ∈ " \t,;=\r\x0b\x0c\u00a0".toList

/-- What `rmdir` takes a word for; a slash begins a switch. -/
def target (w : Text) : List Text :=
  if w.takeWhile (· ≠ '/') = [] then [] else [w.takeWhile (· ≠ '/')]

/-- The directories that a command deletes. -/
def targets (c : Cmd.Command) : List Text :=
  match c.words with
  | [] => []
  | name :: args =>
      if Text.lower (name.takeWhile (· ≠ '/')) ∈ ["rmdir".toList, "rd".toList] then
        args.flatMap target
      else []

/-- A line runs one command and nothing is deleted but a directory. -/
def deletesOnly (line dir : Text) : Bool :=
  match Cmd.commands (Cmd.read separates line) with
  | [c] => c.redirects == [] && targets c == [dir]
  | _ => false

/-- The line that `Util::deltree` runs. -/
def rmdirLine (dir : Text) : Text := "rmdir /S /Q ".toList ++ dir

/-- A path that stands in a command line as one word, whatever variables there are. -/
structure OneWord (dir : Text) : Prop where
  not_empty : dir ≠ []
  plain : ∀ c ∈ dir, Cmd.isPlain separates c = true
  no_switch : '/' ∉ dir
  no_variable : Cmd.namesVariable dir = false

instance (dir : Text) : Decidable (OneWord dir) :=
  decidable_of_iff (dir ≠ [] ∧ (∀ c ∈ dir, Cmd.isPlain separates c = true) ∧ '/' ∉ dir ∧
      Cmd.namesVariable dir = false)
    ⟨fun ⟨hne, hplain, hswitch, hvariable⟩ => ⟨hne, hplain, hswitch, hvariable⟩,
      fun h => ⟨h.not_empty, h.plain, h.no_switch, h.no_variable⟩⟩

/-! ## Removing -/

/-- The command interpreter. What a line does may differ from one attempt to the
next, as files can be in use, but a line that deletes only a directory changes
nothing outside it and adds nothing. -/
structure Shell where
  vars : Text → Option Text
  run : ℕ → Text → Drive → Drive
  removes : ∀ attempt line disk dir, deletesOnly (Cmd.expand vars line) dir = true →
    ∀ k, (run attempt line disk).tree.node k = disk.tree.node k ∨
      (Drive.key dir <+: k ∧ (run attempt line disk).tree.node k = none)

/-- `is_dir`; the empty text is the path of nothing. -/
def isDir (disk : Drive) (path : Text) : Bool := path != [] && disk.isDir path

/-- Is there anything at a path? -/
def isThere (disk : Drive) (path : Text) : Bool :=
  path != [] && (disk.tree.node (Drive.key path)).isSome

/-- What a removal returns and leaves, with the lines that it ran. -/
structure Removal where
  result : Bool
  disk : Drive
  ran : List Text

variable (sh : Shell)

/-- The loop of `Util::deltree`. -/
def attempts (dir : Text) : ℕ → Drive → Removal
  | 0, disk => ⟨false, disk, []⟩
  | retries + 1, disk =>
      let after := sh.run retries (rmdirLine dir) disk
      if isDir after dir then
        let rest := attempts dir retries after
        { rest with ran := rmdirLine dir :: rest.ran }
      else ⟨true, after, [rmdirLine dir]⟩

/-- `Util::deltree`, where the packages are in a directory. -/
def deltree (binPath dir : Text) (retries : ℕ) (disk : Drive) : Removal :=
  if isDir disk dir = false then ⟨true, disk, []⟩
  else if dir = binPath ∨ dir = binPath ++ ['\\'] then ⟨false, disk, []⟩
  else attempts sh dir retries disk

/-- The directory that `Instance::postUninstall` removes. -/
def instanceDir (binPath name : Text) : Text := binPath ++ '\\' :: name

/-- The directory that the installation of MariaDB removes. -/
def includedDatadir (binPath name : Text) : Text := instanceDir binPath name ++ "\\data".toList

/-- Only the directory is named, only what is in it is removed, and it is gone if
that is the answer. -/
structure RemovesOnly (binPath dir : Text) (retries : ℕ) (disk : Drive) : Prop where
  named : ∀ line ∈ (deltree sh binPath dir retries disk).ran, ∀ vars,
    deletesOnly (Cmd.expand vars line) dir = true
  rest : ∀ k, ¬ Drive.key dir <+: k →
    (deltree sh binPath dir retries disk).disk.tree.node k = disk.tree.node k
  gone : (deltree sh binPath dir retries disk).result = true →
    isThere (deltree sh binPath dir retries disk).disk dir = false

/-! ## One word -/

theorem length_target_le (w : Text) : ((target w).map List.length).sum ≤ w.length := by
  have hle := (List.takeWhile_sublist (fun c => decide (c ≠ '/')) (l := w)).length_le
  unfold target
  split
  · simp
  · simpa using hle

theorem length_targets_le (ws : List Text) :
    ((ws.flatMap target).map List.length).sum ≤ (ws.map List.length).sum := by
  induction ws with
  | nil => simp
  | cons w ws ih =>
      have hw := length_target_le w
      rw [List.flatMap_cons, List.map_append, List.sum_append, List.map_cons, List.sum_cons]
      omega

/-- Only the path can name a variable. -/
theorem expand_rmdirLine (vars : Text → Option Text) (dir : Text) :
    Cmd.expand vars (rmdirLine dir) = "rmdir /S /Q ".toList ++ Cmd.expand vars dir :=
  Cmd.expand_append (by decide) vars dir

/-- The two switches are no directories. -/
theorem targets_rmdir (c : Cmd.Command) :
    targets (((c.word "/Q".toList).word "/S".toList).word "rmdir".toList) =
      c.words.flatMap target := by
  have hname : Text.lower ("rmdir".toList.takeWhile (· ≠ '/')) ∈
      ["rmdir".toList, "rd".toList] := by decide
  have hswitches : target "/S".toList = [] ∧ target "/Q".toList = [] := by decide
  rw [targets, Cmd.Command.word]
  simp only [Cmd.Command.word, if_pos hname, List.flatMap_cons, hswitches.1, hswitches.2,
    List.nil_append]

/-- Behind the switches the words of the path are read. -/
theorem read_rmdirLine (t : Text) :
    Cmd.read separates ("rmdir /S /Q ".toList ++ t) =
      [.word "rmdir".toList, .word "/S".toList, .word "/Q".toList] ++
        Cmd.read separates t := by
  have hadvance : (Cmd.reader separates).advance .fresh "rmdir /S /Q ".toList =
      ([.word "rmdir".toList, .word "/S".toList, .word "/Q".toList], .fresh) := by
    decide
  exact Transducer.run_append_of_advance _ hadvance t

/-- What is deleted is written with characters of the path. -/
theorem length_le_of_deletesOnly {t dir : Text}
    (h : deletesOnly ("rmdir /S /Q ".toList ++ t) dir = true) :
    dir.length ≤ ((Cmd.read separates t).map Cmd.Token.weight).sum := by
  have hcommands := Cmd.weight_commands_le (Cmd.read separates t)
  rw [deletesOnly, read_rmdirLine] at h
  simp only [List.cons_append, List.nil_append, Cmd.commands] at h
  generalize Cmd.commands (Cmd.read separates t) = cs at h hcommands
  cases cs with
  | nil => simp at h
  | cons c cs =>
      cases cs with
      | cons c' cs => simp at h
      | nil =>
          simp only [List.modifyHead_cons, Bool.and_eq_true, beq_iff_eq] at h
          rw [targets_rmdir] at h
          have hle := length_targets_le c.words
          rw [h.2] at hle
          simp only [List.map_cons, List.map_nil, List.sum_cons, List.sum_nil,
            Nat.add_zero] at hle hcommands
          exact hle.trans hcommands

/-- A path that is read as one word is the one directory that the line deletes. -/
theorem deletesOnly_of_oneWord {dir : Text} (h : OneWord dir) (vars : Text → Option Text) :
    deletesOnly (Cmd.expand vars (rmdirLine dir)) dir = true := by
  have hexpand : Cmd.expand vars dir = dir := Cmd.expand_of_not_namesVariable vars h.no_variable
  have hread : Cmd.read separates dir = [.word dir] := by
    have hrun := Cmd.run_plain h.plain none []
    rw [List.append_nil, if_neg h.not_empty] at hrun
    exact hrun
  have htarget : target dir = [dir] := by
    have hall : dir.takeWhile (· ≠ '/') = dir :=
      List.takeWhile_eq_self_iff.mpr fun c hc => decide_eq_true fun heq =>
        h.no_switch (heq ▸ hc)
    rw [target, hall, if_neg h.not_empty]
  rw [expand_rmdirLine, hexpand, deletesOnly, read_rmdirLine, hread]
  simp only [List.cons_append, List.nil_append, Cmd.commands, List.modifyHead_cons,
    targets_rmdir]
  simp [Cmd.Command.word, htarget]

/-- No other path is named with every choice of variables. -/
theorem oneWord_of_deletesOnly {dir : Text} (hdir : dir ≠ [])
    (h : ∀ vars, deletesOnly (Cmd.expand vars (rmdirLine dir)) dir = true) : OneWord dir := by
  have hempty := h fun _ => some []
  rw [expand_rmdirLine] at hempty
  have hvariable : Cmd.namesVariable dir = false := by
    by_contra hnamed
    have hshort := Cmd.length_expand_lt (Bool.not_eq_false _ ▸ hnamed)
    have hread := Cmd.weight_run_le separates .fresh
      (Cmd.expand (fun _ => some []) dir)
    have hlength := length_le_of_deletesOnly hempty
    have hfresh : Cmd.State.weight .fresh = 0 := rfl
    unfold Cmd.read at hlength
    omega
  rw [Cmd.expand_of_not_namesVariable _ hvariable] at hempty
  have hplain : ∀ c ∈ dir, Cmd.isPlain separates c = true := by
    by_contra hsome
    have hspecial : ∃ c ∈ dir, Cmd.isPlain separates c = false := by
      simpa only [not_forall, Bool.not_eq_true, exists_prop] using hsome
    have hread := Cmd.weight_run_lt hspecial none
    have hlength := length_le_of_deletesOnly hempty
    have hfresh : Cmd.State.weight ⟨.plain, none⟩ = 0 := rfl
    change dir.length ≤ (((Cmd.reader separates).run ⟨.plain, none⟩ dir).map _).sum at hlength
    omega
  refine ⟨hdir, hplain, fun hslash => ?_, hvariable⟩
  have hread : Cmd.read separates dir = [.word dir] := by
    have hrun := Cmd.run_plain hplain none []
    rw [List.append_nil, if_neg hdir] at hrun
    exact hrun
  rw [deletesOnly, read_rmdirLine, hread] at hempty
  simp only [List.cons_append, List.nil_append, Cmd.commands, List.modifyHead_cons,
    targets_rmdir, Bool.and_eq_true, beq_iff_eq] at hempty
  have hmem : dir ∈ target dir := by
    have hword : target dir ++ [] = [dir] := hempty.2
    rw [List.append_nil] at hword
    rw [hword]
    exact List.mem_singleton_self dir
  have hself : dir.takeWhile (· ≠ '/') = dir := by
    unfold target at hmem
    split at hmem
    · cases hmem
    · exact (List.mem_singleton.mp hmem).symm
  rw [← hself] at hslash
  simpa using List.mem_takeWhile_imp hslash

/-! ## The loop -/

variable {sh}

variable (sh) in
theorem Shell.run_rmdirLine {dir : Text} (h : OneWord dir) (attempt : ℕ) (disk : Drive)
    (k : FilePath) :
    (sh.run attempt (rmdirLine dir) disk).tree.node k = disk.tree.node k ∨
      (Drive.key dir <+: k ∧ (sh.run attempt (rmdirLine dir) disk).tree.node k = none) :=
  sh.removes attempt _ disk dir (deletesOnly_of_oneWord h sh.vars) k

/-- Every line that the loop runs is the same. -/
theorem mem_ran_attempts {dir line : Text} {retries : ℕ} {disk : Drive}
    (h : line ∈ (attempts sh dir retries disk).ran) : line = rmdirLine dir := by
  induction retries generalizing disk with
  | zero => cases h
  | succ retries ih =>
      rw [attempts] at h
      split at h
      · rcases List.mem_cons.mp h with rfl | h
        · rfl
        · exact ih h
      · exact List.mem_singleton.mp h

theorem rmdirLine_mem_ran_attempts {dir : Text} {retries : ℕ} (h : retries ≠ 0) (disk : Drive) :
    rmdirLine dir ∈ (attempts sh dir retries disk).ran := by
  obtain ⟨retries, rfl⟩ := Nat.exists_eq_succ_of_ne_zero h
  rw [attempts]
  split
  · exact List.mem_cons_self
  · exact List.mem_singleton_self _

/-- What the loop keeps: everything outside the directory. -/
theorem node_attempts {dir : Text} (h : OneWord dir) (retries : ℕ) (disk : Drive)
    {k : FilePath} (hk : ¬ Drive.key dir <+: k) :
    (attempts sh dir retries disk).disk.tree.node k = disk.tree.node k := by
  induction retries generalizing disk with
  | zero => rfl
  | succ retries ih =>
      have hstep : (sh.run retries (rmdirLine dir) disk).tree.node k = disk.tree.node k :=
        (Shell.run_rmdirLine sh h retries disk k).resolve_right fun hin => hk hin.1
      rw [attempts]
      split
      · exact (ih _).trans hstep
      · exact hstep

theorem isDir_iff {disk : Drive} {path : Text} :
    isDir disk path = true ↔ path ≠ [] ∧ disk.tree.node (Drive.key path) = some .dir := by
  rw [isDir, Bool.and_eq_true, bne_iff_ne, Drive.isDir, FileTree.isDir_iff]

/-- What is there is a directory or a file. -/
theorem isThere_iff {disk : Drive} {path : Text} :
    isThere disk path = true ↔
      isDir disk path = true ∨ (path ≠ [] ∧ (disk.get path).isSome) := by
  rw [isThere, Bool.and_eq_true, bne_iff_ne, isDir_iff, Drive.get, FileTree.fileAt]
  cases disk.tree.node (Drive.key path) with
  | none => simp
  | some node => cases node <;> simp

/-- The loop ends well only when the directory is gone. -/
theorem gone_of_attempts {dir : Text} (h : OneWord dir) {retries : ℕ} {disk : Drive}
    (hdir : isDir disk dir = true) (hresult : (attempts sh dir retries disk).result = true) :
    isThere (attempts sh dir retries disk).disk dir = false := by
  induction retries generalizing disk with
  | zero => cases hresult
  | succ retries ih =>
      rw [attempts] at hresult ⊢
      split at hresult
      · next hagain =>
          rw [if_pos hagain]
          exact ih hagain hresult
      · next hgone =>
          rw [if_neg hgone]
          obtain ⟨hne, hnode⟩ := isDir_iff.mp hdir
          rcases Shell.run_rmdirLine sh h retries disk (Drive.key dir) with hsame | hin
          · exact absurd (isDir_iff.mpr ⟨hne, hsame.trans hnode⟩) hgone
          · simp [isThere, hin.2]

/-! ## The removal -/

theorem deltree_of_not_isDir {dir : Text} {disk : Drive} (h : isDir disk dir = false)
    (binPath : Text) (retries : ℕ) : deltree sh binPath dir retries disk = ⟨true, disk, []⟩ :=
  if_pos h

theorem deltree_of_protected {binPath dir : Text} {disk : Drive} (hdir : isDir disk dir = true)
    (h : dir = binPath ∨ dir = binPath ++ ['\\']) (retries : ℕ) :
    deltree sh binPath dir retries disk = ⟨false, disk, []⟩ := by
  rw [deltree, if_neg (by simp [hdir]), if_pos h]

theorem deltree_of_isDir {binPath dir : Text} {disk : Drive} (hdir : isDir disk dir = true)
    (h : ¬ (dir = binPath ∨ dir = binPath ++ ['\\'])) (retries : ℕ) :
    deltree sh binPath dir retries disk = attempts sh dir retries disk := by
  rw [deltree, if_neg (by simp [hdir]), if_neg h]

/-- Where nothing is run the removal is exact, if the answer is. -/
theorem removesOnly_of_ran_nil {binPath dir : Text} {retries : ℕ} {disk : Drive} {result : Bool}
    (hrun : deltree sh binPath dir retries disk = ⟨result, disk, []⟩) :
    RemovesOnly sh binPath dir retries disk ↔ (result = true → isThere disk dir = false) := by
  constructor
  · intro h
    have hgone := h.gone
    rwa [hrun] at hgone
  · intro h
    refine ⟨?_, ?_, ?_⟩ <;> rw [hrun]
    · exact fun line hline => absurd hline List.not_mem_nil
    · exact fun _ _ => rfl
    · exact h

/-- With a command the path has to be one word of it. -/
theorem removesOnly_attempts_iff {binPath dir : Text} {retries : ℕ} {disk : Drive}
    (hdir : isDir disk dir = true) (hretries : retries ≠ 0)
    (h : ¬ (dir = binPath ∨ dir = binPath ++ ['\\'])) :
    RemovesOnly sh binPath dir retries disk ↔ OneWord dir := by
  have hrun : deltree sh binPath dir retries disk = attempts sh dir retries disk :=
    deltree_of_isDir hdir h retries
  constructor
  · intro hexact
    have hnamed := hexact.named (rmdirLine dir)
    rw [hrun] at hnamed
    exact oneWord_of_deletesOnly (isDir_iff.mp hdir).1
      (hnamed (rmdirLine_mem_ran_attempts hretries disk))
  · intro hword
    refine ⟨?_, ?_, ?_⟩ <;> rw [hrun]
    · intro line hline vars
      rw [mem_ran_attempts hline]
      exact deletesOnly_of_oneWord hword vars
    · exact fun k hk => node_attempts hword retries disk hk
    · exact gone_of_attempts hword hdir

/-- A removal is exact precisely if no file is taken for the directory and, where a
command is run, the path is one word of it. -/
theorem removesOnly_iff (sh : Shell) (binPath dir : Text) (retries : ℕ) (disk : Drive) :
    RemovesOnly sh binPath dir retries disk ↔
      (dir ≠ [] → disk.get dir = none) ∧ (isDir disk dir = true →
        dir = binPath ∨ dir = binPath ++ ['\\'] ∨ retries = 0 ∨ OneWord dir) := by
  by_cases hdir : isDir disk dir = true
  · have hfile : disk.get dir = none := by
      rw [Drive.get, FileTree.fileAt, (isDir_iff.mp hdir).2, Option.map_none]
    by_cases hprotected : dir = binPath ∨ dir = binPath ++ ['\\']
    · rw [removesOnly_of_ran_nil (deltree_of_protected hdir hprotected retries)]
      refine iff_of_true (fun hresult => absurd hresult Bool.false_ne_true)
        ⟨fun _ => hfile, fun _ => ?_⟩
      rcases hprotected with h | h
      · exact .inl h
      · exact .inr (.inl h)
    · by_cases hretries : retries = 0
      · subst hretries
        rw [removesOnly_of_ran_nil (deltree_of_isDir hdir hprotected 0)]
        simp [hfile]
      · obtain ⟨hself, hslash⟩ := not_or.mp hprotected
        rw [removesOnly_attempts_iff hdir hretries hprotected]
        simp [hfile, hdir, hself, hslash, hretries]
  · rw [Bool.not_eq_true] at hdir
    rw [removesOnly_of_ran_nil (deltree_of_not_isDir hdir binPath retries),
      ← Bool.not_eq_true (isThere disk dir), isThere_iff]
    simp [hdir]

/-- Nothing is removed as it should be where the path of the installation holds a
character that the interpreter does not take for part of a word. -/
theorem not_removesOnly_below {binPath below : Text} {disk : Drive} {c : Char} (hc : c ∈ binPath)
    (hspecial : Cmd.isPlain separates c = false) (hbelow : below ≠ [])
    (hdir : isDir disk (instanceDir binPath below) = true) :
    ¬ RemovesOnly sh binPath (instanceDir binPath below) 3 disk := by
  have hprotected : ¬ (instanceDir binPath below = binPath ∨
      instanceDir binPath below = binPath ++ ['\\']) := by
    simp [instanceDir, hbelow]
  rw [removesOnly_attempts_iff hdir (by decide) hprotected]
  intro hword
  have hplain := hword.plain c (List.mem_append_left _ hc)
  rw [hspecial] at hplain
  cases hplain

/-- The data directory that a package brings lies below its own. -/
theorem includedDatadir_eq (binPath name : Text) :
    includedDatadir binPath name = instanceDir binPath (name ++ "\\data".toList) := by
  rw [includedDatadir, instanceDir, List.append_assoc, List.cons_append, instanceDir]

/-! ## An installation below a name with a blank -/

/-- A command interpreter that deletes what a line names. -/
def prompt : Shell where
  vars := fun _ => none
  run := fun _ line disk =>
    ((Cmd.commands (Cmd.read separates (Cmd.expand (fun _ => none) line))).flatMap
      targets).foldl Drive.deltree disk
  removes := by
    intro attempt line disk dir h k
    unfold deletesOnly at h
    split at h
    · next c hcommands =>
        rw [Bool.and_eq_true, beq_iff_eq, beq_iff_eq] at h
        rw [hcommands, List.flatMap_singleton, h.2, List.foldl_cons, List.foldl_nil]
        by_cases hk : Drive.key dir <+: k ∧ Drive.key dir ≠ []
        · exact .inr ⟨hk.1, if_pos hk⟩
        · exact .inl (if_neg hk)
    · cases h

/-- A server installed below `Program Files`. -/
def installed : Drive where
  tree := FileTree.empty.mkdirs
    (Drive.key "C:\\Program Files\\Wamp.NET\\bin\\mariadb-10".toList)
  spelled_key := by
    intro k file hfile
    rw [FileTree.fileAt_mkdirs] at hfile
    exact Drive.empty.spelled_key k file hfile

/-- What is deleted is `C:\Program`. -/
theorem blank_splits_path :
    ¬ RemovesOnly prompt "C:\\Program Files\\Wamp.NET\\bin".toList
      (instanceDir "C:\\Program Files\\Wamp.NET\\bin".toList "mariadb-10".toList) 3 installed := by
  intro h
  have hran : rmdirLine (instanceDir "C:\\Program Files\\Wamp.NET\\bin".toList
      "mariadb-10".toList) ∈ (deltree prompt "C:\\Program Files\\Wamp.NET\\bin".toList
        (instanceDir "C:\\Program Files\\Wamp.NET\\bin".toList "mariadb-10".toList) 3
        installed).ran := by
    rw [deltree_of_isDir (by decide +kernel) (by decide)]
    exact rmdirLine_mem_ran_attempts (by decide) installed
  have hnamed := h.named _ hran fun _ => none
  revert hnamed
  decide +kernel

end Util

end WampManager
