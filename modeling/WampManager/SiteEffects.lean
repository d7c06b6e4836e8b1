/-
# What a site request changes

Four things tell whether a request left its mark: the site rows, the alias rows,
the lines of the hosts file and the virtual host files. For each step of a
request it is said here exactly when the step leaves them alone: a removal that
finds no line, a deletion that finds no virtual host, a virtual host that is
there already or cannot be written.
-/

import WampManager.HostsEdits
import WampManager.SiteOutcomes
import WampManager.VhostMirror

namespace WampManager

namespace Site

/-- Where the file of a virtual host lies. -/
def IsVhost (key : FilePath) : Prop := ∃ name, key.getLast? = some (name ++ vhostExt)

/-- Sites, aliases, hosts lines and virtual host files are as before. -/
structure Unchanged (w w' : World) : Prop where
  sites : w'.db.sites.rows = w.db.sites.rows
  aliases : w'.db.aliases.rows = w.db.aliases.rows
  lines : Text.entries w'.hosts = Text.entries w.hosts
  vhosts : ∀ key, IsVhost key → w'.disk.tree.fileAt key = w.disk.tree.fileAt key

theorem Unchanged.refl (w : World) : Unchanged w w := ⟨rfl, rfl, rfl, fun _ _ => rfl⟩

/-! ## Hosts lines -/

/-- Removing the hostnames of a site changes no line exactly if their
expressions find none. -/
theorem lines_removedHosts_iff {env : Env} {db : Database} {siteId : ℤ} {file : Text} :
    Text.entries (removedHosts env db siteId file) = Text.entries file ↔
      ∀ l ∈ Text.entries file, ∀ hostname ∈ hostnames db siteId,
        Hosts.matchesLine env.preg hostname l = false := by
  have hfilter : ∀ (others data : List Text), Hosts.removeAll env.preg others data =
      data.filter fun l => others.all fun o => !Hosts.matchesLine env.preg o l := by
    intro others
    induction others with
    | nil =>
        intro data
        simp [Hosts.removeAll]
    | cons other others ih =>
        intro data
        show Hosts.removeAll env.preg others (Hosts.remove env.preg other data) = _
        rw [ih, Hosts.remove, List.filter_filter]
        apply List.filter_congr
        intro l _
        rw [List.all_cons, Bool.and_comm]
  have hsubset : Hosts.removeAll env.preg (hostnames db siteId) (Hosts.load file) ⊆
      Hosts.load file := fun l hl => (Hosts.mem_removeAll.mp hl).1
  rw [removedHosts, Hosts.entries_save_load file hsubset, hfilter, List.filter_comm,
    show (Hosts.load file).filter (· ≠ []) = Text.entries file from rfl, List.filter_eq_self]
  simp only [List.all_eq_true, Bool.not_eq_true']

/-! ## Virtual host files -/

/-- Deleting by a pattern changes no virtual host exactly if it finds none. -/
theorem vhosts_del_iff {d : Drive} {pattern : Text} :
    (∀ key, IsVhost key → (d.del pattern).tree.fileAt key = d.tree.fileAt key) ↔
      ∀ key file, IsVhost key → d.tree.fileAt key = some file →
        Drive.globMatches pattern key file = false := by
  simp only [Drive.fileAt_del]
  constructor
  · intro h key file hvhost hfile
    have hkept := h key hvhost
    rw [hfile, Option.filter_some] at hkept
    by_contra hfound
    simp [hfound] at hkept
  · intro h key hvhost
    cases hfile : d.tree.fileAt key with
    | none => rfl
    | some file => simp [h key file hvhost hfile]

/-- The last segment of a path ends in the extension of its file name, also if
that name is not one segment. By induction on the separators in the name. -/
theorem getLast?_key_extension {ext : Text} (hext : ext ∈ extensions) (name : Text) :
    ∀ (dir : Text) {c : Char}, FilePath.isSep c = true →
      ∃ rest, (Drive.key (dir ++ c :: (name ++ ext))).getLast? = some (rest ++ ext) := by
  obtain ⟨hsep, hlength, hlower, -⟩ := extensions_spec hext
  induction hn : name.length using Nat.strong_induction_on generalizing name with
  | _ n ih =>
      intro dir c hc
      by_cases hplain : ∀ d ∈ name, FilePath.isSep d = false
      · have hfile := fileName_append hplain hsep hlength
        refine ⟨Text.lower name, ?_⟩
        rw [Drive.key, FilePath.resolve_append_ordinary _ _ hc (by
          rw [hfile.segments]
          exact fun s hs => List.mem_singleton.mp hs ▸ hfile.2.2), hfile.segments, List.map_append,
          List.map_singleton, List.getLast?_concat, Text.lower_append, hlower]
      · push Not at hplain
        obtain ⟨d, hd, hdsep⟩ := hplain
        obtain ⟨front, back, rfl⟩ := List.append_of_mem hd
        have hback := ih back.length (by simp [← hn]; omega) back rfl (dir ++ c :: front)
          (by simpa using hdsep)
        simpa using hback

theorem isVhost_vhostPath (env : Env) (db : Database) (siteId : ℤ) :
    IsVhost (Drive.key (vhostPath env db siteId)) := by
  have hlast := @getLast?_key_extension vhostExt (by decide)
    (getById db siteId).name (confPath env db (getById db siteId).httpdInstanceId)
    (c := '\\') (by rfl)
  rw [vhostPath, List.append_assoc, List.cons_append]
  exact hlast

/-- A virtual host is neither a key nor a certificate. -/
theorem ne_of_isVhost {key : FilePath} (h : IsVhost key) {ext : Text}
    (hext : ext = ".key".toList ∨ ext = ".crt".toList) (name dir : Text) :
    key ≠ Drive.key (FilePath.slash (dir ++ ['/']) '/' ++ name ++ ext) := by
  rintro rfl
  obtain ⟨name', hname⟩ := h
  have hslash : FilePath.slash (dir ++ ['/']) '/' ++ name ++ ext =
      FilePath.slash dir '/' ++ '/' :: (name ++ ext) := by
    simp [FilePath.slash, FilePath.isSep]
  have hmem : ext ∈ extensions := by
    rcases hext with rfl | rfl <;> decide
  obtain ⟨rest, hrest⟩ := getLast?_key_extension hmem name (FilePath.slash dir '/')
    (c := '/') (by rfl)
  rw [hslash, hrest, Option.some.injEq] at hname
  have hsuffix : ext <:+ name' ++ vhostExt := hname ▸ List.suffix_append rest ext
  have hshort : ext.length ≤ vhostExt.length := by
    rcases hext with rfl | rfl <;> decide
  have hends : ext <:+ vhostExt :=
    List.suffix_of_suffix_length_le hsuffix (List.suffix_append name' vhostExt) hshort
  revert hends
  rcases hext with rfl | rfl <;> decide

/-- Making the files of a site changes no virtual host exactly if its own cannot
be written or has the text already. -/
theorem vhosts_settle_iff (env : Env) (siteId : ℤ) (httpd : Option ℤ) (u : World) :
    (∀ key, IsVhost key →
        (settle env siteId httpd u).disk.tree.fileAt key = u.disk.tree.fileAt key) ↔
      (httpd ≠ none → u.disk.tree.Writable (Drive.key (vhostPath env u.db siteId)) →
        u.disk.get (vhostPath env u.db siteId) = some (madeText env u.db siteId)) := by
  by_cases hnone : httpd = none
  · simp [settle, hnone]
  · have hdisk : (settle env siteId httpd u).disk =
        ((u.disk.put (vhostOf env u.db siteId).sslKeyFile (getById u.db siteId).sslKey).put
          (vhostOf env u.db siteId).sslCrtFile (getById u.db siteId).sslCrt).put
            (vhostPath env u.db siteId) (madeText env u.db siteId) := by
      rw [settle, if_neg hnone, make_eq]
      rfl
    set d := (u.disk.put (vhostOf env u.db siteId).sslKeyFile (getById u.db siteId).sslKey).put
      (vhostOf env u.db siteId).sslCrtFile (getById u.db siteId).sslCrt with hd
    have hothers : ∀ key, IsVhost key → d.tree.fileAt key = u.disk.tree.fileAt key := by
      intro key hkey
      have hcrt : key ≠ Drive.key (vhostOf env u.db siteId).sslCrtFile :=
        ne_of_isVhost hkey (.inr rfl) _ _
      have hkeyFile : key ≠ Drive.key (vhostOf env u.db siteId).sslKeyFile :=
        ne_of_isVhost hkey (.inl rfl) _ _
      rw [hd, Drive.fileAt_put_of_ne hcrt, Drive.fileAt_put_of_ne hkeyFile]
    have hself := isVhost_vhostPath env u.db siteId
    have hwritable : d.tree.Writable (Drive.key (vhostPath env u.db siteId)) ↔
        u.disk.tree.Writable (Drive.key (vhostPath env u.db siteId)) := by
      rw [hd, Drive.writable_put, Drive.writable_put]
    have hget : d.get (vhostPath env u.db siteId) = u.disk.get (vhostPath env u.db siteId) :=
      Drive.get_congr (hothers _ hself)
    rw [hdisk, ← hwritable, ← hget]
    constructor
    · intro h _
      rw [← Drive.fileAt_put_self_eq_iff, h _ hself, hothers _ hself]
    · intro h key hkey
      by_cases hsame : key = Drive.key (vhostPath env u.db siteId)
      · rw [hsame, Drive.fileAt_put_self_eq_iff.mpr (h hnone), hothers _ hself]
      · rw [Drive.fileAt_put_of_ne hsame, hothers key hkey]

end Site

end WampManager
