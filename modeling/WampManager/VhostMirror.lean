/-
# The vhost directory against the site table

The `conf\\vhosts` directory of a web server is meant to list `name.vhost`
exactly for the sites assigned to that server. The files are written when a
site is made and deleted by the pattern `name.*` when it leaves the server, so
the correspondence breaks when a site is renamed without leaving, when the
pattern finds the file of another site or misses its own, and when two names
differ in capitals only. A run whose steps avoid these keeps it.
-/

import WampManager.Lib.Transition
import WampManager.SitePaths

namespace WampManager

namespace Site

/-! ## Listing -/

/-- The extension of a virtual host file. -/
def vhostExt : Text := ".vhost".toList

/-- The directory lists the virtual host file of a name. -/
def Listed (d : Drive) (dir : FilePath) (name : Text) : Prop :=
  ∃ key file, d.tree.fileAt key = some file ∧ key ≠ [] ∧ key.dropLast = dir ∧
    file.spelled = name ++ vhostExt

/-- Where the virtual host file of a name lies in a directory. -/
def vhostKey (dir : FilePath) (name : Text) : FilePath := dir ++ [Text.lower name ++ vhostExt]

variable {d : Drive} {dir : FilePath}

theorem listed_iff {name : Text} :
    Listed d dir name ↔
      ∃ content, d.tree.fileAt (vhostKey dir name) = some ⟨name ++ vhostExt, content⟩ := by
  constructor
  · rintro ⟨key, ⟨spelled, content⟩, hfile, hne, rfl, rfl⟩
    have hlast := d.spelled_key key _ hfile
    have hsplit := List.dropLast_append_getLast? _ hlast
    refine ⟨content, ?_⟩
    rw [vhostKey, ← hfile]
    rw [Text.lower_append] at hsplit
    exact congrArg _ hsplit
  · rintro ⟨content, hfile⟩
    exact ⟨_, _, hfile, by simp [vhostKey], by simp [vhostKey], rfl⟩

theorem vhostKey_eq_iff {name other : Text} :
    vhostKey dir name = vhostKey dir other ↔ Text.lower name = Text.lower other := by
  simp [vhostKey]

/-- Writing anywhere else changes no listing. -/
theorem listed_put_of_ne {path : Text} (hkey : ∀ name, vhostKey dir name ≠ Drive.key path)
    (content name : Text) : Listed (d.put path content) dir name ↔ Listed d dir name := by
  rw [listed_iff, listed_iff, Drive.fileAt_put_of_ne (hkey name)]

/-- Files of virtual hosts are spelled with the extension as it stands. -/
def Proper (d : Drive) (dir : FilePath) : Prop :=
  ∀ name file, d.tree.fileAt (vhostKey dir name) = some file →
    ∃ other, file.spelled = other ++ vhostExt

/-- Writing the virtual host file of a name lists that name, if no listed name
differs from it in capitals only. -/
theorem listed_put_self {path name : Text} (hkey : Drive.key path = vhostKey dir name)
    (hname : Drive.nameOf path = name ++ vhostExt) (hdir : d.tree.isDir dir = true)
    (hfree : d.tree.isDir (vhostKey dir name) = false) (hproper : Proper d dir)
    (hclash : ∀ other, Listed d dir other → Text.lower other = Text.lower name → other = name)
    (content : Text) :
    (∀ other, Listed (d.put path content) dir other ↔ Listed d dir other ∨ other = name) ∧
      Proper (d.put path content) dir := by
  have hwritable : d.tree.Writable (Drive.key path) := by
    rw [hkey]
    refine ⟨by simp [vhostKey], ?_, ?_⟩
    · rw [vhostKey, List.dropLast_concat]
      exact d.tree.isDir_iff.mp hdir
    · intro hnode
      rw [d.tree.isDir_iff.mpr hnode] at hfree
      cases hfree
  have hspelled : (d.stored path content).spelled = name ++ vhostExt := by
    unfold Drive.stored
    cases hold : d.tree.fileAt (Drive.key path) with
    | none => exact hname
    | some old =>
        rw [hkey] at hold
        obtain ⟨other, hother⟩ := hproper name old hold
        have hlast := d.spelled_key _ _ hold
        rw [vhostKey, List.getLast?_concat, Option.some.injEq, hother, Text.lower_append] at hlast
        have hlower : Text.lower other = Text.lower name :=
          (List.append_cancel_right hlast).symm
        have hlisted : Listed d dir other := by
          rw [listed_iff, vhostKey_eq_iff.mpr hlower, hold]
          exact ⟨old.content, by rw [← hother]⟩
        simp only
        rw [hother, hclash other hlisted hlower]
  have hself := Drive.fileAt_put_self hwritable content
  constructor
  · intro other
    by_cases hlower : Text.lower other = Text.lower name
    · rw [listed_iff, vhostKey_eq_iff.mpr hlower, ← hkey, hself]
      constructor
      · rintro ⟨content', heq⟩
        have hsame := congrArg StoredFile.spelled (Option.some.inj heq)
        rw [hspelled] at hsame
        exact .inr (List.append_cancel_right hsame).symm
      · intro h
        have heq : other = name := h.elim (fun hl => hclash other hl hlower) id
        exact ⟨(d.stored path content).content, by rw [heq, ← hspelled]⟩
    · have hne : vhostKey dir other ≠ Drive.key path := by
        rw [hkey]
        exact fun h => hlower (vhostKey_eq_iff.mp h)
      rw [listed_iff, Drive.fileAt_put_of_ne hne, ← listed_iff]
      refine ⟨.inl, fun h => h.resolve_right ?_⟩
      rintro rfl
      exact hlower rfl
  · intro other file hfile
    by_cases hlower : Text.lower other = Text.lower name
    · rw [vhostKey_eq_iff.mpr hlower, ← hkey, hself, Option.some.injEq] at hfile
      exact ⟨name, by rw [← hfile, hspelled]⟩
    · have hne : vhostKey dir other ≠ Drive.key path := by
        rw [hkey]
        exact fun h => hlower (vhostKey_eq_iff.mp h)
      rw [Drive.fileAt_put_of_ne hne] at hfile
      exact hproper other file hfile

/-- The deletion pattern of one name finds the virtual host file of another. -/
def finds (name other : Text) : Bool :=
  Glob.matchSegment (name ++ ['.', '*']) (other ++ vhostExt)

/-! ## Names that can stand in a directory -/

/-- Device names, which no file can have in front of its first dot. -/
def reserved : List Text :=
  (["con", "prn", "aux", "nul"] ++
    ["com", "lpt"].flatMap fun port => (List.range 10).map fun n => port ++ toString n).map
      String.toList

/-- The characters of file names. -/
def isFileChar (c : Char) : Bool := 32 ≤ c.toNat && c ∉ "<>:\"|?*/\\".toList

/-- A name under which files can be made. -/
def CanName (name : Text) : Prop :=
  (∀ c ∈ name, isFileChar c) ∧ Text.lower (name.takeWhile (· ≠ '.')) ∉ reserved

instance (name : Text) : Decidable (CanName name) := inferInstanceAs (Decidable (_ ∧ _))

theorem sep_of_canName {name : Text} (h : CanName name) : ∀ c ∈ name, FilePath.isSep c = false := by
  intro c hc
  have hchar := h.1 c hc
  have hseps : isFileChar '/' = false ∧ isFileChar '\\' = false := by decide
  simp only [FilePath.isSep, Bool.or_eq_false_iff, beq_eq_false_iff_ne]
  constructor
  · rintro rfl
    rw [hseps.1] at hchar
    cases hchar
  · rintro rfl
    rw [hseps.2] at hchar
    cases hchar

theorem fileName_of_canName {name ext : Text} (h : CanName name) (hext : ext ∈ extensions) :
    FileName (name ++ ext) :=
  fileName_append (sep_of_canName h) (extensions_spec hext).1 (extensions_spec hext).2.1

/-! ## The operations on a listing -/

variable {env : Env} {db : Database} {instanceId : ℤ}

/-- Deleting the configuration files of a site takes the names its pattern finds
off the list of its own server. -/
theorem listed_del (hnamed : InstancesNamed db) (hliteral : Glob.Literal env.wampPath)
    (hinstance : instanceName db (some instanceId) ≠ []) {site : SiteRow}
    (hname : CanName site.name) (d : Drive) (other : Text) :
    Listed (d.del (configs env db site)) (dirKey env db (some instanceId)) other ↔
      Listed d (dirKey env db (some instanceId)) other ∧
        ¬ (site.httpdInstanceId = some instanceId ∧ finds site.name other = true) := by
  have hdir : Glob.matchPath (dirKey env db site.httpdInstanceId)
      (dirKey env db (some instanceId)) = true ↔ site.httpdInstanceId = some instanceId := by
    constructor
    · exact server_of_matchPath hnamed hinstance
    · intro heq
      rw [heq, Glob.matchPath_literal (literal_dirKey hnamed hliteral _)]
  have hfound : ∀ content, Drive.globMatches (configs env db site)
      (vhostKey (dirKey env db (some instanceId)) other) ⟨other ++ vhostExt, content⟩ = true ↔
        site.httpdInstanceId = some instanceId ∧ finds site.name other = true := by
    intro content
    have hcrosses := crosses_configs hnamed hliteral (sep_of_canName hname)
    rw [globMatches_configs (sep_of_canName hname), vhostKey, List.dropLast_concat, hdir,
      and_iff_right hcrosses]
    rfl
  rw [listed_iff, listed_iff, Drive.fileAt_del]
  constructor
  · rintro ⟨content, hfile⟩
    obtain ⟨hold, hkept⟩ := Option.filter_eq_some_iff.mp hfile
    refine ⟨⟨content, hold⟩, fun hgone => ?_⟩
    rw [(hfound content).mpr hgone] at hkept
    cases hkept
  · rintro ⟨⟨content, hold⟩, hkept⟩
    refine ⟨content, ?_⟩
    rw [hold, Option.filter_some, if_pos]
    have hmiss := fun h => hkept ((hfound content).mp h)
    simpa using hmiss

/-- The files of a site are written where no virtual host file of an instance
lies, but for its own on its own server. -/
theorem vhostKey_ne (hnamed : InstancesNamed db)
    (hinstance : instanceName db (some instanceId) ≠ []) {server : Option ℤ} {name ext : Text}
    (hext : ext ∈ extensions) (hother : server ≠ some instanceId ∨ ext ≠ vhostExt)
    (other : Text) :
    vhostKey (dirKey env db (some instanceId)) other ≠
      dirKey env db server ++ [Text.lower (name ++ ext)] := by
  intro heq
  have hlower := (extensions_spec hext).2.2.1
  obtain ⟨hdir, hlast⟩ := List.append_inj' heq rfl
  rw [Text.lower_append, hlower, List.cons.injEq] at hlast
  rcases hother with hserver | hdiff
  · exact hserver (dirKey_injective hnamed hinstance hdir)
  · have hname := append_extension_inj (by decide) hext hlast.1
    rw [hname] at hlast
    exact hdiff (List.append_cancel_left hlast.1).symm

/-- Making the files of a site lists it on its own server and nowhere else. -/
theorem listed_settle {u : World} {siteId : ℤ} {httpd : Option ℤ} {site : SiteRow}
    (hnamed : InstancesNamed u.db) (hinstance : instanceName u.db (some instanceId) ≠ [])
    (hsite : getById u.db siteId = site) (hserver : site.httpdInstanceId = httpd)
    (hname : CanName site.name)
    (hdir : u.disk.tree.isDir (dirKey env u.db (some instanceId)) = true)
    (hfree : ∀ s, u.disk.tree.isDir (dirKey env u.db (some instanceId) ++ [s]) = false)
    (hproper : Proper u.disk (dirKey env u.db (some instanceId)))
    (hclash : httpd = some instanceId → ∀ other,
      Listed u.disk (dirKey env u.db (some instanceId)) other →
        Text.lower other = Text.lower site.name → other = site.name) :
    (∀ other, Listed (settle env siteId httpd u).disk (dirKey env u.db (some instanceId)) other ↔
      Listed u.disk (dirKey env u.db (some instanceId)) other ∨
        (httpd = some instanceId ∧ other = site.name)) ∧
      Proper (settle env siteId httpd u).disk (dirKey env u.db (some instanceId)) := by
  set dir := dirKey env u.db (some instanceId) with hdirKey
  by_cases hnone : httpd = none
  · rw [settle, if_pos hnone]
    simp [hnone, hproper]
  · rw [settle, if_neg hnone]
    obtain ⟨keyPath, crtPath, vhostPath, text, hdisk, hkey, hcrt, hvhost, hspelled⟩ :=
      disk_make env hsite fun ext hext => fileName_of_canName hname hext
    rw [hdisk]
    -- the key and the certificate are no virtual host files
    set d := (u.disk.put keyPath site.sslKey).put crtPath site.sslCrt with hd
    have hkeyNe : ∀ other, vhostKey dir other ≠ Drive.key keyPath := by
      rw [hkey]
      exact vhostKey_ne hnamed hinstance (by decide) (.inr (by decide))
    have hcrtNe : ∀ other, vhostKey dir other ≠ Drive.key crtPath := by
      rw [hcrt]
      exact vhostKey_ne hnamed hinstance (by decide) (.inr (by decide))
    have hfile : ∀ other, d.tree.fileAt (vhostKey dir other) =
        u.disk.tree.fileAt (vhostKey dir other) := by
      intro other
      rw [hd, Drive.fileAt_put_of_ne (hcrtNe other), Drive.fileAt_put_of_ne (hkeyNe other)]
    have hlisted : ∀ other, Listed d dir other ↔ Listed u.disk dir other := by
      intro other
      rw [listed_iff, listed_iff, hfile]
    have hproper' : Proper d dir := by
      intro other file hother
      rw [hfile] at hother
      exact hproper other file hother
    by_cases hown : httpd = some instanceId
    · have hisDir : ∀ k, d.tree.isDir k = u.disk.tree.isDir k := by
        intro k
        rw [hd, Drive.isDir_put, Drive.isDir_put]
      have hkey' : Drive.key vhostPath = vhostKey dir site.name := by
        rw [hvhost, hserver, hown, vhostKey, Text.lower_append]
        rfl
      obtain ⟨hput, hputProper⟩ := listed_put_self hkey' hspelled (by rwa [hisDir])
        (by rw [hisDir]; exact hfree _) hproper'
        (fun other hother => hclash hown other ((hlisted other).mp hother)) text
      refine ⟨fun other => ?_, hputProper⟩
      rw [hput, hlisted]
      simp [hown]
    · have hvhostNe : ∀ other, vhostKey dir other ≠ Drive.key vhostPath := by
        rw [hvhost]
        exact vhostKey_ne hnamed hinstance (by decide) (.inl (hserver ▸ hown))
      refine ⟨fun other => ?_, fun other file hother => ?_⟩
      · rw [listed_put_of_ne hvhostNe, hlisted]
        simp [hown]
      · rw [Drive.fileAt_put_of_ne (hvhostNe other)] at hother
        exact hproper' other file hother

/-! ## Directories -/

/-- Directories deep below the root directory are none of a site request's
business. -/
theorem isDir_makeRoot {w : World} {name root : Text} (hname : CanName name) {k : FilePath}
    (hdeep : (FilePath.resolve env.wampPath).length + 2 < k.length) :
    (makeRoot env name root w).disk.tree.isDir k = w.disk.tree.isDir k := by
  unfold makeRoot
  split
  · refine Drive.isDir_mkdir_of_ne ?_
    rintro rfl
    have hle := length_siteKey_le env (sep_of_canName hname)
    omega
  · rfl

theorem fileAt_makeRoot (w : World) (name root : Text) (k : FilePath) :
    (makeRoot env name root w).disk.tree.fileAt k = w.disk.tree.fileAt k := by
  unfold makeRoot
  split
  · exact Drive.fileAt_mkdir _ _
  · rfl

theorem isDir_settle (siteId : ℤ) (httpd : Option ℤ) (u : World) (k : FilePath) :
    (settle env siteId httpd u).disk.tree.isDir k = u.disk.tree.isDir k := by
  unfold settle
  split
  · rfl
  · unfold make
    simp only [World.put, World.editHosts, Drive.isDir_put]

theorem isDir_leave (existing : SiteRow) (httpd : Option ℤ) (u : World) (k : FilePath) :
    (leave env existing httpd u).disk.tree.isDir k = u.disk.tree.isDir k := by
  unfold leave
  split
  · exact Drive.isDir_del _ _
  · rfl

/-! ## The correspondence -/

/-- Another site of that name is assigned to the server. -/
def Shares (db : Database) (siteId server : ℤ) (name : Text) : Prop :=
  ∃ id, id ≠ siteId ∧ (getById db id).httpdInstanceId = some server ∧
    (getById db id).name = name

/-- No other name on the server differs from this one in capitals only. -/
def NoClash (db : Database) (siteId server : ℤ) (name : Text) : Prop :=
  ∀ other, Shares db siteId server other → Text.lower other = Text.lower name → other = name

/-- The deletion pattern of a site finds its own file and no other on the server. -/
def Withdraws (db : Database) (siteId server : ℤ) (name : Text) : Prop :=
  (∀ other, Shares db siteId server other → finds name other = false) ∧
    (finds name name = true ∨ Shares db siteId server name)

/-- The steps that keep the correspondence. -/
def KeepsVhosts (db : Database) : Request → Prop
  | .create name _ _ httpd _ _ =>
      CanName name ∧ ∀ server, httpd = some server → NoClash db db.sites.nextId server name
  | .update siteId name _ _ httpd _ _ =>
      CanName name ∧ (∀ server, httpd = some server → NoClash db siteId server name) ∧
        ∀ server, (getById db siteId).httpdInstanceId = some server →
          if httpd = some server then
            name = (getById db siteId).name ∨ Shares db siteId server (getById db siteId).name
          else Withdraws db siteId server (getById db siteId).name
  | .delete siteId =>
      ∀ server, (getById db siteId).httpdInstanceId = some server →
        Withdraws db siteId server (getById db siteId).name
  | .uninstall _ _ => False

/-- The correspondence for one web server, with what the next step needs. -/
structure Mirrored (env : Env) (instanceId : ℤ) (w : World) : Prop where
  named : InstancesNamed w.db
  installed : instanceName w.db (some instanceId) ≠ []
  dir : w.disk.tree.isDir (dirKey env w.db (some instanceId)) = true
  free : ∀ s, w.disk.tree.isDir (dirKey env w.db (some instanceId) ++ [s]) = false
  proper : Proper w.disk (dirKey env w.db (some instanceId))
  names : ∀ id, CanName (getById w.db id).name
  mirror : ∀ name, Listed w.disk (dirKey env w.db (some instanceId)) name ↔
    ∃ id, (getById w.db id).httpdInstanceId = some instanceId ∧ (getById w.db id).name = name

namespace Mirrored

variable {w : World} (h : Mirrored env instanceId w)
include h

/-- What is listed, seen from one site: the names of the others and its own. -/
theorem listed_iff_shares (siteId : ℤ) (name : Text) :
    Listed w.disk (dirKey env w.db (some instanceId)) name ↔
      Shares w.db siteId instanceId name ∨
        ((getById w.db siteId).httpdInstanceId = some instanceId ∧
          (getById w.db siteId).name = name) := by
  rw [h.mirror]
  constructor
  · rintro ⟨id, hserver, hname⟩
    by_cases hid : id = siteId
    · exact .inr (hid ▸ ⟨hserver, hname⟩)
    · exact .inl ⟨id, hid, hserver, hname⟩
  · rintro (⟨id, -, hserver, hname⟩ | ⟨hserver, hname⟩)
    · exact ⟨id, hserver, hname⟩
    · exact ⟨siteId, hserver, hname⟩

theorem deep {k : FilePath} (hk : dirKey env w.db (some instanceId) <+: k) :
    (FilePath.resolve env.wampPath).length + 2 < k.length := by
  have hle := hk.length_le
  rw [length_dirKey h.named h.installed] at hle
  omega

/-- The list once the configuration files of a site that is there are deleted. -/
theorem listed_withdraw (hliteral : Glob.Literal env.wampPath) {siteId : ℤ} (d : Drive)
    (hd : ∀ k, d.tree.fileAt k = w.disk.tree.fileAt k)
    (hwithdraws : ∀ server, (getById w.db siteId).httpdInstanceId = some server →
      Withdraws w.db siteId server (getById w.db siteId).name) (name : Text) :
    Listed (d.del (configs env w.db (getById w.db siteId)))
        (dirKey env w.db (some instanceId)) name ↔ Shares w.db siteId instanceId name := by
  have hsame : Listed d (dirKey env w.db (some instanceId)) name ↔
      Listed w.disk (dirKey env w.db (some instanceId)) name := by
    rw [listed_iff, listed_iff, hd]
  rw [listed_del h.named hliteral h.installed (h.names siteId), hsame,
    h.listed_iff_shares siteId]
  constructor
  · rintro ⟨hshares | ⟨hserver, rfl⟩, hkept⟩
    · exact hshares
    · -- its own file is found by the pattern, unless another site shares the name
      rcases (hwithdraws instanceId hserver).2 with hfinds | hshares
      · exact absurd ⟨hserver, hfinds⟩ hkept
      · exact hshares
  · intro hshares
    refine ⟨.inl hshares, fun hgone => ?_⟩
    have hmiss := (hwithdraws instanceId hgone.1).1 name hshares
    rw [hgone.2] at hmiss
    cases hmiss

end Mirrored

/-- Making the files of a site completes the correspondence. -/
theorem mirrored_settle {u : World} {siteId : ℤ} {httpd : Option ℤ} {site : SiteRow}
    (hnamed : InstancesNamed u.db) (hinstalled : instanceName u.db (some instanceId) ≠ [])
    (hsite : getById u.db siteId = site) (hserver : site.httpdInstanceId = httpd)
    (hnames : ∀ id, CanName (getById u.db id).name)
    (hdir : u.disk.tree.isDir (dirKey env u.db (some instanceId)) = true)
    (hfree : ∀ s, u.disk.tree.isDir (dirKey env u.db (some instanceId) ++ [s]) = false)
    (hproper : Proper u.disk (dirKey env u.db (some instanceId)))
    (hlisted : ∀ name, Listed u.disk (dirKey env u.db (some instanceId)) name →
      Shares u.db siteId instanceId name ∨
        (httpd = some instanceId ∧ name = site.name))
    (hshares : ∀ name, Shares u.db siteId instanceId name →
      Listed u.disk (dirKey env u.db (some instanceId)) name)
    (hclash : ∀ server, httpd = some server → NoClash u.db siteId server site.name) :
    Mirrored env instanceId (settle env siteId httpd u) := by
  have hname : CanName site.name := hsite ▸ hnames siteId
  obtain ⟨hmade, hproper'⟩ := listed_settle hnamed hinstalled hsite hserver hname hdir hfree
    hproper fun hown other hother hlower => by
      rcases hlisted other hother with hs | ⟨-, heq⟩
      · exact hclash instanceId hown other hs hlower
      · exact heq
  have hdb := db_settle env siteId httpd u
  constructor
  · rwa [hdb]
  · rwa [hdb]
  · rwa [hdb, isDir_settle]
  · intro s
    rw [hdb, isDir_settle]
    exact hfree s
  · rwa [hdb]
  · rwa [hdb]
  · intro name
    rw [hdb, hmade]
    constructor
    · rintro (hold | ⟨hown, rfl⟩)
      · rcases hlisted name hold with ⟨id, -, hs, hn⟩ | ⟨hown, rfl⟩
        · exact ⟨id, hs, hn⟩
        · exact ⟨siteId, by rw [hsite, hserver, hown], by rw [hsite]⟩
      · exact ⟨siteId, by rw [hsite, hserver, hown], by rw [hsite]⟩
    · rintro ⟨id, hs, rfl⟩
      by_cases hid : id = siteId
      · rw [hid, hsite] at hs ⊢
        exact .inr ⟨hserver.symm.trans hs, rfl⟩
      · exact .inl (hshares _ ⟨id, hid, hs, rfl⟩)

/-! ## One lemma for each request -/

theorem shares_congr {db db' : Database} {siteId server : ℤ} {name : Text}
    (hothers : ∀ id ≠ siteId, getById db' id = getById db id) :
    Shares db' siteId server name ↔ Shares db siteId server name := by
  refine exists_congr fun id => and_congr_right fun hid => ?_
  rw [hothers id hid]

section Steps

variable {w w' : World}

theorem mirrored_create {name aliases root : Text} {httpd php : Option ℤ} {ca : Certificate}
    (h : Mirrored env instanceId w)
    (hkeeps : KeepsVhosts w.db (.create name aliases root httpd php ca))
    (hstep : create env name aliases root httpd php ca w = .done w') :
    Mirrored env instanceId w' := by
  obtain ⟨-, rfl⟩ := create_done hstep
  obtain ⟨hname, hclash⟩ := hkeeps
  set siteId := w.db.sites.nextId with hsiteId
  set row : SiteRow := ⟨name, ca.key, ca.crt, rootOf env name root, httpd, php⟩ with hrow
  set db := createRows row (stringToCleanAliasArray aliases) w.db with hdb
  have hsite : getById db siteId = row := by
    rw [hdb, getById_createRows, if_pos rfl]
  have hothers : ∀ id ≠ siteId, getById db id = getById w.db id := fun id hid => by
    rw [hdb, getById_createRows, if_neg hid]
  have hnew : (getById w.db siteId).httpdInstanceId ≠ some instanceId := by
    rw [getById, Table.find?_nextId]
    intro hserver
    cases hserver
  have hfile : ∀ k, (makeRoot env name root w).disk.tree.fileAt k = w.disk.tree.fileAt k :=
    fileAt_makeRoot w name root
  have hlisted : ∀ other, Listed (makeRoot env name root w).disk
      (dirKey env w.db (some instanceId)) other ↔ Shares w.db siteId instanceId other := by
    intro other
    rw [listed_iff, hfile, ← listed_iff, h.listed_iff_shares siteId]
    simp [hnew]
  refine mirrored_settle h.named h.installed hsite rfl ?_ ?_ ?_ ?_ ?_ ?_ ?_
  · intro id
    by_cases hid : id = siteId
    · rw [hid]
      exact hsite ▸ hname
    · exact (hothers id hid) ▸ h.names id
  · exact (isDir_makeRoot hname (h.deep (List.prefix_refl _))).trans h.dir
  · exact fun s => (isDir_makeRoot hname (h.deep (List.prefix_append _ [s]))).trans (h.free s)
  · intro other file hother
    exact h.proper other file ((hfile _).symm.trans hother)
  · exact fun other hother => .inl ((shares_congr hothers).mpr ((hlisted other).mp hother))
  · exact fun other hother => (hlisted other).mpr ((shares_congr hothers).mp hother)
  · exact fun server hserver other hother =>
      hclash server hserver other ((shares_congr hothers).mp hother)

theorem mirrored_update {siteId : ℤ} {name aliases root : Text} {httpd php : Option ℤ}
    {ca : Certificate} (hliteral : Glob.Literal env.wampPath) (h : Mirrored env instanceId w)
    (hsiteId : siteId ∈ w.db.sites.rows.map Prod.fst)
    (hkeeps : KeepsVhosts w.db (.update siteId name aliases root httpd php ca))
    (hstep : update env siteId name aliases root httpd php ca w = .done w') :
    Mirrored env instanceId w' := by
  obtain rfl := update_done hstep
  obtain ⟨hname, hclash, hmoves⟩ := hkeeps
  set existing := getById w.db siteId with hexisting
  set row : SiteRow := ⟨name, ca.key, ca.crt, Text.rtrimChar '\\' (rootOf env name root),
    httpd, php⟩ with hrow
  set db := updateRows siteId row (stringToCleanAliasArray aliases) w.db with hdb
  set u : World := { (makeRoot env name root w).editHosts
    (Hosts.removeAll env.preg (hostnames w.db siteId)) with db := db } with hu
  have hsite : getById db siteId = row := by
    rw [hdb, getById_updateRows _ _ _ _ _ hsiteId, if_pos rfl]
  have hothers : ∀ id ≠ siteId, getById db id = getById w.db id := fun id hid => by
    rw [hdb, getById_updateRows _ _ _ _ _ hsiteId, if_neg hid]
  have hfile : ∀ k, u.disk.tree.fileAt k = w.disk.tree.fileAt k := fileAt_makeRoot w name root
  have hlisted : ∀ other, Listed (leave env existing httpd u).disk
      (dirKey env w.db (some instanceId)) other ↔ Shares w.db siteId instanceId other ∨
        (¬ Leaves existing httpd ∧ existing.httpdInstanceId = some instanceId ∧
          existing.name = other) := by
    intro other
    unfold leave
    by_cases hleaves : Leaves existing httpd
    · rw [if_pos hleaves]
      refine (h.listed_withdraw hliteral u.disk hfile (fun server hserver => ?_) other).trans
        (by simp [hleaves])
      have hmove := hmoves server hserver
      rwa [if_neg (fun heq => hleaves.2 (heq.trans hserver.symm))] at hmove
    · rw [if_neg hleaves, listed_iff, hfile, ← listed_iff, h.listed_iff_shares siteId,
        ← hexisting]
      simp [hleaves]
  have hdir : ∀ k, dirKey env w.db (some instanceId) <+: k →
      (leave env existing httpd u).disk.tree.isDir k = w.disk.tree.isDir k := by
    intro k hk
    rw [isDir_leave]
    exact isDir_makeRoot hname (h.deep hk)
  have hleaveDb : (leave env existing httpd u).db = db := db_leave _ _ _ _
  have hrows : ∀ id, CanName (getById db id).name := by
    intro id
    by_cases hid : id = siteId
    · rw [hid, hsite]
      exact hname
    · rw [hothers id hid]
      exact h.names id
  refine mirrored_settle ?_ ?_ ((congrArg (getById · siteId) hleaveDb).trans hsite) rfl ?_ ?_ ?_ ?_ ?_ ?_ ?_
  · rw [hleaveDb]
    exact h.named
  · rw [hleaveDb]
    exact h.installed
  · rwa [hleaveDb]
  · rw [hleaveDb]
    exact (hdir _ (List.prefix_refl _)).trans h.dir
  · intro s
    rw [hleaveDb]
    exact (hdir _ (List.prefix_append _ [s])).trans (h.free s)
  · rw [hleaveDb]
    intro other file hother
    unfold leave at hother
    split at hother
    · change (u.disk.del _).tree.fileAt _ = _ at hother
      rw [Drive.fileAt_del] at hother
      exact h.proper other file ((hfile _).symm.trans (Option.filter_eq_some_iff.mp hother).1)
    · exact h.proper other file ((hfile _).symm.trans hother)
  · rw [hleaveDb]
    intro other hother
    rw [shares_congr hothers]
    rcases (hlisted other).mp hother with hshares | ⟨hstays, hserver, rfl⟩
    · exact .inl hshares
    · -- the site stays on this server, so its old name stays only if somebody has it
      have hsame : httpd = some instanceId := by
        by_contra hne
        exact hstays ⟨by simp [hserver], by rwa [hserver]⟩
      have hmove := hmoves instanceId hserver
      rw [if_pos hsame] at hmove
      exact hmove.symm.imp_right fun heq => ⟨hsame, heq.symm⟩
  · rw [hleaveDb]
    exact fun other hother => (hlisted other).mpr (.inl ((shares_congr hothers).mp hother))
  · rw [hleaveDb]
    exact fun server hserver other hother =>
      hclash server hserver other ((shares_congr hothers).mp hother)

theorem mirrored_delete {siteId : ℤ} (hliteral : Glob.Literal env.wampPath)
    (h : Mirrored env instanceId w) (hkeeps : KeepsVhosts w.db (.delete siteId))
    (hstep : delete env siteId w = .done w') : Mirrored env instanceId w' := by
  obtain rfl := delete_done hstep
  have hsite : getById (deleteRows siteId w.db) siteId = missing := by
    rw [getById_deleteRows, if_pos rfl]
  have hothers : ∀ id ≠ siteId, getById (deleteRows siteId w.db) id = getById w.db id :=
    fun id hid => by rw [getById_deleteRows, if_neg hid]
  have hlisted := h.listed_withdraw hliteral w.disk (fun _ => rfl) hkeeps
  constructor
  · exact h.named
  · exact h.installed
  · exact (Drive.isDir_del _ _).trans h.dir
  · exact fun s => (Drive.isDir_del _ _).trans (h.free s)
  · intro other file hother
    change (w.disk.del _).tree.fileAt _ = _ at hother
    rw [Drive.fileAt_del] at hother
    exact h.proper other file (Option.filter_eq_some_iff.mp hother).1
  · intro id
    by_cases hid : id = siteId
    · rw [hid]
      exact hsite ▸ (by decide : CanName missing.name)
    · exact (hothers id hid) ▸ h.names id
  · intro name
    refine (hlisted name).trans ?_
    constructor
    · rintro ⟨id, hid, hserver, hname⟩
      exact ⟨id, (hothers id hid) ▸ hserver, (hothers id hid) ▸ hname⟩
    · rintro ⟨id, hserver, hname⟩
      have hid : id ≠ siteId := by
        rintro rfl
        rw [hsite] at hserver
        cases hserver
      rw [hothers id hid] at hserver hname
      exact ⟨id, hid, hserver, hname⟩

/-- One step keeps the correspondence. -/
theorem mirrored_step {request : Request} (hliteral : Glob.Literal env.wampPath)
    (h : Mirrored env instanceId w) (hkeeps : KeepsVhosts w.db request)
    (hstep : Step env w request w') : Mirrored env instanceId w' := by
  obtain ⟨haddressed, hdone⟩ := hstep
  cases request with
  | create name aliases root httpd php ca => exact mirrored_create h hkeeps hdone
  | update siteId name aliases root httpd php ca =>
      exact mirrored_update hliteral h haddressed hkeeps hdone
  | delete siteId => exact mirrored_delete hliteral h hkeeps hdone
  | uninstall instanceId removable => exact hkeeps.elim

end Steps

/-! ## Runs -/

/-- A web server as the install leaves it: named, with an empty directory for
virtual hosts. -/
structure FreshServer (env : Env) (w : World) (instanceId : ℤ) : Prop where
  row : ∃ row, (instanceId, row) ∈ w.db.instances.rows ∧ row.name ≠ none
  dir : w.disk.tree.isDir (dirKey env w.db (some instanceId)) = true
  empty : ∀ s, w.disk.tree.node (dirKey env w.db (some instanceId) ++ [s]) = none

theorem FreshServer.mirrored {w : World} (h : FreshServer env w instanceId)
    (hstart : NoSites w.db) (hnamed : InstancesNamed w.db) : Mirrored env instanceId w := by
  obtain ⟨row, hrow, hname⟩ := h.row
  have hnone : ∀ id, getById w.db id = missing := by
    intro id
    have hfind : w.db.sites.find? id = none := by
      rw [Table.find?_eq_none, hstart.1]
      exact List.not_mem_nil
    rw [getById, hfind]
    rfl
  have hnoFile : ∀ name, w.disk.tree.fileAt
      (vhostKey (dirKey env w.db (some instanceId)) name) = none := by
    intro name
    rw [FileTree.fileAt, vhostKey, h.empty]
  refine ⟨hnamed, instanceName_ne_nil hnamed hrow hname, h.dir, ?_, ?_, ?_, ?_⟩
  · intro s
    rw [FileTree.isDir, h.empty]
  · intro name file hfile
    rw [hnoFile] at hfile
    cases hfile
  · intro id
    rw [hnone]
    decide
  · intro name
    rw [listed_iff, hnoFile]
    simp [hnone, missing]

theorem freshServer_sample : FreshServer sampleEnv sampleWorld 1 := by
  have hrow : (1, ⟨1, .null, some "1-apache_2.4_x64".toList⟩) ∈ sampleDatabase.instances.rows :=
    List.mem_cons_self
  refine ⟨⟨_, hrow, by decide⟩, by decide, fun s => ?_⟩
  -- no directory of the deployment is as long as an entry of this one
  have hmiss : ∀ p : FilePath, p.length ≤ 6 →
      ¬ dirKey sampleEnv sampleDatabase (some 1) ++ [s] <+: p := by
    intro p hp hbegin
    have hle := hbegin.length_le.trans hp
    have hlength : (dirKey sampleEnv sampleDatabase (some 1)).length = 6 := by decide
    rw [List.length_append, List.length_singleton] at hle
    omega
  change (((Drive.empty.tree.mkdirs (Drive.key "C:\\wamp\\sites".toList)).mkdirs
    (dirKey sampleEnv sampleDatabase (some 1))).mkdirs
      (dirKey sampleEnv sampleDatabase (some 2))).node
        (dirKey sampleEnv sampleDatabase (some 1) ++ [s]) = none
  rw [FileTree.node_mkdirs_of_not_prefix _ (hmiss _ (by decide)),
    FileTree.node_mkdirs_of_not_prefix _ (hmiss _ (by decide)),
    FileTree.node_mkdirs_of_not_prefix _ (hmiss _ (by decide))]
  simp [Drive.empty, FileTree.empty]

end Site

end WampManager
