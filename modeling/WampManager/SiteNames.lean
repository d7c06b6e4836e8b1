/-
# The hostnames of a site

The name of a site and `alias.name` for each alias are built in four places: the
certificate, the two blocks of the virtual host and the hosts file. The
certificate is made from the posted aliases, the other three from the stored
ones; so the four sets agree exactly if the alias table held nothing but posted
aliases for the site, and its server has an address.
-/

import WampManager.SiteController
import WampManager.VhostNames

namespace WampManager

namespace Site

open Hosts (HostToken Field isHostChar)

/-! ## Agreement -/

/-- The certificate, both blocks of the virtual host and the hosts lines for the
server of a site are for its name and for each posted alias. -/
structure NamesAgree (env : Env) (siteId instanceId : ℤ) (name : Text) (aliases : List Text)
    (w : World) : Prop where
  dns : ∀ hostname, hostname ∈ CA.dnsNames (CA.config name aliases) ↔
    hostname ∈ namesOf name aliases
  http : ∀ hostname,
    hostname ∈ (formatOf w.db instanceId).httpNames (madeText env w.db siteId) ↔
      hostname ∈ namesOf name aliases
  https : ∀ hostname,
    hostname ∈ (formatOf w.db instanceId).httpsNames (madeText env w.db siteId) ↔
      hostname ∈ namesOf name aliases
  hosts : ∀ hostname, hostname ∈ namesOf name aliases ∧
    hostInterface w.db (some instanceId) ∈ Hosts.addressesFor hostname w.hosts ↔
      hostname ∈ namesOf name aliases

/-- A name that can be added and aliases over the characters of hostnames. -/
structure Admissible (name : Text) (aliases : List Text) : Prop where
  domain : SiteController.IsDomain name
  remote : name ≠ "localhost".toList
  aliases : ∀ a ∈ aliases, ∀ c ∈ a, isHostChar c = true

theorem Admissible.hostname {name : Text} {aliases : List Text} (h : Admissible name aliases) :
    ∀ hostname ∈ namesOf name aliases, HostToken hostname ∧ hostname ≠ "localhost".toList := by
  have hname : ∀ c ∈ name, isHostChar c = true := by
    intro c hc
    have hdomain := h.domain.2 c hc
    simp only [isDomainChar, isHostChar, Bool.or_eq_true] at hdomain ⊢
    exact .inl hdomain
  intro hostname hmem
  rcases List.mem_cons.mp hmem with rfl | hmem
  · exact ⟨⟨h.domain.1, hname⟩, h.remote⟩
  · obtain ⟨a, ha, rfl⟩ := List.mem_map.mp hmem
    refine ⟨⟨by simp [hostnameOf], fun c hc => ?_⟩, fun heq => ?_⟩
    · rcases List.mem_append.mp hc with hc | hc
      · exact h.aliases a ha c hc
      · rcases List.mem_cons.mp hc with rfl | hc
        · rfl
        · exact hname c hc
    · have hdot : '.' ∈ "localhost".toList := by
        rw [← heq, hostnameOf]
        simp
      exact absurd hdot (by decide)

/-- Among the names of a site, an alias accounts for one that no other does. -/
theorem mem_namesOf_iff {name a : Text} {aliases : List Text} :
    hostnameOf name a ∈ namesOf name aliases ↔ a ∈ aliases := by
  rw [namesOf, List.mem_cons]
  constructor
  · rintro (hself | hmem)
    · have hlength := congrArg List.length hself
      simp [hostnameOf] at hlength
      omega
    · obtain ⟨b, hb, heq⟩ := List.mem_map.mp hmem
      have hsame : b = a := List.append_cancel_right heq
      exact hsame ▸ hb
  · intro ha
    exact .inr (List.mem_map_of_mem ha)

/-- What stands in the four places, by the rows the site was made from. -/
theorem namesAgree_iff {env : Env} {w : World} {siteId instanceId : ℤ} {file : Text}
    {aliases : List Text}
    (hserver : (getById w.db siteId).httpdInstanceId = some instanceId)
    (hhosts : w.hosts = addedHosts env w.db siteId file)
    (hposted : Admissible (getById w.db siteId).name aliases)
    (hstored : Admissible (getById w.db siteId).name (aliasesOf w.db siteId))
    (hkept : ∀ a ∈ aliases, a ∈ aliasesOf w.db siteId)
    (hprintable : Printable env w.db (getById w.db siteId).documentRoot
      (getById w.db siteId).httpdInstanceId (getById w.db siteId).phpInstanceId)
    (haddress : hostInterface w.db (some instanceId) = [] ∨
      Field (hostInterface w.db (some instanceId))) :
    NamesAgree env siteId instanceId (getById w.db siteId).name aliases w ↔
      hostInterface w.db (some instanceId) ≠ [] ∧ ∀ a ∈ aliasesOf w.db siteId, a ∈ aliases := by
  have hinterface : OneLine (interfaceOf w.db (getById w.db siteId).httpdInstanceId) := by
    rw [hserver]
    by_cases hany : interfaceOf w.db (some instanceId) = "0.0.0.0".toList
    · rw [hany]
      decide
    · have hsame : hostInterface w.db (some instanceId) = interfaceOf w.db (some instanceId) :=
        if_neg hany
      rw [hsame] at haddress
      rcases haddress with hnil | hfield
      · rw [hnil]
        decide
      · exact oneLine_of_field hfield
  have hproper : (vhostOf env w.db siteId).Proper := by
    have hdir : OneLine (FilePath.slash (confPath env w.db (getById w.db siteId).httpdInstanceId ++
        ['/']) '/' ++ (getById w.db siteId).name) :=
      ((((hprintable.wampPath.append (u := "\\bin".toList) (by decide)).append
        (hprintable.instanceName.1.cons (by decide))).append
          (u := "\\conf\\vhosts".toList) (by decide)).append (by decide)).slash.append
            (oneLine_of_field (hposted.hostname _ List.mem_cons_self).1.field)
    constructor
    · exact fun hostname hmem => (hstored.hostname hostname hmem).1
    · exact hinterface
    · exact hprintable.ports.1
    · exact hprintable.ports.2
    · exact hprintable.root
    · exact hdir.append (by decide)
    · exact hdir.append (by decide)
  have hdns := dnsNames_config fun hostname hmem => (hposted.hostname hostname hmem).1
  obtain ⟨hhttp, hhttps⟩ := names_vhostText hserver hproper hprintable
  have hlisted : (∀ hostname,
      hostname ∈ namesOf (getById w.db siteId).name (aliasesOf w.db siteId) ↔
        hostname ∈ namesOf (getById w.db siteId).name aliases) ↔
      ∀ a ∈ aliasesOf w.db siteId, a ∈ aliases := by
    constructor
    · intro hsame a ha
      exact mem_namesOf_iff.mp ((hsame _).mp (mem_namesOf_iff.mpr ha))
    · intro hsub hostname
      rw [namesOf, namesOf, List.mem_cons, List.mem_cons, List.mem_map, List.mem_map]
      constructor
      · rintro (hself | ⟨a, ha, rfl⟩)
        · exact .inl hself
        · exact .inr ⟨a, hsub a ha, rfl⟩
      · rintro (hself | ⟨a, ha, rfl⟩)
        · exact .inl hself
        · exact .inr ⟨a, hkept a ha, rfl⟩
  constructor
  · intro h
    constructor
    · have hmapped := ((h.hosts (getById w.db siteId).name).mpr List.mem_cons_self).2
      exact Hosts.ne_nil_of_mem_addressesFor hmapped
    · apply hlisted.mp
      intro hostname
      have hblock := h.http hostname
      rwa [show madeText env w.db siteId =
        vhostText env w.db (getById w.db siteId) (vhostOf env w.db siteId) from rfl, hhttp] at hblock
  · rintro ⟨hne, hsub⟩
    have hfield := haddress.resolve_left hne
    have hsame := hlisted.mpr hsub
    constructor
    · intro hostname
      rw [hdns]
    · intro hostname
      rw [show madeText env w.db siteId =
        vhostText env w.db (getById w.db siteId) (vhostOf env w.db siteId) from rfl, hhttp]
      exact hsame hostname
    · intro hostname
      rw [show madeText env w.db siteId =
        vhostText env w.db (getById w.db siteId) (vhostOf env w.db siteId) from rfl, hhttps]
      exact hsame hostname
    · intro hostname
      refine ⟨fun h => h.1, fun hmem => ⟨hmem, ?_⟩⟩
      rw [hhosts, addedHosts, hserver]
      exact Hosts.mem_addressesFor_addAll hfield hstored.hostname ((hsame hostname).mpr hmem)

theorem oneLine_rootOf {env : Env} {name root : Text} (hpath : OneLine env.wampPath)
    (hname : OneLine name) (hroot : OneLine root) : OneLine (rootOf env name root) := by
  unfold rootOf
  simp only
  split
  · exact (hpath.append (u := "\\sites".toList) (by decide)).append (hname.cons (by decide))
  · exact hroot.rtrimChar

/-- After a site was created the four places agree exactly if its server has an
address and the alias table held no other alias under the new key; after an
update of a site that is there they agree if the server has an address. -/
theorem site_hostnames_agree (env : Env) {w w' : World} {name aliases root : Text}
    {instanceId : ℤ} {php : Option ℤ} {ca : Certificate}
    (hadmissible : Admissible name (stringToCleanAliasArray aliases))
    (hprintable : Printable env w.db root (some instanceId) php)
    (haddress : hostInterface w.db (some instanceId) = [] ∨
      Field (hostInterface w.db (some instanceId))) :
    (create env name aliases root (some instanceId) php ca w = .done w' →
      (∀ a ∈ aliasesOf w.db w.db.sites.nextId, ∀ c ∈ a, isHostChar c = true) →
      (NamesAgree env w.db.sites.nextId instanceId name (stringToCleanAliasArray aliases) w' ↔
        hostInterface w.db (some instanceId) ≠ [] ∧
          ∀ a ∈ aliasesOf w.db w.db.sites.nextId, a ∈ stringToCleanAliasArray aliases)) ∧
    ∀ siteId, siteId ∈ w.db.sites.rows.map Prod.fst →
      update env siteId name aliases root (some instanceId) php ca w = .done w' →
      (NamesAgree env siteId instanceId name (stringToCleanAliasArray aliases) w' ↔
        hostInterface w.db (some instanceId) ≠ []) := by
  have hroot := oneLine_rootOf hprintable.wampPath
    (oneLine_of_field (hadmissible.hostname name List.mem_cons_self).1.field) hprintable.root
  constructor
  · intro hdone hchars
    have hw := (create_done hdone).2
    set u : World := { makeRoot env name root w with
      db := createRows ⟨name, ca.key, ca.crt, rootOf env name root, some instanceId, php⟩
        (stringToCleanAliasArray aliases) w.db } with hu
    have hdb : w'.db = u.db := by rw [hw, db_settle]
    have hhosts : w'.hosts = addedHosts env w'.db w.db.sites.nextId u.hosts := by
      rw [hdb, hw, hosts_settle, if_neg (by simp)]
    have hrow : getById w'.db w.db.sites.nextId =
        ⟨name, ca.key, ca.crt, rootOf env name root, some instanceId, php⟩ := by
      rw [hdb, hu, getById_createRows, if_pos rfl]
    have haliases : aliasesOf w'.db w.db.sites.nextId =
        aliasesOf w.db w.db.sites.nextId ++ stringToCleanAliasArray aliases := by
      rw [hdb, hu, aliasesOf_createRows, if_pos rfl]
    have hiff := @namesAgree_iff env w' w.db.sites.nextId instanceId _
      (stringToCleanAliasArray aliases)
      (by rw [hrow]) hhosts (by rw [hrow]; exact hadmissible)
      (by
        rw [hrow, haliases]
        refine ⟨hadmissible.domain, hadmissible.remote, fun a ha => ?_⟩
        exact (List.mem_append.mp ha).elim (hchars a) (hadmissible.aliases a))
      (by rw [haliases]; exact fun a ha => List.mem_append_right _ ha)
      (by
        rw [hrow, hdb]
        exact ⟨hprintable.wampPath, hroot, hprintable.instanceName, hprintable.ports,
          hprintable.phpEndpoint⟩)
      (by rw [hdb]; exact haddress)
    rw [hrow, haliases, hdb] at hiff
    refine hiff.trans (and_congr_right fun _ => ?_)
    rw [List.forall_mem_append]
    exact and_iff_left fun a ha => ha
  · intro siteId hsite hdone
    have hw := update_done hdone
    set u : World := leave env (getById w.db siteId) (some instanceId)
      { (makeRoot env name root w).editHosts
          (Hosts.removeAll env.preg (hostnames w.db siteId)) with
        db := updateRows siteId ⟨name, ca.key, ca.crt,
          Text.rtrimChar '\\' (rootOf env name root), some instanceId, php⟩
            (stringToCleanAliasArray aliases) w.db } with hu
    have hdb : w'.db = updateRows siteId ⟨name, ca.key, ca.crt,
        Text.rtrimChar '\\' (rootOf env name root), some instanceId, php⟩
          (stringToCleanAliasArray aliases) w.db := by
      rw [hw, db_settle, hu, db_leave]
    have hhosts : w'.hosts = addedHosts env w'.db siteId u.hosts := by
      rw [hw, db_settle, hosts_settle, if_neg (by simp)]
    have hrow : getById w'.db siteId = ⟨name, ca.key, ca.crt,
        Text.rtrimChar '\\' (rootOf env name root), some instanceId, php⟩ := by
      rw [hdb, getById_updateRows _ _ _ _ _ hsite, if_pos rfl]
    have haliases : aliasesOf w'.db siteId = stringToCleanAliasArray aliases := by
      rw [hdb, aliasesOf_updateRows, if_pos rfl]
    have hiff := @namesAgree_iff env w' siteId instanceId _ (stringToCleanAliasArray aliases)
      (by rw [hrow]) hhosts (by rw [hrow]; exact hadmissible)
      (by rw [hrow, haliases]; exact hadmissible)
      (by rw [haliases]; exact fun a ha => ha)
      (by
        rw [hrow, hdb]
        exact ⟨hprintable.wampPath, hroot.rtrimChar, hprintable.instanceName, hprintable.ports,
          hprintable.phpEndpoint⟩)
      (by rw [hdb]; exact haddress)
    rw [hrow, haliases, hdb] at hiff
    exact hiff.trans (and_iff_left fun a ha => ha)

/-- A new site with an alias and a wildcard, next to which no alias was left. -/
theorem site_hostnames_agree_created :
    NamesAgree sampleEnv 1 2 "a".toList ["www".toList, "*".toList]
      (handle sampleEnv (sampleCreate "a" "www, *" (some 2)) sampleWorld).world := by
  have hadmissible : Admissible "a".toList (stringToCleanAliasArray "www, *".toList) :=
    ⟨by decide, by decide, by decide⟩
  have hprintable : Printable sampleEnv sampleWorld.db "C:\\www".toList (some 2) none := by
    decide
  have haddress : Field (hostInterface sampleWorld.db (some 2)) := by decide
  have hagree := (@site_hostnames_agree sampleEnv sampleWorld _ "a".toList "www, *".toList
    "C:\\www".toList 2 none ⟨"key".toList, "crt".toList⟩ hadmissible hprintable
    (.inr haddress)).1 rfl (by decide)
  exact hagree.mpr ⟨by decide, by decide⟩

/-- An alias that was posted for a site that was not there yet stays with the
site that gets the key. -/
theorem site_hostnames_fail :
    ¬ ∀ (env : Env) (w₀ w w' : World) (requests : List SiteController.Request)
      (name aliases root : Text) (instanceId : ℤ) (php : Option ℤ) (ca : Certificate),
      NoSites w₀.db → Transition.Run (SiteController.Step env) w₀ requests w →
      Admissible name (stringToCleanAliasArray aliases) →
      create env name aliases root (some instanceId) php ca w = .done w' →
      NamesAgree env w.db.sites.nextId instanceId name (stringToCleanAliasArray aliases) w' := by
  intro hclaim
  let edit := SiteController.Request.doEdit 1 (SiteController.sampleForm "x" "www" (-1) (-1))
    SiteController.sampleCertificate
  let w := (SiteController.handle sampleEnv edit sampleWorld).world
  let w' := (handle sampleEnv (sampleCreate "a" "" (some 1)) w).world
  have run : Transition.Run (SiteController.Step sampleEnv) sampleWorld [edit] w :=
    .snoc (.nil _) rfl
  have hagree := hclaim sampleEnv sampleWorld w w' _ "a".toList [] "C:\\www".toList 1 none
    ⟨"key".toList, "crt".toList⟩ ⟨rfl, rfl⟩ run ⟨by decide, by decide, by decide⟩ rfl
  have hlisted := (hagree.http "www.a".toList).mp (by decide)
  revert hlisted
  decide

end Site

end WampManager
