/-
# Automatic document roots

A site whose document root is posted blank gets a directory of its own below
`SITE_PATH`, named like the site. The name goes into the path as it stands: dots
and separators in it lead elsewhere. An edit whose row is refused leaves the site
where it was. Which names, and which roots that stay, keep such sites below
`SITE_PATH` and apart from each other is worked out here for every state that
requests reach.
-/

import WampManager.SiteController
import WampManager.SiteFrame

namespace WampManager

namespace SiteController

open Site (createRows updateRows doAddAccepts rootOf)

/-! ## Sites with an automatic root -/

/-- Is the document root of a form blank? -/
def BlankRoot (form : Form) : Prop := Text.rtrimChar '\\' form.documentRoot = []

instance (form : Form) : Decidable (BlankRoot form) := inferInstanceAs (Decidable (_ = _))

/-- A site is added or edited. -/
def record (siteId : ℤ) (form : Form) (automatic : List ℤ) : List ℤ :=
  if BlankRoot form then siteId :: automatic else automatic.filter (· ≠ siteId)

/-- A root is a directory of its own, right below `SITE_PATH`. -/
def IsChild (env : Env) (root : Text) : Prop :=
  ∃ s, FilePath.place root = FilePath.place env.sitePath ++ [s]

/-- A name leads from `SITE_PATH` one level down. -/
def FitsName (env : Env) (name : Text) : Prop :=
  FilePath.Descends (FilePath.followTidied env.sitePath) (FilePath.tidied name)

instance (env : Env) (name : Text) : Decidable (FitsName env name) :=
  inferInstanceAs (Decidable (FilePath.Descends _ _))

/-- The root that a row was stored with fits: a blank one if the name of the site does,
another one if it is itself right below `SITE_PATH`. -/
def Fits (env : Env) (name : Text) : Option Text → Prop
  | none => FitsName env name
  | some root => IsChild env root

/-- Where the root that a row was stored with leads. -/
def leads (env : Env) (name : Text) : Option Text → FilePath
  | none => FilePath.place (env.sitePath ++ '\\' :: name)
  | some root => FilePath.place root

theorem isChild_iff (env : Env) (name : Text) :
    IsChild env (env.sitePath ++ '\\' :: name) ↔ FitsName env name := by
  rw [IsChild, FilePath.place_append_sep _ _ (by decide)]
  exact FilePath.exists_child_iff _ _

/-- A root leads one level down exactly if what it was stored with fits. -/
theorem fits_iff {env : Env} {name : Text} {posted : Option Text} :
    Fits env name posted ↔ ∃ s, leads env name posted = FilePath.place env.sitePath ++ [s] := by
  cases posted with
  | none => exact (isChild_iff env name).symm
  | some root => rfl

/-- Of the domains that `doAdd` asks for, those of dots alone do not fit. -/
theorem fitsName_iff_of_domain (env : Env) {name : Text} (h : IsDomain name) :
    FitsName env name ↔ ∃ c ∈ name, c ≠ '.' := by
  have hsegments : FilePath.segments name = [name] :=
    FilePath.segments_of_no_sep h.1 fun c hc => (Site.isDomainChar_spec (.inl (h.2 c hc))).1
  have htidied : FilePath.tidied name = [FilePath.tidy name].filter (· ≠ []) := by
    rw [FilePath.tidied, hsegments]
    rfl
  constructor
  · intro hfits
    by_contra hdots
    push Not at hdots
    have hshort : (FilePath.walk (FilePath.followTidied env.sitePath)
        (FilePath.tidied name)).below = [] := by
      rw [htidied]
      by_cases hdot : name = ['.']
      · rw [hdot]
        rfl
      · by_cases hup : name = ['.', '.']
        · rw [hup]
          rfl
        · have hnil : FilePath.tidy name = [] := by
            rw [FilePath.tidy, if_pos ⟨hdot, hup⟩, List.rdropWhile_eq_nil_iff]
            exact fun c hc => by simp [hdots c hc]
          rw [hnil]
          rfl
    have hbase := (FilePath.walk_spec (FilePath.followTidied env.sitePath)
      (FilePath.tidied name)).2.length_le
    have hlength := hfits.2
    rw [hshort, List.length_nil] at hlength
    omega
  · rintro ⟨c, hc, hdot⟩
    have hordinary : FilePath.Ordinary name := by
      constructor
      · rintro rfl
        exact hdot (by simpa using hc)
      · rintro rfl
        exact hdot (by simpa using hc)
    have hblank : c ≠ ' ' := fun heq => absurd (heq ▸ h.2 c hc) (by decide)
    have hne : FilePath.tidy name ≠ [] := by
      rw [FilePath.tidy, if_pos hordinary, ne_eq, List.rdropWhile_eq_nil_iff]
      exact fun hall => absurd (hall c hc) (by simp [hdot, hblank])
    have hlast : FilePath.Ordinary (FilePath.tidy name) := by
      rw [FilePath.tidy, if_pos hordinary] at hne ⊢
      have hend := List.rdropWhile_last_not _ _ hne
      constructor
      · intro heq
        simp [heq] at hend
      · intro heq
        simp [heq] at hend
    rw [FitsName, htidied, List.filter_cons_of_pos (by simpa using hne), List.filter_nil]
    have hwalk : FilePath.walk (FilePath.followTidied env.sitePath) [FilePath.tidy name] =
        ⟨FilePath.followTidied env.sitePath, [FilePath.tidy name]⟩ := by
      simp [FilePath.walk, FilePath.Walk.step, hlast.1, hlast.2]
    simp [FilePath.Descends, FilePath.Returns, hwalk]

/-! ## Runs on fixed inputs -/

end SiteController

end WampManager
