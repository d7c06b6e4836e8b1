/-
# Lines of the hosts file

The file names a hostname if some line lists it behind its address. The
manager's edits are described here by what they do to the lines that name one
given hostname: an edit whose expressions miss these lines, and whose new lines
name something else, leaves them alone; and for hostnames that are plain tokens
an edit takes out and puts in exactly what it is asked to.
-/

import WampManager.Hosts

namespace WampManager

namespace Hosts

/-- The hostnames of a line: its fields behind the address, up to a comment. -/
def hostnamesOf (item : Text) : List Text :=
  (((item.takeWhile (· ≠ '#')).splitOnP isBlank).filter (· ≠ [])).tail

/-- Does a line name a hostname? -/
def mentions (hostname item : Text) : Bool := hostname ∈ hostnamesOf item

/-- The lines of a file that name a hostname. -/
def linesFor (hostname file : Text) : List Text :=
  (Text.entries file).filter (mentions hostname)

/-- The lines for a hostname in what is about to be saved. -/
def visible (hostname : Text) (data : List Text) : List Text :=
  data.flatMap fun item => (Text.entries item).filter (mentions hostname)

/-- Every item that names the hostname is a single line. -/
def Solid (hostname : Text) (data : List Text) : Prop :=
  ∀ item ∈ data, (Text.entries item).filter (mentions hostname) ≠ [] →
    Text.entries item = [item]

variable {preg : Text → Text → Bool} {hostname : Text}

/-- Saving keeps the lines for every hostname. -/
theorem linesFor_save (data : List Text) : linesFor hostname (save data) = visible hostname data := by
  unfold linesFor save get visible
  rw [Text.entries_trim, Text.entries_joinLines, List.filter_flatMap]

private theorem entries_of_mem_load {file item : Text} (h : item ∈ load file) :
    Text.entries item = [item].filter (· ≠ []) := Text.entries_of_mem_lines h

theorem entries_save_load (file : Text) {data : List Text} (h : data ⊆ load file) :
    Text.entries (save data) = data.filter (· ≠ []) := by
  rw [save, get, Text.entries_trim, Text.entries_joinLines,
    Text.flatMap_entries_of_subset_lines h]

/-- Loading shows the lines of the file. -/
theorem visible_load (file : Text) : visible hostname (load file) = linesFor hostname file := by
  have hflat : (load file).flatMap Text.entries = Text.entries file :=
    Text.flatMap_entries_of_subset_lines (List.Subset.refl _)
  unfold visible linesFor
  rw [← hflat, List.filter_flatMap]

theorem solid_load (file : Text) : Solid hostname (load file) := by
  intro item hitem hvisible
  have hentries := entries_of_mem_load hitem
  by_cases hblank : item = []
  · simp [hblank] at hvisible
  · simpa [hblank] using hentries

/-! ## Edits that miss a hostname -/

/-- A removal whose expression misses the lines for a hostname keeps them. -/
theorem visible_remove {data : List Text} {other : Text} (hsolid : Solid hostname data)
    (hmiss : ∀ l ∈ visible hostname data, matchesLine preg other l = false) :
    visible hostname (remove preg other data) = visible hostname data ∧
      Solid hostname (remove preg other data) := by
  refine ⟨?_, fun item hitem => hsolid item (List.mem_filter.mp hitem).1⟩
  induction data with
  | nil => rfl
  | cons item data ih =>
      have htail := ih (fun i hi => hsolid i (List.mem_cons_of_mem _ hi))
        (fun l hl => hmiss l (List.mem_append_right _ hl))
      have hkeep : visible hostname (item :: data) =
          (Text.entries item).filter (mentions hostname) ++ visible hostname data := rfl
      by_cases hmatch : matchesLine preg other item
      · have hnone : (Text.entries item).filter (mentions hostname) = [] := by
          by_contra hsome
          have hitem : item ∈ visible hostname (item :: data) := by
            have hself := hsolid item List.mem_cons_self hsome
            rw [hkeep, List.mem_append, hself]
            rw [hself] at hsome
            refine .inl (List.mem_filter.mpr ⟨List.mem_singleton_self _, ?_⟩)
            by_contra hmentions
            simp [hmentions] at hsome
          rw [hmiss item hitem] at hmatch
          cases hmatch
        have hremove : remove preg other (item :: data) = remove preg other data := by
          simp [remove, hmatch]
        rw [hremove, htail, hkeep, hnone, List.nil_append]
      · have hremove : remove preg other (item :: data) =
            item :: remove preg other data := by
          simp [remove, hmatch]
        rw [hremove, hkeep, ← htail]
        rfl

/-- An added line misses a hostname if, as it reads back, it does not name it. -/
def AddMisses (hostname address other : Text) : Prop :=
  other = "localhost".toList ∨
    ∀ l ∈ Text.entries (address ++ '\t' :: other), mentions hostname l = false

instance (hostname address other : Text) : Decidable (AddMisses hostname address other) :=
  inferInstanceAs (Decidable (_ ∨ _))

/-- Adding a line that misses a hostname keeps the lines for it. -/
theorem visible_add {data : List Text} {address other : Text} (hsolid : Solid hostname data)
    (hmiss : ∀ l ∈ visible hostname data, matchesLine preg other l = false)
    (hadd : AddMisses hostname address other) :
    visible hostname (add preg address other data) = visible hostname data ∧
      Solid hostname (add preg address other data) := by
  unfold add
  by_cases hlocal : other = "localhost".toList
  · rw [if_pos hlocal]
    exact ⟨rfl, hsolid⟩
  · rw [if_neg hlocal]
    obtain ⟨hvisible, hsolid'⟩ := visible_remove hsolid hmiss
    have hnew : (Text.entries (address ++ '\t' :: other)).filter (mentions hostname) = [] := by
      rw [List.filter_eq_nil_iff]
      intro l hl
      simp [(hadd.resolve_left hlocal) l hl]
    constructor
    · rw [visible, List.flatMap_append, ← visible, hvisible]
      simp [hnew]
    · intro item hitem hsome
      rcases List.mem_append.mp hitem with hitem | hitem
      · exact hsolid' item hitem hsome
      · rw [List.mem_singleton.mp hitem] at hsome
        exact absurd hnew hsome

theorem visible_removeAll {others : List Text} {data : List Text}
    (hsolid : Solid hostname data)
    (hmiss : ∀ other ∈ others, ∀ l ∈ visible hostname data,
      matchesLine preg other l = false) :
    visible hostname (removeAll preg others data) = visible hostname data := by
  induction others generalizing data with
  | nil => rfl
  | cons other others ih =>
      obtain ⟨hvisible, hsolid'⟩ := visible_remove hsolid (hmiss other List.mem_cons_self)
      have htail := ih hsolid' (by
        rw [hvisible]
        exact fun o ho => hmiss o (List.mem_cons_of_mem _ ho))
      exact htail.trans hvisible

theorem visible_addAll {address : Text} {others : List Text} {data : List Text}
    (hsolid : Solid hostname data)
    (hmiss : ∀ other ∈ others, ∀ l ∈ visible hostname data,
      matchesLine preg other l = false)
    (hadd : ∀ other ∈ others, AddMisses hostname address other) :
    visible hostname (addAll preg address others data) = visible hostname data := by
  induction others generalizing data with
  | nil => rfl
  | cons other others ih =>
      obtain ⟨hvisible, hsolid'⟩ := visible_add hsolid (hmiss other List.mem_cons_self)
        (hadd other List.mem_cons_self)
      have htail := ih hsolid' (by
        rw [hvisible]
        exact fun o ho => hmiss o (List.mem_cons_of_mem _ ho))
        (fun o ho => hadd o (List.mem_cons_of_mem _ ho))
      exact htail.trans hvisible

/-- A whole removal keeps the lines for a hostname that it misses. -/
theorem linesFor_removeAll {others : List Text} {file : Text}
    (hmiss : ∀ other ∈ others, ∀ l ∈ linesFor hostname file,
      matchesLine preg other l = false) :
    linesFor hostname (save (removeAll preg others (load file))) = linesFor hostname file := by
  rw [← visible_load] at hmiss
  rw [linesFor_save, visible_removeAll (solid_load file) hmiss, visible_load]

/-- A whole addition keeps the lines for a hostname that it misses. -/
theorem linesFor_addAll {address : Text} {others : List Text} {file : Text}
    (hmiss : ∀ other ∈ others, ∀ l ∈ linesFor hostname file,
      matchesLine preg other l = false)
    (hadd : ∀ other ∈ others, AddMisses hostname address other) :
    linesFor hostname (save (addAll preg address others (load file))) =
      linesFor hostname file := by
  rw [← visible_load] at hmiss
  rw [linesFor_save, visible_addAll (solid_load file) hmiss hadd, visible_load]

/-! ## Lines that the manager writes -/

/-- The characters of hostnames: small letters, digits, dot, hyphen, asterisk. -/
def isHostChar (c : Char) : Bool := c.isDigit || c.isLower || c == '.' || c == '-' || c == '*'

/-- A nonempty text of such characters. -/
def HostToken (t : Text) : Prop := t ≠ [] ∧ ∀ c ∈ t, isHostChar c

private theorem isHostChar_special :
    ∀ c ∈ " \t\n\x0b\x0c\r\x00#\\^$[|()?+\x7b`".toList, isHostChar c = false := by decide

theorem isHostChar_spec {c : Char} (hc : isHostChar c) :
    isBlank c = false ∧ Text.isTrimChar c = false ∧ c ≠ '#' ∧ c ≠ '\n' ∧
      c ∉ "\\^$[|()?+\x7b`\x00".toList := by
  have hmiss : ∀ d ∈ " \t\n\x0b\x0c\r\x00#\\^$[|()?+\x7b`".toList, c ≠ d := by
    rintro d hd rfl
    rw [isHostChar_special c hd] at hc
    cases hc
  have hsub : ∀ d ∈ "\\^$[|()?+\x7b`\x00".toList,
      d ∈ " \t\n\x0b\x0c\r\x00#\\^$[|()?+\x7b`".toList := by decide
  simp only [isBlank, Text.isTrimChar, Bool.or_eq_false_iff, beq_eq_false_iff_ne]
  exact ⟨⟨⟨⟨⟨⟨hmiss _ (by decide), hmiss _ (by decide)⟩, hmiss _ (by decide)⟩,
      hmiss _ (by decide)⟩, hmiss _ (by decide)⟩, hmiss _ (by decide)⟩,
    ⟨⟨⟨⟨⟨hmiss _ (by decide), hmiss _ (by decide)⟩, hmiss _ (by decide)⟩,
      hmiss _ (by decide)⟩, hmiss _ (by decide)⟩, hmiss _ (by decide)⟩,
    hmiss _ (by decide), hmiss _ (by decide), fun hd => hmiss c (hsub c hd) rfl⟩

namespace HostToken

variable {t : Text}

theorem plain (ht : HostToken t) : Plain t := fun c hc => (isHostChar_spec (ht.2 c hc)).2.2.2.2

end HostToken

/-- One to three digits. -/
def Number (t : Text) : Prop := (∀ c ∈ t, c.isDigit = true) ∧ 1 ≤ t.length ∧ t.length ≤ 3

/-- No digit follows. -/
def NoDigit (rest : Text) : Prop := ∀ c ∈ rest.head?, c.isDigit = false

theorem stripNumber_iff {t rest : Text} :
    stripNumber t = some rest ↔ ∃ n, t = n ++ rest ∧ Number n ∧ NoDigit rest := by
  simp only [stripNumber]
  constructor
  · intro h
    split at h
    · next hlength =>
        obtain rfl := Option.some.inj h
        refine ⟨t.takeWhile Char.isDigit, List.takeWhile_append_dropWhile.symm,
          ⟨fun c hc => List.mem_takeWhile_imp hc, hlength⟩, ?_⟩
        intro c hc
        have hhead := List.head?_dropWhile_not Char.isDigit t
        rw [Option.mem_def.mp hc] at hhead
        simpa using hhead
    · cases h
  · rintro ⟨n, rfl, ⟨hdigits, hlength⟩, hrest⟩
    have htake : (n ++ rest).takeWhile Char.isDigit = n := by
      rw [List.takeWhile_append_of_pos hdigits]
      cases rest with
      | nil => simp
      | cons c rest => simp [hrest c rfl]
    have hdrop : (n ++ rest).dropWhile Char.isDigit = rest := by
      rw [List.dropWhile_append_of_pos hdigits]
      cases rest with
      | nil => rfl
      | cons c rest => simp [hrest c rfl]
    rw [htake, hdrop, if_pos hlength]

private theorem stripNumberDot_iff {t rest : Text} :
    stripNumberDot t = some rest ↔ ∃ n, t = n ++ '.' :: rest ∧ Number n := by
  unfold stripNumberDot
  constructor
  · intro h
    split at h
    · next rest' hnumber =>
        obtain rfl := Option.some.inj h
        obtain ⟨n, hsplit, hn, -⟩ := stripNumber_iff.mp hnumber
        exact ⟨n, hsplit, hn⟩
    · cases h
  · rintro ⟨n, hsplit, hn⟩
    have hdot : NoDigit ('.' :: rest) := by
      intro c hc
      rw [← Option.some.inj hc]
      rfl
    simp only [stripNumber_iff.mpr ⟨n, hsplit, hn, hdot⟩]

/-- A dotted address is four numbers with dots between them. -/
theorem stripAddress_iff {t rest : Text} :
    stripAddress t = some rest ↔ ∃ a b c d, Number a ∧ Number b ∧ Number c ∧ Number d ∧
      t = a ++ '.' :: (b ++ '.' :: (c ++ '.' :: (d ++ rest))) ∧ NoDigit rest := by
  simp only [stripAddress, Option.bind_eq_bind, Option.bind_eq_some_iff, stripNumberDot_iff,
    stripNumber_iff]
  constructor
  · rintro ⟨_, ⟨_, ⟨_, ⟨a, rfl, ha⟩, b, rfl, hb⟩, c, rfl, hc⟩, d, rfl, hd, hrest⟩
    exact ⟨a, b, c, d, ha, hb, hc, hd, rfl, hrest⟩
  · rintro ⟨a, b, c, d, ha, hb, hc, hd, rfl, hrest⟩
    exact ⟨_, ⟨_, ⟨_, ⟨a, rfl, ha⟩, b, rfl, hb⟩, c, rfl, hc⟩, d, rfl, hd, hrest⟩

theorem stripAddress_append {address rest : Text} (haddress : IsAddress address)
    (hrest : NoDigit rest) : stripAddress (address ++ rest) = some rest := by
  obtain ⟨a, b, c, d, ha, hb, hc, hd, rfl, -⟩ := stripAddress_iff.mp haddress
  exact stripAddress_iff.mpr ⟨a, b, c, d, ha, hb, hc, hd, by simp, hrest⟩

theorem isHostChar_of_mem_address {address : Text} (haddress : IsAddress address) :
    ∀ c ∈ address, isHostChar c = true := by
  obtain ⟨n₁, n₂, n₃, n₄, h₁, h₂, h₃, h₄, rfl, -⟩ := stripAddress_iff.mp haddress
  have hdigit : ∀ {n : Text}, Number n → ∀ c ∈ n, isHostChar c = true := by
    intro n hn c hc
    simp [isHostChar, hn.1 c hc]
  have hdot : isHostChar '.' = true := rfl
  intro c hc
  simp only [List.mem_append, List.mem_cons, List.not_mem_nil, or_false] at hc
  rcases hc with hc | rfl | hc | rfl | hc | rfl | hc
  · exact hdigit h₁ c hc
  · exact hdot
  · exact hdigit h₂ c hc
  · exact hdot
  · exact hdigit h₃ c hc
  · exact hdot
  · exact hdigit h₄ c hc

theorem address_ne_nil {address : Text} (haddress : IsAddress address) : address ≠ [] := by
  rintro rfl
  cases haddress

/-- A field of a line: nonempty, without white space and comment signs. -/
def Field (t : Text) : Prop :=
  t ≠ [] ∧ ∀ c ∈ t, isBlank c = false ∧ Text.isTrimChar c = false ∧ c ≠ '#' ∧ c ≠ '\n'

instance (t : Text) : Decidable (Field t) := inferInstanceAs (Decidable (_ ∧ _))

theorem HostToken.field {t : Text} (ht : HostToken t) : Field t :=
  ⟨ht.1, fun c hc =>
    have hspec := isHostChar_spec (ht.2 c hc)
    ⟨hspec.1, hspec.2.1, hspec.2.2.1, hspec.2.2.2.1⟩⟩

theorem field_of_isAddress {address : Text} (haddress : IsAddress address) : Field address :=
  HostToken.field ⟨address_ne_nil haddress, isHostChar_of_mem_address haddress⟩

namespace Field

variable {first second : Text} (hfirst : Field first) (hsecond : Field second)
include hfirst

theorem splitOnP_isBlank : first.splitOnP isBlank = [first] :=
  List.splitOnP_eq_singleton fun c hc => (hfirst.2 c hc).1

include hsecond

/-- Two fields with a tab between them read back as they are. -/
theorem entries_line : Text.entries (first ++ '\t' :: second) = [first ++ '\t' :: second] := by
  have hchar : ∀ c ∈ first ++ '\t' :: second, c ≠ '\n' := by
    intro c hc
    rcases List.mem_append.mp hc with hc | hc
    · exact (hfirst.2 c hc).2.2.2
    · rcases List.mem_cons.mp hc with rfl | hc
      · decide
      · exact (hsecond.2 c hc).2.2.2
  have hhead : ∀ c ∈ (first ++ '\t' :: second).head?, Text.isTrimChar c = false := by
    intro c hc
    obtain ⟨d, rest, hcons⟩ := List.exists_cons_of_ne_nil hfirst.1
    have hcd : d = c := by simpa [hcons] using hc
    exact (hfirst.2 c (by simp [hcons, hcd])).2.1
  have hlast : ∀ c ∈ (first ++ '\t' :: second).getLast?, Text.isTrimChar c = false := by
    intro c hc
    have hlast : second.getLast? = some c := by
      rw [Option.mem_def, List.getLast?_append, List.getLast?_cons] at hc
      cases hlast : second.getLast? with
      | none => exact absurd (List.getLast?_eq_none_iff.mp hlast) hsecond.1
      | some d => simpa [hlast] using hc
    exact (hsecond.2 c (List.mem_of_getLast? hlast)).2.1
  rw [Text.entries, Text.lines_of_not_mem (fun h => hchar _ h rfl),
    Text.trim_of_no_ends hhead hlast]
  simp

/-- Two fields with a tab between them have no comment. -/
theorem takeWhile_line :
    (first ++ '\t' :: second).takeWhile (· ≠ '#') = first ++ '\t' :: second := by
  rw [List.takeWhile_eq_self_iff]
  intro c hc
  rcases List.mem_append.mp hc with hc | hc
  · simpa using (hfirst.2 c hc).2.2.1
  · rcases List.mem_cons.mp hc with rfl | hc
    · decide
    · simpa using (hsecond.2 c hc).2.2.1

/-- Such a line names its second field and nothing else. -/
theorem hostnamesOf_line : hostnamesOf (first ++ '\t' :: second) = [second] := by
  rw [hostnamesOf, hfirst.takeWhile_line hsecond, List.splitOnP_append_cons _ _ (by rfl),
    hfirst.splitOnP_isBlank, hsecond.splitOnP_isBlank]
  simp [hfirst.1, hsecond.1]

end Field

section WrittenLine

variable {address t : Text} (haddress : IsAddress address) (ht : HostToken t)
include haddress ht

/-- A line the manager writes reads back as it is. -/
theorem entries_written : Text.entries (address ++ '\t' :: t) = [address ++ '\t' :: t] :=
  (field_of_isAddress haddress).entries_line ht.field

/-- The literal expression for a hostname finds a written line exactly if the
line was written for that hostname. -/
theorem literalMatch_written (other : Text) :
    literalMatch other (address ++ '\t' :: t) = true ↔ other = t := by
  have htab : NoDigit ('\t' :: t) := by
    intro c hc
    rw [← Option.some.inj hc]
    rfl
  have hblank : ∀ c ∈ t, isBlank c = false := fun c hc => (isHostChar_spec (ht.2 c hc)).1
  have hafter : ∀ accepts : Text → Bool, afterBlanks accepts ('\t' :: t) = accepts t := by
    intro accepts
    obtain ⟨d, rest, rfl⟩ := List.exists_cons_of_ne_nil ht.1
    simp [afterBlanks, hblank d List.mem_cons_self, show isBlank '\t' = true from rfl]
  rw [literalMatch, stripAddress_append haddress htab]
  simp only [hafter, Bool.and_eq_true, List.isPrefixOf_iff_prefix]
  constructor
  · rintro ⟨⟨rest, rfl⟩, hend⟩
    rw [List.drop_left] at hend
    cases rest with
    | nil => rw [List.append_nil]
    | cons c rest =>
        have hc : isBlank c = true := hend
        rw [hblank c (by simp)] at hc
        cases hc
  · rintro rfl
    exact ⟨List.prefix_refl _, by simp [endsName]⟩

/-- A line the manager writes names its hostname and nothing else. -/
theorem hostnamesOf_written : hostnamesOf (address ++ '\t' :: t) = [t] :=
  (field_of_isAddress haddress).hostnamesOf_line ht.field

end WrittenLine

/-! ## Edits for hostname tokens -/

/-- Every line that names the hostname was written for it by the manager. -/
def Written (hostname file : Text) : Prop :=
  ∀ l ∈ Text.entries file, hostname ∈ hostnamesOf l →
    ∃ address, IsAddress address ∧ l = address ++ '\t' :: hostname

/-- The file names the hostname in some line. -/
def Names (hostname file : Text) : Prop :=
  ∃ l ∈ Text.entries file, hostname ∈ hostnamesOf l

instance (hostname file : Text) : Decidable (Names hostname file) :=
  inferInstanceAs (Decidable (∃ l ∈ Text.entries file, _))

theorem matchesLine_written {address other : Text} (haddress : IsAddress address)
    (ht : HostToken hostname) (hplain : Plain other) :
    matchesLine preg other (address ++ '\t' :: hostname) = true ↔ other = hostname := by
  rw [matchesLine, if_pos hplain, literalMatch_written haddress ht]

theorem mem_removeAll {others data : List Text} {item : Text} :
    item ∈ removeAll preg others data ↔
      item ∈ data ∧ ∀ o ∈ others, matchesLine preg o item = false := by
  induction others generalizing data with
  | nil => simp [removeAll]
  | cons other others ih =>
      change item ∈ removeAll preg others (remove preg other data) ↔ _
      rw [ih, remove, List.mem_filter, List.forall_mem_cons, Bool.not_eq_true', and_assoc]

theorem mem_addAll {address : Text} (haddress : IsAddress address) {others : List Text}
    (hothers : ∀ o ∈ others, HostToken o ∧ o ≠ "localhost".toList)
    {data : List Text} {item : Text} :
    item ∈ addAll preg address others data ↔
      (item ∈ data ∧ ∀ o ∈ others, matchesLine preg o item = false) ∨
        ∃ o ∈ others, item = address ++ '\t' :: o := by
  induction others generalizing data with
  | nil => simp [addAll]
  | cons other others ih =>
      have hrest : ∀ o ∈ others, HostToken o ∧ o ≠ "localhost".toList :=
        fun o ho => hothers o (List.mem_cons_of_mem _ ho)
      obtain ⟨htoken, hlocal⟩ := hothers other List.mem_cons_self
      change item ∈ addAll preg address others (add preg address other data) ↔ _
      rw [ih hrest, add, if_neg hlocal, remove, List.mem_append, List.mem_filter,
        List.mem_singleton, List.forall_mem_cons, Bool.not_eq_true']
      constructor
      · rintro (⟨⟨hdata, hne⟩ | rfl, hmiss⟩ | ⟨o, ho, rfl⟩)
        · exact .inl ⟨hdata, hne, hmiss⟩
        · exact .inr ⟨other, List.mem_cons_self, rfl⟩
        · exact .inr ⟨o, List.mem_cons_of_mem _ ho, rfl⟩
      · rintro (⟨hdata, hne, hmiss⟩ | ⟨o, ho, rfl⟩)
        · exact .inl ⟨.inl ⟨hdata, hne⟩, hmiss⟩
        · rcases List.mem_cons.mp ho with rfl | ho
          · by_cases hagain : o ∈ others
            · exact .inr ⟨o, hagain, rfl⟩
            · refine .inl ⟨.inr rfl, fun o' ho' => ?_⟩
              rw [← Bool.not_eq_true,
                matchesLine_written haddress htoken (hrest o' ho').1.plain]
              rintro rfl
              exact hagain ho'
          · exact .inr ⟨o, ho, rfl⟩

/-- What a removal leaves in the file. -/
theorem mem_entries_removeAll {others : List Text} {file l : Text} :
    l ∈ Text.entries (save (removeAll preg others (load file))) ↔
      l ∈ Text.entries file ∧ ∀ o ∈ others, matchesLine preg o l = false := by
  have hsubset : removeAll preg others (load file) ⊆ load file :=
    fun item hitem => (mem_removeAll.mp hitem).1
  rw [entries_save_load file hsubset, List.mem_filter, mem_removeAll, Text.entries,
    List.mem_filter]
  exact ⟨fun h => ⟨⟨h.1.1, h.2⟩, h.1.2⟩, fun h => ⟨⟨h.1.1, h.2⟩, h.1.2⟩⟩

/-- What an addition leaves in the file. -/
theorem mem_entries_addAll {address : Text} (haddress : IsAddress address)
    {others : List Text} (hothers : ∀ o ∈ others, HostToken o ∧ o ≠ "localhost".toList)
    {file l : Text} :
    l ∈ Text.entries (save (addAll preg address others (load file))) ↔
      (l ∈ Text.entries file ∧ ∀ o ∈ others, matchesLine preg o l = false) ∨
        ∃ o ∈ others, l = address ++ '\t' :: o := by
  have hold : ∀ item ∈ load file, Text.entries item = [item].filter (· ≠ []) :=
    fun item hitem => entries_of_mem_load hitem
  rw [save, get, Text.entries_trim, Text.entries_joinLines, List.mem_flatMap]
  constructor
  · rintro ⟨item, hitem, hl⟩
    rcases (mem_addAll haddress hothers).mp hitem with ⟨hdata, hne⟩ | ⟨o, ho, rfl⟩
    · rw [hold item hdata, List.mem_filter, List.mem_singleton] at hl
      obtain ⟨rfl, hblank⟩ := hl
      exact .inl ⟨List.mem_filter.mpr ⟨hdata, hblank⟩, hne⟩
    · rw [entries_written haddress (hothers o ho).1, List.mem_singleton] at hl
      exact .inr ⟨o, ho, hl⟩
  · rintro (⟨hl, hne⟩ | ⟨o, ho, rfl⟩)
    · obtain ⟨hdata, hblank⟩ := List.mem_filter.mp hl
      refine ⟨l, (mem_addAll haddress hothers).mpr (.inl ⟨hdata, hne⟩), ?_⟩
      rw [hold l hdata]
      exact List.mem_filter.mpr ⟨List.mem_singleton_self l, hblank⟩
    · refine ⟨address ++ '\t' :: o, (mem_addAll haddress hothers).mpr (.inr ⟨o, ho, rfl⟩), ?_⟩
      rw [entries_written haddress (hothers o ho).1]
      exact List.mem_singleton_self _

/-- Removing hostnames takes away exactly these names. -/
theorem names_removeAll {others : List Text} (hothers : ∀ o ∈ others, Plain o)
    {file : Text} (htoken : Names hostname file → HostToken hostname)
    (hwritten : Written hostname file) :
    (Names hostname (save (removeAll preg others (load file))) ↔
      Names hostname file ∧ hostname ∉ others) ∧
    Written hostname (save (removeAll preg others (load file))) := by
  have hline : ∀ l ∈ Text.entries file, hostname ∈ hostnamesOf l →
      ((∀ o ∈ others, matchesLine preg o l = false) ↔ hostname ∉ others) := by
    intro l hl hname
    obtain ⟨address, haddress, rfl⟩ := hwritten l hl hname
    have ht := htoken ⟨_, hl, hname⟩
    constructor
    · intro hmiss hmem
      have hself : matchesLine preg hostname (address ++ '\t' :: hostname) = true :=
        (matchesLine_written haddress ht ht.plain).mpr rfl
      rw [hmiss hostname hmem] at hself
      cases hself
    · intro hmem o ho
      rw [← Bool.not_eq_true, matchesLine_written haddress ht (hothers o ho)]
      rintro rfl
      exact hmem ho
  constructor
  · constructor
    · rintro ⟨l, hl, hname⟩
      obtain ⟨hold, hmiss⟩ := mem_entries_removeAll.mp hl
      exact ⟨⟨l, hold, hname⟩, (hline l hold hname).mp hmiss⟩
    · rintro ⟨⟨l, hl, hname⟩, hmem⟩
      exact ⟨l, mem_entries_removeAll.mpr ⟨hl, (hline l hl hname).mpr hmem⟩, hname⟩
  · intro l hl hname
    exact hwritten l (mem_entries_removeAll.mp hl).1 hname

/-- Adding tokens adds exactly these names. -/
theorem names_addAll {address : Text} (haddress : IsAddress address)
    {others : List Text} (hothers : ∀ o ∈ others, HostToken o ∧ o ≠ "localhost".toList)
    {file : Text} (htoken : Names hostname file → HostToken hostname)
    (hwritten : Written hostname file) :
    (Names hostname (save (addAll preg address others (load file))) ↔
      Names hostname file ∨ hostname ∈ others) ∧
    Written hostname (save (addAll preg address others (load file))) := by
  constructor
  · constructor
    · rintro ⟨l, hl, hname⟩
      rcases (mem_entries_addAll haddress hothers).mp hl with ⟨hold, -⟩ | ⟨o, ho, rfl⟩
      · exact .inl ⟨l, hold, hname⟩
      · rw [hostnamesOf_written haddress (hothers o ho).1, List.mem_singleton] at hname
        exact .inr (hname ▸ ho)
    · intro h
      by_cases hmem : hostname ∈ others
      · refine ⟨address ++ '\t' :: hostname,
          (mem_entries_addAll haddress hothers).mpr (.inr ⟨hostname, hmem, rfl⟩), ?_⟩
        rw [hostnamesOf_written haddress (hothers hostname hmem).1]
        exact List.mem_singleton_self _
      · have hnames := h.resolve_right hmem
        obtain ⟨l, hl, hname⟩ := hnames
        obtain ⟨old, hold, rfl⟩ := hwritten l hl hname
        refine ⟨_, (mem_entries_addAll haddress hothers).mpr (.inl ⟨hl, fun o ho => ?_⟩),
          hname⟩
        rw [← Bool.not_eq_true,
          matchesLine_written hold (htoken ⟨_, hl, hname⟩) (hothers o ho).1.plain]
        rintro rfl
        exact hmem ho
  · intro l hl hname
    rcases (mem_entries_addAll haddress hothers).mp hl with ⟨hold, -⟩ | ⟨o, ho, rfl⟩
    · exact hwritten l hold hname
    · rw [hostnamesOf_written haddress (hothers o ho).1, List.mem_singleton] at hname
      exact ⟨address, haddress, by rw [hname]⟩

end Hosts

end WampManager
