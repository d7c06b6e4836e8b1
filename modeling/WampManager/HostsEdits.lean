/-
# One edit of the hosts file

`Hosts::remove` and `Hosts::add` are asked to change what the file says about
one hostname. They work on whole lines that begin with a dotted address and the
hostname, while the format knows other addresses and several hostnames behind
one address. An edit therefore changes the mapping of its hostname alone exactly
if every line that names the hostname is one it finds and names nothing else.
-/

import WampManager.HostsLines

namespace WampManager

namespace Hosts

variable {preg : Text → Text → Bool} {hostname address file : Text}

/-- The address of a line: its first field, up to a comment. -/
def addressOf (item : Text) : Text :=
  ((((item.takeWhile (· ≠ '#')).splitOnP isBlank).filter (· ≠ [])).head?).getD []

/-- The addresses that a file maps a hostname to, line by line. -/
def addressesFor (hostname file : Text) : List Text := (linesFor hostname file).map addressOf

/-- The file after `Hosts::remove` and `Hosts::save`. -/
def removed (preg : Text → Text → Bool) (hostname file : Text) : Text :=
  save (remove preg hostname (load file))

/-- The file after `Hosts::add` and `Hosts::save`. -/
def added (preg : Text → Text → Bool) (address hostname file : Text) : Text :=
  save (add preg address hostname (load file))

/-- Every hostname but one is mapped as before. -/
def OthersKept (hostname file file' : Text) : Prop :=
  ∀ other, other ≠ hostname → addressesFor other file' = addressesFor other file

/-- A removal took out its hostname and nothing else. -/
def RemovesOnly (hostname file file' : Text) : Prop :=
  (∀ l ∈ Text.entries file', hostname ∉ hostnamesOf l) ∧ OthersKept hostname file file'

/-- An addition maps its hostname to its address and changes nothing else. -/
def AddsOnly (address hostname file file' : Text) : Prop :=
  addressesFor hostname file' = [address] ∧ OthersKept hostname file file'

/-- A line of the kind the manager writes: a dotted address, white space, the
hostname, then nothing or white space, and no other hostname. -/
def OwnLine (hostname item : Text) : Prop :=
  literalMatch hostname item = true ∧ ∀ other ∈ hostnamesOf item, other = hostname

instance (hostname item : Text) : Decidable (OwnLine hostname item) :=
  inferInstanceAs (Decidable (_ ∧ _))

/-! ## What the expression finds -/

theorem afterBlanks_iff {accepts : Text → Bool} {t : Text} :
    afterBlanks accepts t = true ↔
      ∃ blanks rest, t = blanks ++ rest ∧ blanks ≠ [] ∧ (∀ c ∈ blanks, isBlank c = true) ∧
        accepts rest = true := by
  induction t with
  | nil =>
      constructor
      · intro h
        cases h
      · rintro ⟨blanks, rest, hsplit, hne, -⟩
        exact absurd (List.append_eq_nil_iff.mp hsplit.symm).1 hne
  | cons c t ih =>
      rw [afterBlanks, Bool.and_eq_true, Bool.or_eq_true, ih]
      constructor
      · rintro ⟨hc, haccepts | ⟨blanks, rest, rfl, -, hblanks, haccepts⟩⟩
        · exact ⟨[c], t, rfl, by simp, by simpa using hc, haccepts⟩
        · exact ⟨c :: blanks, rest, rfl, by simp, by simpa [hc] using hblanks, haccepts⟩
      · rintro ⟨blanks, rest, hsplit, hne, hblanks, haccepts⟩
        cases blanks with
        | nil => exact absurd rfl hne
        | cons d blanks =>
            obtain ⟨rfl, rfl⟩ := List.cons.inj hsplit
            refine ⟨hblanks c List.mem_cons_self, ?_⟩
            cases blanks with
            | nil => exact .inl haccepts
            | cons e blanks =>
                exact .inr ⟨e :: blanks, rest, rfl, by simp,
                  fun b hb => hblanks b (List.mem_cons_of_mem _ hb), haccepts⟩

theorem endsName_iff {t : Text} : endsName t = true ↔ ∀ c ∈ t.head?, isBlank c = true := by
  cases t <;> simp [endsName]

/-- The lines the literal expression finds. -/
theorem literalMatch_iff {item : Text} :
    literalMatch hostname item = true ↔
      ∃ address blanks rest, IsAddress address ∧ blanks ≠ [] ∧
        (∀ c ∈ blanks, isBlank c = true) ∧ (∀ c ∈ rest.head?, isBlank c = true) ∧
        item = address ++ (blanks ++ (hostname ++ rest)) := by
  have haccepts : ∀ t : Text,
      (hostname.isPrefixOf t && endsName (t.drop hostname.length)) = true ↔
        ∃ rest, t = hostname ++ rest ∧ ∀ c ∈ rest.head?, isBlank c = true := by
    intro t
    rw [Bool.and_eq_true, List.isPrefixOf_iff_prefix, endsName_iff]
    constructor
    · rintro ⟨⟨rest, rfl⟩, hend⟩
      exact ⟨rest, rfl, by rwa [List.drop_left] at hend⟩
    · rintro ⟨rest, rfl, hend⟩
      exact ⟨List.prefix_append _ _, by rwa [List.drop_left]⟩
  constructor
  · intro h
    unfold literalMatch at h
    cases hstrip : stripAddress item with
    | none => simp [hstrip] at h
    | some tail =>
        simp only [hstrip] at h
        obtain ⟨blanks, t, rfl, hne, hblanks, haccept⟩ := afterBlanks_iff.mp h
        obtain ⟨rest, rfl, hrest⟩ := (haccepts t).mp haccept
        obtain ⟨a, b, c, d, ha, hb, hc, hd, rfl, hdigit⟩ := stripAddress_iff.mp hstrip
        have haddress : IsAddress (a ++ '.' :: (b ++ '.' :: (c ++ '.' :: d))) :=
          stripAddress_iff.mpr ⟨a, b, c, d, ha, hb, hc, hd, by simp, by simp [NoDigit]⟩
        exact ⟨_, blanks, rest, haddress, hne, hblanks, hrest, by simp⟩
  · rintro ⟨address, blanks, rest, haddress, hne, hblanks, hrest, rfl⟩
    have hdigit : NoDigit (blanks ++ (hostname ++ rest)) := by
      obtain ⟨c, tail, rfl⟩ := List.exists_cons_of_ne_nil hne
      intro d hd
      have hcd : c = d := by simpa using hd
      have hblank := hblanks c List.mem_cons_self
      rw [← hcd, ← Bool.not_eq_true]
      intro hdigit
      have hhost : isHostChar c = true := by simp [isHostChar, hdigit]
      rw [(isHostChar_spec hhost).1] at hblank
      cases hblank
    have hafter : afterBlanks (fun t => hostname.isPrefixOf t &&
        endsName (t.drop hostname.length)) (blanks ++ (hostname ++ rest)) = true :=
      afterBlanks_iff.mpr ⟨blanks, hostname ++ rest, rfl, hne, hblanks,
        (haccepts _).mpr ⟨rest, rfl, hrest⟩⟩
    rw [literalMatch, stripAddress_append haddress hdigit]
    exact hafter

/-- White space in front of a text adds no field. -/
theorem fields_blanks {blanks t : Text} (hblanks : ∀ c ∈ blanks, isBlank c = true) :
    ((blanks ++ t).splitOnP isBlank).filter (· ≠ []) =
      (t.splitOnP isBlank).filter (· ≠ []) := by
  induction blanks with
  | nil => rfl
  | cons c blanks ih =>
      have hc := hblanks c List.mem_cons_self
      have hrest := ih fun d hd => hblanks d (List.mem_cons_of_mem _ hd)
      have hcons : (c :: (blanks ++ t)).splitOnP isBlank =
          [] :: (blanks ++ t).splitOnP isBlank :=
        List.splitOnP_append_cons [] (blanks ++ t) hc
      rw [List.cons_append, hcons, ← hrest]
      rfl

/-- A field in front of white space, or of the end, is the first field. -/
theorem fields_cons {first rest : Text} (hfirst : Field first)
    (hrest : ∀ c ∈ rest.head?, isBlank c = true) :
    ((first ++ rest).splitOnP isBlank).filter (· ≠ []) =
      first :: (rest.splitOnP isBlank).filter (· ≠ []) := by
  cases rest with
  | nil => simp [hfirst.splitOnP_isBlank, hfirst.1]
  | cons c rest =>
      have hc := hrest c rfl
      have hcons : (c :: rest).splitOnP isBlank = [] :: rest.splitOnP isBlank :=
        List.splitOnP_append_cons [] rest hc
      rw [List.splitOnP_append_cons _ _ hc, hfirst.splitOnP_isBlank, hcons]
      simp [hfirst.1]

/-- A line that the literal expression finds names the hostname. -/
theorem mem_hostnamesOf_of_literalMatch (ht : HostToken hostname) {item : Text}
    (h : literalMatch hostname item = true) : hostname ∈ hostnamesOf item := by
  obtain ⟨address, blanks, rest, haddress, hne, hblanks, hrest, rfl⟩ := literalMatch_iff.mp h
  have hcomment : (address ++ (blanks ++ (hostname ++ rest))).takeWhile (· ≠ '#') =
      address ++ (blanks ++ (hostname ++ rest.takeWhile (· ≠ '#'))) := by
    have hplain : ∀ t : Text, (∀ c ∈ t, c ≠ '#') → ∀ u : Text,
        (t ++ u).takeWhile (· ≠ '#') = t ++ u.takeWhile (· ≠ '#') := by
      intro t hchars u
      exact List.takeWhile_append_of_pos fun c hc => by simpa using hchars c hc
    rw [hplain _ (fun c hc => ((field_of_isAddress haddress).2 c hc).2.2.1),
      hplain _ (fun c hc => ?_), hplain _ (fun c hc => (ht.field.2 c hc).2.2.1)]
    rintro rfl
    exact absurd (hblanks _ hc) (by decide)
  have hhead : ∀ c ∈ (blanks ++ (hostname ++ rest.takeWhile (· ≠ '#'))).head?,
      isBlank c = true := by
    obtain ⟨d, tail, rfl⟩ := List.exists_cons_of_ne_nil hne
    intro c hc
    have hcd : d = c := by simpa using hc
    exact hcd ▸ hblanks d List.mem_cons_self
  have htail : ∀ c ∈ (rest.takeWhile (· ≠ '#')).head?, isBlank c = true := by
    intro c hc
    apply hrest c
    cases rest with
    | nil => simp at hc
    | cons d rest =>
        by_cases hd : d = '#'
        · simp [hd] at hc
        · simpa [hd] using hc
  rw [hostnamesOf, hcomment, fields_cons (field_of_isAddress haddress) hhead,
    fields_blanks hblanks, fields_cons ht.field htail, List.tail_cons]
  exact List.mem_cons_self

/-! ## What the edits leave -/

/-- A removal keeps the lines that its expression does not find. -/
theorem entries_removed (hplain : Plain hostname) :
    Text.entries (removed preg hostname file) =
      (Text.entries file).filter fun l => !literalMatch hostname l := by
  have hsubset : remove preg hostname (load file) ⊆ load file :=
    fun item hitem => (List.mem_filter.mp hitem).1
  rw [removed, entries_save_load file hsubset, remove, Text.entries, List.filter_filter,
    List.filter_filter]
  apply List.filter_congr
  intro l _
  rw [matchesLine, if_pos hplain, Bool.and_comm]

/-- A removal finds nothing exactly if it changes no line. -/
theorem entries_removed_eq_iff (hplain : Plain hostname) :
    Text.entries (removed preg hostname file) = Text.entries file ↔
      ∀ l ∈ Text.entries file, literalMatch hostname l = false := by
  rw [entries_removed hplain, List.filter_eq_self]
  simp only [Bool.not_eq_true']

/-- An addition puts one item behind what a removal leaves. -/
theorem entries_added_eq (hlocal : hostname ≠ "localhost".toList) :
    Text.entries (added preg address hostname file) =
      Text.entries (removed preg hostname file) ++
        Text.entries (address ++ '\t' :: hostname) := by
  rw [added, add, if_neg hlocal, save, get, Text.entries_trim, Text.entries_joinLines,
    List.flatMap_append, removed, save, get, Text.entries_trim, Text.entries_joinLines]
  simp

theorem linesFor_removed (ht : HostToken hostname) (other : Text) :
    linesFor other (removed preg hostname file) =
      (linesFor other file).filter fun l => !literalMatch hostname l := by
  rw [linesFor, entries_removed ht.plain, List.filter_comm]
  rfl

/-- A proper line that is added stands behind what a removal leaves. -/
theorem entries_added (ht : HostToken hostname) (haddress : Field address)
    (hlocal : hostname ≠ "localhost".toList) :
    Text.entries (added preg address hostname file) =
      Text.entries (removed preg hostname file) ++ [address ++ '\t' :: hostname] := by
  rw [entries_added_eq hlocal, haddress.entries_line ht.field]

theorem linesFor_added (ht : HostToken hostname) (haddress : Field address)
    (hlocal : hostname ≠ "localhost".toList) (other : Text) :
    linesFor other (added preg address hostname file) =
      linesFor other (removed preg hostname file) ++
        if other = hostname then [address ++ '\t' :: hostname] else [] := by
  rw [linesFor, entries_added ht haddress hlocal, List.filter_append]
  have hnames := haddress.hostnamesOf_line ht.field
  by_cases hother : other = hostname
  · simp [mentions, hnames, hother, linesFor]
  · simp [mentions, hnames, hother, linesFor]

theorem addressOf_line (ht : HostToken hostname) (haddress : Field address) :
    addressOf (address ++ '\t' :: hostname) = address := by
  have htab : ∀ c ∈ ('\t' :: hostname).head?, isBlank c = true := by
    intro c hc
    rw [← Option.some.inj hc]
    rfl
  rw [addressOf, haddress.takeWhile_line ht.field, fields_cons haddress htab]
  rfl

/-- A line maps its hostnames to a field, so to a nonempty text. -/
theorem ne_nil_of_mem_addressesFor (h : address ∈ addressesFor hostname file) : address ≠ [] := by
  obtain ⟨l, hl, rfl⟩ := List.mem_map.mp h
  have hnames : hostname ∈ hostnamesOf l := by
    simpa [mentions] using (List.mem_filter.mp hl).2
  unfold hostnamesOf at hnames
  unfold addressOf
  cases hfields : ((l.takeWhile (· ≠ '#')).splitOnP isBlank).filter (· ≠ []) with
  | nil =>
      rw [hfields] at hnames
      cases hnames
  | cons first rest =>
      have hfirst : first ∈ ((l.takeWhile (· ≠ '#')).splitOnP isBlank).filter (· ≠ []) := by
        rw [hfields]
        exact List.mem_cons_self
      simpa using (List.mem_filter.mp hfirst).2

/-- A line for one hostname survives the addition of another. -/
theorem mem_add_of_mem (ht : HostToken hostname) (haddress : Field address) {other : Text}
    (hother : HostToken other) {data : List Text}
    (hmem : address ++ '\t' :: hostname ∈ data) :
    address ++ '\t' :: hostname ∈ add preg address other data := by
  by_cases hlocal : other = "localhost".toList
  · rwa [add, if_pos hlocal]
  · rw [add, if_neg hlocal, List.mem_append, List.mem_singleton]
    by_cases hsame : other = hostname
    · exact .inr (by rw [hsame])
    · left
      refine List.mem_filter.mpr ⟨hmem, ?_⟩
      rw [Bool.not_eq_true', ← Bool.not_eq_true, matchesLine, if_pos hother.plain]
      intro hmatch
      have hnames := mem_hostnamesOf_of_literalMatch hother hmatch
      rw [haddress.hostnamesOf_line ht.field, List.mem_singleton] at hnames
      exact hsame hnames

/-- Of hostnames added one after another each has its line in the end. -/
theorem mem_addAll_of_mem (preg : Text → Text → Bool) (data : List Text)
    (haddress : Field address) {others : List Text}
    (hothers : ∀ o ∈ others, HostToken o ∧ o ≠ "localhost".toList) (hmem : hostname ∈ others) :
    address ++ '\t' :: hostname ∈ addAll preg address others data := by
  have hkept : ∀ (later data : List Text), (∀ o ∈ later, HostToken o) →
      address ++ '\t' :: hostname ∈ data →
      address ++ '\t' :: hostname ∈ addAll preg address later data := by
    intro later
    induction later with
    | nil => exact fun _ _ hdata => hdata
    | cons other later ih =>
        intro data htokens hdata
        apply ih _ fun o ho => htokens o (List.mem_cons_of_mem _ ho)
        exact mem_add_of_mem (hothers hostname hmem).1 haddress (htokens other List.mem_cons_self)
          hdata
  obtain ⟨front, later, rfl⟩ := List.append_of_mem hmem
  have hself := hothers hostname hmem
  have hfold : addAll preg address (front ++ hostname :: later) data =
      addAll preg address later (add preg address hostname (addAll preg address front data)) := by
    unfold addAll
    rw [List.foldl_append, List.foldl_cons]
  rw [hfold]
  apply hkept later _ fun o ho => (hothers o (by simp [ho])).1
  rw [add, if_neg hself.2]
  exact List.mem_append_right _ (List.mem_singleton_self _)

/-- The file then maps each of them to the address. -/
theorem mem_addressesFor_addAll (haddress : Field address) {others : List Text}
    (hothers : ∀ o ∈ others, HostToken o ∧ o ≠ "localhost".toList)
    (hmem : hostname ∈ others) :
    address ∈ addressesFor hostname (save (addAll preg address others (load file))) := by
  have ht := (hothers hostname hmem).1
  have hline := mem_addAll_of_mem preg (load file) haddress hothers hmem
  refine List.mem_map.mpr ⟨address ++ '\t' :: hostname, ?_, addressOf_line ht haddress⟩
  refine List.mem_filter.mpr ⟨?_, ?_⟩
  · rw [save, get, Text.entries_trim, Text.entries_joinLines, List.mem_flatMap]
    refine ⟨_, hline, ?_⟩
    rw [haddress.entries_line ht.field]
    exact List.mem_singleton_self _
  · simp [mentions, haddress.hostnamesOf_line ht.field]

/-! ## When an edit is exact -/

/-- Keeping part of a list under a map is keeping the whole list. -/
private theorem map_filter_eq_map_iff {p : Text → Bool} {f : Text → Text} {ls : List Text} :
    (ls.filter p).map f = ls.map f ↔ ∀ l ∈ ls, p l = true := by
  constructor
  · intro h
    have hlength := congrArg List.length h
    rw [List.length_map, List.length_map] at hlength
    exact List.filter_eq_self.mp (List.filter_sublist.eq_of_length hlength)
  · intro h
    rw [List.filter_eq_self.mpr h]

/-- A removal leaves the other hostnames alone exactly if no line it finds names
one of them. -/
theorem othersKept_removed_iff (ht : HostToken hostname) :
    OthersKept hostname file (removed preg hostname file) ↔
      ∀ l ∈ Text.entries file, literalMatch hostname l = true →
        ∀ other ∈ hostnamesOf l, other = hostname := by
  simp only [OthersKept, addressesFor, linesFor_removed ht, map_filter_eq_map_iff]
  constructor
  · intro h l hl hmatch other hother
    by_contra hne
    have hmem : l ∈ linesFor other file := List.mem_filter.mpr ⟨hl, by simpa [mentions]⟩
    have hkept := h other hne l hmem
    rw [hmatch] at hkept
    cases hkept
  · intro h other hne l hl
    obtain ⟨hentry, hmentions⟩ := List.mem_filter.mp hl
    have hother : other ∈ hostnamesOf l := by simpa [mentions] using hmentions
    rw [Bool.not_eq_true', ← Bool.not_eq_true]
    exact fun hmatch => hne (h l hentry hmatch other hother)

/-- A removal takes its hostname out exactly if it finds every line for it. -/
theorem gone_removed_iff (ht : HostToken hostname) :
    (∀ l ∈ Text.entries (removed preg hostname file), hostname ∉ hostnamesOf l) ↔
      ∀ l ∈ Text.entries file, hostname ∈ hostnamesOf l →
        literalMatch hostname l = true := by
  rw [entries_removed ht.plain]
  constructor
  · intro h l hl hname
    by_contra hmiss
    exact h l (List.mem_filter.mpr ⟨hl, by simpa using hmiss⟩) hname
  · intro h l hl hname
    obtain ⟨hentry, hkept⟩ := List.mem_filter.mp hl
    rw [h l hentry hname] at hkept
    cases hkept

theorem removesOnly_removed_iff (ht : HostToken hostname) :
    RemovesOnly hostname file (removed preg hostname file) ↔
      ∀ l ∈ Text.entries file, hostname ∈ hostnamesOf l → OwnLine hostname l := by
  rw [RemovesOnly, gone_removed_iff ht, othersKept_removed_iff ht]
  constructor
  · rintro ⟨hfound, halone⟩ l hl hname
    exact ⟨hfound l hl hname, halone l hl (hfound l hl hname)⟩
  · intro h
    refine ⟨fun l hl hname => (h l hl hname).1, fun l hl hmatch => ?_⟩
    exact (h l hl (mem_hostnamesOf_of_literalMatch ht hmatch)).2

/-- An addition is exact where the removal in it is. -/
theorem addsOnly_iff (ht : HostToken hostname) (haddress : Field address)
    (hlocal : hostname ≠ "localhost".toList) :
    AddsOnly address hostname file (added preg address hostname file) ↔
      RemovesOnly hostname file (removed preg hostname file) := by
  have hothers : OthersKept hostname file (added preg address hostname file) ↔
      OthersKept hostname file (removed preg hostname file) := by
    refine forall_congr' fun other => imp_congr_right fun hne => ?_
    rw [addressesFor, linesFor_added ht haddress hlocal, if_neg hne, List.append_nil]
    rfl
  have hself : addressesFor hostname (added preg address hostname file) = [address] ↔
      ∀ l ∈ Text.entries (removed preg hostname file), hostname ∉ hostnamesOf l := by
    rw [addressesFor, linesFor_added ht haddress hlocal, if_pos rfl, List.map_append,
      List.map_singleton, addressOf_line ht haddress, List.append_left_eq_self,
      List.map_eq_nil_iff, linesFor, List.filter_eq_nil_iff]
    simp [mentions]
  rw [AddsOnly, RemovesOnly, hothers, hself]

/-- An edit changes the mapping of its hostname and of no other exactly if
every line that names the hostname is a line of the manager's kind. -/
theorem hosts_edits_exact (preg : Text → Text → Bool) {hostname : Text}
    (ht : HostToken hostname) (file : Text) :
    (RemovesOnly hostname file (removed preg hostname file) ↔
      ∀ l ∈ Text.entries file, hostname ∈ hostnamesOf l → OwnLine hostname l) ∧
    ∀ address, Field address → hostname ≠ "localhost".toList →
      (AddsOnly address hostname file (added preg address hostname file) ↔
        ∀ l ∈ Text.entries file, hostname ∈ hostnamesOf l → OwnLine hostname l) :=
  ⟨removesOnly_removed_iff ht, fun _ haddress hlocal =>
    (addsOnly_iff ht haddress hlocal).trans (removesOnly_removed_iff ht)⟩

/-- A file with a comment, an address of version six and a line of the manager's
kind, asked to map a wildcard. -/
theorem hosts_edits_exact_sample :
    AddsOnly "10.0.0.7".toList "*.a".toList "# local\r\n::1 b\r\n127.0.0.1\t*.a".toList
      (added (fun _ _ => false) "10.0.0.7".toList "*.a".toList
        "# local\r\n::1 b\r\n127.0.0.1\t*.a".toList) :=
  ((@hosts_edits_exact (fun _ _ => false) "*.a".toList ⟨by decide, by decide⟩
    "# local\r\n::1 b\r\n127.0.0.1\t*.a".toList).2 "10.0.0.7".toList
      ⟨by decide, by decide⟩ (by decide)).mpr (by decide)

/-- Two hostnames on one line: removing the first takes the second along. -/
theorem hosts_edits_fail :
    ¬ ∀ (preg : Text → Text → Bool) (hostname file : Text), HostToken hostname →
      RemovesOnly hostname file (removed preg hostname file) := by
  intro hclaim
  have hexact := hclaim (fun _ _ => false) "a".toList "127.0.0.1 a b".toList
    ⟨by decide, by decide⟩
  have hkept := hexact.2 "b".toList (by decide)
  revert hkept
  decide

end Hosts

end WampManager
