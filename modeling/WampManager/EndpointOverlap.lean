/-
# Endpoints in use

Whether an endpoint is in use is asked of the endpoint table and of the listing of the
processes, each with a branch of its own for the address of all interfaces. Behind
the four branches stands one relation: the same protocol, the same port, and interfaces
that are equal or one of which is all. The database compares texts; the listing is
compared loosely, where different texts can be one number. The module says for which
endpoints the branches agree.
-/

import WampManager.Ports
import WampManager.Lib.WholeDoubles

namespace WampManager

namespace Util

open Loose (textEq Confused)

/-! ## Endpoints -/

/-- An endpoint. A tab or a line feed would end a column of the listing. -/
structure Endpoint where
  proto : Text
  interface : Text
  port : ℕ
  unbroken : ∀ c ∈ proto ++ interface, c ≠ '\t' ∧ c ≠ '\n'

namespace Endpoint

/-- The port as a text. -/
def portText (a : Endpoint) : Text := decimal a.port

/-- Two interfaces meet: they are equal, or one stands for all. -/
def Meet (first second : Text) : Prop :=
  first = second ∨ first = anyInterface ∨ second = anyInterface

/-- Two endpoints that cannot both be listened on. -/
structure Overlap (a b : Endpoint) : Prop where
  proto : a.proto = b.proto
  port : a.port = b.port
  interface : Meet a.interface b.interface

theorem Overlap.symm {a b : Endpoint} (h : Overlap a b) : Overlap b a := by
  refine ⟨h.proto.symm, h.port.symm, ?_⟩
  rcases h.interface with heq | ha | hb
  · exact .inl heq.symm
  · exact .inr (.inr ha)
  · exact .inr (.inl hb)

/-! ## Where they are found -/

variable (sqlite : Sqlite)

/-- What `registerEndpoint` writes. -/
def row (instanceId : ℤ) (type : Option Text) (a : Endpoint) : EndpointRow :=
  ⟨instanceId, a.proto, .text a.interface, sqlite.asInteger (.text a.portText), type⟩

/-- A row of the table that holds an endpoint. -/
def Stores (a : Endpoint) (r : EndpointRow) : Prop :=
  ∃ instanceId type, r = a.row sqlite instanceId type

/-- A line of the listing that holds an endpoint, with the process behind it. -/
def Lists (a : Endpoint) (line : Text) : Prop :=
  ∃ rest, line.splitOn '\t' = a.proto :: a.interface :: a.portText :: rest

/-- An endpoint is in the table or in the listing. -/
def Found (db : Database) (output : Option Text) (a : Endpoint) : Prop :=
  (∃ entry ∈ db.endpoints.rows, a.Stores sqlite entry.2) ∨
    ∃ line ∈ netstatLines output, a.Lists line

/-- A table and a listing of certain endpoints only. The listing of none is an empty
line. -/
structure Holds (E : Set Endpoint) (db : Database) (output : Option Text) : Prop where
  table : ∀ entry ∈ db.endpoints.rows, ∃ a ∈ E, a.Stores sqlite entry.2
  listing : ∀ line ∈ netstatLines output, line = [] ∨ ∃ a ∈ E, a.Lists line

/-- `endpointInUse` for an endpoint. -/
def inUse (db : Database) (output : Option Text) (b : Endpoint) : Bool :=
  endpointInUse sqlite db output b.proto (.text b.interface) (.text b.portText)

/-- The table after `registerEndpoint` was called once. -/
def registered (a : Endpoint) : Database :=
  { Database.empty with endpoints := Table.empty.insert (a.row sqlite 1 none) }

/-- A listing of one process that listens on an endpoint. -/
def printed (a : Endpoint) : Option Text :=
  some ("4\tSystem\n\n".toList ++
    (a.proto ++ '\t' :: (a.interface ++ '\t' :: (a.portText ++ "\t4".toList))))

/-! ## The relation behind the branches -/

/-- Testing and registering can change places, it does not matter where an endpoint is
found, and what is in use is what overlaps with something found. -/
structure OneRelation (E : Set Endpoint) : Prop where
  registered_symm : ∀ a ∈ E, ∀ b ∈ E,
    inUse sqlite (registered sqlite a) none b = inUse sqlite (registered sqlite b) none a
  printed_symm : ∀ a ∈ E, ∀ b ∈ E,
    inUse sqlite .empty (printed a) b = inUse sqlite .empty (printed b) a
  same : ∀ a ∈ E, ∀ b ∈ E,
    inUse sqlite (registered sqlite a) none b = inUse sqlite .empty (printed a) b
  pair : ∀ a ∈ E, ∀ b ∈ E, inUse sqlite (registered sqlite a) none b = true ↔ Overlap a b
  exact : ∀ db output, Holds sqlite E db output → ∀ b ∈ E,
    inUse sqlite db output b = true ↔ ∃ a ∈ E, Found sqlite db output a ∧ Overlap a b

/-- The texts of two endpoints are loosely equal where they would have to be equal. For
numerals, such as the ports, that is equality. -/
structure LooseOverlap (a b : Endpoint) : Prop where
  proto : textEq a.proto b.proto = true
  port : a.port = b.port
  interface : textEq a.interface b.interface = true ∨
    a.interface = anyInterface ∨ b.interface = anyInterface

/-- Two endpoints are told apart: no two protocols or interfaces of theirs are taken for one
number where that alone decides, and an INTEGER column keeps their ports apart where
the rest agrees. -/
structure ToldApart (a b : Endpoint) : Prop where
  listed : LooseOverlap a b → ¬ Confused a.proto b.proto ∧
    (Confused a.interface b.interface → a.interface = anyInterface ∨ b.interface = anyInterface)
  stored : a.proto = b.proto → Meet a.interface b.interface →
    (sqlEq (sqlite.asInteger (.text a.portText)) (sqlite.asInteger (.text b.portText)) = true ↔
      a.port = b.port)

variable {sqlite} {a b : Endpoint}

theorem textEq_iff (s t : Text) : textEq s t = true ↔ s = t ∨ Confused s t := by
  rw [← Loose.textEq_and_ne_iff]
  constructor
  · intro h
    exact (Classical.em (s = t)).imp_right fun hne => ⟨h, hne⟩
  · rintro (rfl | h)
    · exact Loose.textEq_self s
    · exact h.1

theorem portText_ne_nil (a : Endpoint) : a.portText ≠ [] := Nat.toDigits_ne_nil

/-- The address of all interfaces is no number, so that it is loosely equal to itself only. -/
theorem textEq_anyInterface (t : Text) : textEq t anyInterface = true ↔ t = anyInterface := by
  have hnone : Loose.number? anyInterface = none := by decide +kernel
  rw [textEq_iff, or_iff_left]
  rintro ⟨-, m, n, -, hn, -⟩
  rw [hnone] at hn
  cases hn

/-- What overlaps does so loosely. -/
theorem Overlap.loose (h : Overlap a b) : LooseOverlap a b := by
  refine ⟨h.proto ▸ Loose.textEq_self _, h.port, ?_⟩
  rcases h.interface with heq | ha | hb
  · exact .inl (heq ▸ Loose.textEq_self _)
  · exact .inr (.inl ha)
  · exact .inr (.inr hb)

/-! ## The branches -/

/-- The condition of the query on a row of the table. -/
def rowTest (sqlite : Sqlite) (b : Endpoint) (r : EndpointRow) : Bool :=
  r.proto == b.proto &&
    (Loose.looseEq (.text b.interface) (.text anyInterface) ||
      r.interface == .text anyInterface || sqlEq r.interface (.text b.interface)) &&
    sqlEq r.port (sqlite.asInteger (.text b.portText))

/-- The condition of the loop on a line of the listing. -/
def lineTest (b : Endpoint) (line : Text) : Bool :=
  let parts := line.splitOn '\t'
  Loose.looseEq (column parts 0) (.text b.proto) &&
    (Loose.looseEq (.text b.interface) (.text anyInterface) ||
      Loose.looseEq (column parts 1) (.text anyInterface) ||
      Loose.looseEq (column parts 1) (.text b.interface)) &&
    Loose.looseEq (column parts 2) (.text b.portText)

theorem inUse_iff {db : Database} {output : Option Text} :
    inUse sqlite db output b = true ↔ (∃ entry ∈ db.endpoints.rows, b.rowTest sqlite entry.2 = true) ∨
      ∃ line ∈ netstatLines output, b.lineTest line = true := by
  have heq : inUse sqlite db output b = (db.endpoints.rows.any (fun entry => b.rowTest sqlite entry.2) ||
    (netstatLines output).any b.lineTest) := rfl
  rw [heq, Bool.or_eq_true, List.any_eq_true, List.any_eq_true]

theorem rowTest_iff {r : EndpointRow} (h : a.Stores sqlite r) : b.rowTest sqlite r = true ↔
    a.proto = b.proto ∧ Meet a.interface b.interface ∧
      sqlEq (sqlite.asInteger (.text a.portText)) (sqlite.asInteger (.text b.portText)) = true := by
  obtain ⟨instanceId, type, rfl⟩ := h
  have hany : Loose.looseEq (.text b.interface) (.text anyInterface) = true ↔
      b.interface = anyInterface := textEq_anyInterface b.interface
  have hinterface : sqlEq (.text a.interface) (.text b.interface) = true ↔
      a.interface = b.interface := by simp [sqlEq]
  simp only [rowTest, row, Bool.and_eq_true, Bool.or_eq_true, beq_iff_eq, hany, hinterface,
    SqlValue.text.injEq, Meet]
  constructor
  · rintro ⟨⟨hproto, (hb | ha) | heq⟩, hport⟩
    · exact ⟨hproto, .inr (.inr hb), hport⟩
    · exact ⟨hproto, .inr (.inl ha), hport⟩
    · exact ⟨hproto, .inl heq, hport⟩
  · rintro ⟨hproto, heq | ha | hb, hport⟩
    · exact ⟨⟨hproto, .inr heq⟩, hport⟩
    · exact ⟨⟨hproto, .inl (.inr ha)⟩, hport⟩
    · exact ⟨⟨hproto, .inl (.inl hb)⟩, hport⟩

/-- The query finds what overlaps exactly if the columns keep the ports apart. -/
theorem rowTest_iff_overlap_iff {r : EndpointRow} (h : a.Stores sqlite r) :
    (b.rowTest sqlite r = true ↔ Overlap a b) ↔
      (a.proto = b.proto → Meet a.interface b.interface →
        (sqlEq (sqlite.asInteger (.text a.portText)) (sqlite.asInteger (.text b.portText)) = true ↔
          a.port = b.port)) := by
  rw [rowTest_iff h]
  constructor
  · intro hiff hproto hinterface
    constructor
    · exact fun hport => (hiff.mp ⟨hproto, hinterface, hport⟩).port
    · exact fun hport => (hiff.mpr ⟨hproto, hport, hinterface⟩).2.2
  · intro hports
    constructor
    · rintro ⟨hproto, hinterface, hport⟩
      exact ⟨hproto, (hports hproto hinterface).mp hport, hinterface⟩
    · rintro ⟨hproto, hport, hinterface⟩
      exact ⟨hproto, hinterface, (hports hproto hinterface).mpr hport⟩

theorem lineTest_iff {line : Text} (h : a.Lists line) :
    b.lineTest line = true ↔ LooseOverlap a b := by
  obtain ⟨rest, hline⟩ := h
  have htest : b.lineTest line = (textEq a.proto b.proto &&
      (textEq b.interface anyInterface || textEq a.interface anyInterface ||
        textEq a.interface b.interface) && textEq a.portText b.portText) := by
    rw [lineTest, hline]
    rfl
  have hports : textEq a.portText b.portText = decide (a.port = b.port) :=
    Loose.textEq_toDigits a.port b.port
  simp only [htest, hports, Bool.and_eq_true, Bool.or_eq_true, textEq_anyInterface,
    decide_eq_true_iff]
  constructor
  · rintro ⟨⟨hproto, (hb | ha) | heq⟩, hport⟩
    · exact ⟨hproto, hport, .inr (.inr hb)⟩
    · exact ⟨hproto, hport, .inr (.inl ha)⟩
    · exact ⟨hproto, hport, .inl heq⟩
  · rintro ⟨hproto, hport, heq | ha | hb⟩
    · exact ⟨⟨hproto, .inr heq⟩, hport⟩
    · exact ⟨⟨hproto, .inl (.inr ha)⟩, hport⟩
    · exact ⟨⟨hproto, .inl (.inl hb)⟩, hport⟩

/-- The loop finds what overlaps exactly if no two texts are taken for one number. -/
theorem lineTest_iff_overlap_iff {line : Text} (h : a.Lists line) :
    (b.lineTest line = true ↔ Overlap a b) ↔
      (LooseOverlap a b → ¬ Confused a.proto b.proto ∧
        (Confused a.interface b.interface →
          a.interface = anyInterface ∨ b.interface = anyInterface)) := by
  rw [lineTest_iff h]
  constructor
  · intro hiff hloose
    have hoverlap := hiff.mp hloose
    refine ⟨fun hproto => hproto.1 hoverlap.proto, fun hconfused => ?_⟩
    exact hoverlap.interface.resolve_left hconfused.1
  · intro happart
    refine ⟨fun hloose => ?_, Overlap.loose⟩
    obtain ⟨hproto, hinterface⟩ := happart hloose
    refine ⟨((textEq_iff _ _).mp hloose.proto).resolve_right hproto, hloose.port, ?_⟩
    rcases hloose.interface with heq | hany
    · exact ((textEq_iff _ _).mp heq).imp_right hinterface
    · exact .inr hany

/-- An empty line holds no endpoint. -/
theorem lineTest_nil (b : Endpoint) : b.lineTest [] = false := by
  have hport : Loose.looseEq (column (([] : Text).splitOn '\t') 2) (.text b.portText) = false := by
    change b.portText.isEmpty = false
    exact List.isEmpty_eq_false_iff.mpr b.portText_ne_nil
  rw [lineTest, hport, Bool.and_false]

/-- The listing of nothing is an empty line. -/
theorem netstatLines_none : netstatLines none = [[]] := by decide

/-- The listing of an endpoint is one line. -/
theorem netstatLines_printed (a : Endpoint) :
    ∃ line, netstatLines (printed a) = [line] ∧ a.Lists line := by
  set line := a.proto ++ '\t' :: (a.interface ++ '\t' :: (a.portText ++ "\t4".toList)) with hdef
  have hproto : ∀ c ∈ a.proto, c ≠ '\t' ∧ c ≠ '\n' := fun c hc =>
    a.unbroken c (List.mem_append_left _ hc)
  have hinterface : ∀ c ∈ a.interface, c ≠ '\t' ∧ c ≠ '\n' := fun c hc =>
    a.unbroken c (List.mem_append_right _ hc)
  have hport : ∀ c ∈ a.portText, c ≠ '\t' ∧ c ≠ '\n' := by
    intro c hc
    have hdigit : c.isDigit := Nat.isDigit_of_mem_toDigits (by decide) (by decide) hc
    constructor
    · rintro rfl
      exact absurd hdigit (by decide)
    · rintro rfl
      exact absurd hdigit (by decide)
  refine ⟨line, ?_, "4".toList :: [], ?_⟩
  · have hline : '\n' ∉ line := by
      simp only [hdef, List.mem_append, List.mem_cons, not_or]
      exact ⟨fun hc => (hproto _ hc).2 rfl, by decide, fun hc => (hinterface _ hc).2 rfl,
        by decide, fun hc => (hport _ hc).2 rfl, by decide⟩
    have htrim : Text.trim ("4\tSystem\n\n".toList ++ line) = "4\tSystem\n\n".toList ++ line := by
      refine Text.trim_of_no_ends ?_ ?_
      · intro c hc
        obtain rfl := Option.some.inj hc
        rfl
      · intro c hc
        have hlast : ("4\tSystem\n\n".toList ++ line).getLast? = some '4' := by
          have heq : line =
              (a.proto ++ '\t' :: (a.interface ++ '\t' :: (a.portText ++ ['\t']))) ++ ['4'] := by
            simp [hdef]
          rw [heq, ← List.append_assoc, List.getLast?_concat]
        rw [hlast] at hc
        obtain rfl := Option.some.inj hc
        rfl
    have hsplit : ("4\tSystem\n\n".toList ++ line).splitOn '\n' =
        ["4\tSystem".toList, [], line] := by
      have hhead : "4\tSystem\n\n".toList ++ line =
          "4\tSystem".toList ++ '\n' :: ([] ++ '\n' :: line) := rfl
      rw [hhead, List.splitOn_append_cons_self_of_not_mem (by decide),
        List.splitOn_append_cons_self_of_not_mem List.not_mem_nil,
        List.splitOn_eq_singleton hline]
    rw [netstatLines, printed, Option.getD_some, htrim, hsplit]
    rfl
  · rw [hdef, List.splitOn_append_cons_self_of_not_mem fun hc => (hproto _ hc).1 rfl,
      List.splitOn_append_cons_self_of_not_mem fun hc => (hinterface _ hc).1 rfl]
    have hlast : a.portText ++ "\t4".toList = a.portText ++ '\t' :: "4".toList := rfl
    rw [hlast, List.splitOn_append_cons_self_of_not_mem fun hc => (hport _ hc).1 rfl]
    rfl

theorem inUse_registered_iff : inUse sqlite (registered sqlite a) none b = true ↔
    b.rowTest sqlite (a.row sqlite 1 none) = true := by
  rw [inUse_iff, netstatLines_none, or_iff_left]
  · change (∃ entry ∈ [(_, a.row sqlite 1 none)], _) ↔ _
    simp
  · simp [lineTest_nil]

theorem inUse_printed_iff {line : Text} (h : netstatLines (printed a) = [line]) :
    inUse sqlite .empty (printed a) b = true ↔ b.lineTest line = true := by
  rw [inUse_iff, h, or_iff_right]
  · simp
  · rintro ⟨entry, hentry, -⟩
    exact List.not_mem_nil hentry

/-- The branches implement one relation on a set of endpoints exactly if each two of
them are told apart. -/
theorem endpoints_in_use (sqlite : Sqlite) (E : Set Endpoint) :
    OneRelation sqlite E ↔ ∀ a ∈ E, ∀ b ∈ E, ToldApart sqlite a b := by
  have hregistered (a b : Endpoint) : inUse sqlite (registered sqlite a) none b = true ↔
      b.rowTest sqlite (a.row sqlite 1 none) = true := inUse_registered_iff
  constructor
  · intro h a ha b hb
    obtain ⟨line, hline, hlists⟩ := netstatLines_printed a
    constructor
    · have hprinted : inUse sqlite .empty (printed a) b = true ↔ b.lineTest line = true :=
        inUse_printed_iff hline
      rw [← lineTest_iff_overlap_iff hlists, ← hprinted, ← h.same a ha b hb]
      exact h.pair a ha b hb
    · rw [← rowTest_iff_overlap_iff ⟨1, none, rfl⟩, ← hregistered]
      exact h.pair a ha b hb
  · intro h
    have htable {a b : Endpoint} (ha : a ∈ E) (hb : b ∈ E) :
        inUse sqlite (registered sqlite a) none b = true ↔ Overlap a b :=
      (hregistered a b).trans ((rowTest_iff_overlap_iff ⟨1, none, rfl⟩).mpr (h a ha b hb).stored)
    have hprinted {a b : Endpoint} (ha : a ∈ E) (hb : b ∈ E) :
        inUse sqlite .empty (printed a) b = true ↔ Overlap a b := by
      obtain ⟨line, hline, hlists⟩ := netstatLines_printed a
      exact (inUse_printed_iff hline).trans
        ((lineTest_iff_overlap_iff hlists).mpr (h a ha b hb).listed)
    constructor
    · intro a ha b hb
      rw [Bool.eq_iff_iff, htable ha hb, htable hb ha]
      exact ⟨Overlap.symm, Overlap.symm⟩
    · intro a ha b hb
      rw [Bool.eq_iff_iff, hprinted ha hb, hprinted hb ha]
      exact ⟨Overlap.symm, Overlap.symm⟩
    · intro a ha b hb
      rw [Bool.eq_iff_iff, htable ha hb, hprinted ha hb]
    · exact fun a ha b hb => htable ha hb
    · intro db output hholds b hb
      rw [inUse_iff]
      constructor
      · rintro (⟨entry, hentry, htest⟩ | ⟨line, hline, htest⟩)
        · obtain ⟨a, ha, hstores⟩ := hholds.table entry hentry
          exact ⟨a, ha, .inl ⟨entry, hentry, hstores⟩,
            ((rowTest_iff_overlap_iff hstores).mpr (h a ha b hb).stored).mp htest⟩
        · rcases hholds.listing line hline with rfl | ⟨a, ha, hlists⟩
          · rw [lineTest_nil] at htest
            cases htest
          · exact ⟨a, ha, .inr ⟨line, hline, hlists⟩,
              ((lineTest_iff_overlap_iff hlists).mpr (h a ha b hb).listed).mp htest⟩
      · rintro ⟨a, ha, ⟨entry, hentry, hstores⟩ | ⟨line, hline, hlists⟩, hoverlap⟩
        · exact .inl ⟨entry, hentry,
            ((rowTest_iff_overlap_iff hstores).mpr (h a ha b hb).stored).mpr hoverlap⟩
        · exact .inr ⟨line, hline,
            ((lineTest_iff_overlap_iff hlists).mpr (h a ha b hb).listed).mpr hoverlap⟩

/-- Endpoints whose protocol and address are no numbers are told apart, if their ports
are ports. -/
theorem toldApart_of_words (hreads : Ports.ReadsNumerals sqlite)
    (hproto : Loose.isNumeric a.proto = false) (hinterface : Loose.isNumeric a.interface = false)
    (ha : 1 ≤ a.port ∧ a.port ≤ 65535) (hb : 1 ≤ b.port ∧ b.port ≤ 65535) :
    ToldApart sqlite a b := by
  have hconfused {s t : Text} (hs : Loose.isNumeric s = false) : ¬ Confused s t := by
    rintro ⟨-, m, n, hm, -⟩
    rw [Loose.isNumeric, hm] at hs
    cases hs
  have hstored {c : Endpoint} (hc : 1 ≤ c.port ∧ c.port ≤ 65535) :
      sqlite.asInteger (.text c.portText) = .int c.port :=
    hreads.whole _ _ (by omega) (Ports.whole?_decimal (by omega) (by omega))
  constructor
  · intro _
    exact ⟨hconfused hproto, fun h => absurd h (hconfused hinterface)⟩
  · intro _ _
    rw [hstored ha, hstored hb]
    rw [sqlEq, Bool.and_eq_true, bne_iff_ne, beq_iff_eq, SqlValue.int.injEq, Int.natCast_inj]
    exact and_iff_right SqlValue.noConfusion

/-- Two addresses for one number. -/
theorem confused_interfaces :
    ¬ ∀ (sqlite : Sqlite) (a b : Endpoint), Ports.ReadsNumerals sqlite →
      inUse sqlite (registered sqlite a) none b = inUse sqlite .empty (printed a) b := by
  intro h
  let a : Endpoint := ⟨"tcp".toList, "1e1".toList, 80, by decide⟩
  let b : Endpoint := ⟨"tcp".toList, "10".toList, 80, by decide⟩
  have hregistered : inUse Ports.sampleEngine (registered Ports.sampleEngine a) none b = false := by
    decide +kernel
  have hprinted : inUse Ports.sampleEngine .empty (printed a) b = true := by decide +kernel
  have hsame := h Ports.sampleEngine a b Ports.readsNumerals_sampleEngine
  rw [hregistered, hprinted] at hsame
  cases hsame

end Endpoint

end Util

end WampManager
