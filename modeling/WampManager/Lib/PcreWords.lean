/-
# Expressions that read words from a list

A group whose alternatives are spelled out reads one of finitely many words. The words of
an expression follow its structure, so that a list of words can be compared with the one
that was meant.
-/

import WampManager.Lib.Pcre

namespace Pcre

namespace Regex

/-- The expression reads exactly the words of a list, none of them empty. -/
def Reads (r : Regex) (words : List Text) : Prop :=
  ∀ b t b' u, (b', u) ∈ ends r b t ↔ b' = false ∧ ∃ w ∈ words, t = w ++ u

/-- All words of the first list before all of the second. -/
def joins (first second : List Text) : List Text :=
  first.flatMap fun w => second.map fun v => w ++ v

/-- A class of characters that are listed. -/
def oneOf (c : Char) : List Char → Regex
  | [] => .char (.lit c)
  | d :: cs => .alt (.char (.lit c)) (oneOf d cs)

def digits : List Char := ['0', '1', '2', '3', '4', '5', '6', '7', '8', '9']

theorem isDigit_iff_mem (c : Char) : c.isDigit = true ↔ c ∈ digits := by
  constructor
  · intro h
    have hval : 48 ≤ c.toNat ∧ c.toNat ≤ 57 := Char.isDigit_iff_toNat.mp h
    have hcases : ∀ n ≤ 9, Char.ofNat (48 + n) ∈ digits := by decide
    have hmem := hcases (c.toNat - 48) (by omega)
    rwa [show 48 + (c.toNat - 48) = c.toNat by omega, Char.ofNat_toNat] at hmem
  · intro h
    have hcases : ∀ c ∈ digits, c.isDigit = true := by decide
    exact hcases c h

variable {r s : Regex} {words words' : List Text}

theorem mem_joins {w : Text} : w ∈ joins words words' ↔
    ∃ v ∈ words, ∃ v' ∈ words', w = v ++ v' := by
  simp [joins, List.mem_flatMap, eq_comm]

theorem cons_mem_joins {cs : List Char} {ws : List Text} {c : Char} {t : Text} :
    c :: t ∈ joins (cs.map fun d => [d]) ws ↔ c ∈ cs ∧ t ∈ ws := by
  rw [mem_joins]
  constructor
  · rintro ⟨v, hv, v', hv', heq⟩
    obtain ⟨d, hd, rfl⟩ := List.mem_map.mp hv
    obtain ⟨rfl, rfl⟩ := List.cons.inj heq
    exact ⟨hd, hv'⟩
  · rintro ⟨hc, ht⟩
    exact ⟨[c], List.mem_map_of_mem hc, t, ht, rfl⟩

theorem cons_mem_singles {cs : List Char} {c : Char} {t : Text} :
    c :: t ∈ cs.map (fun d => [d]) ↔ c ∈ cs ∧ t = [] := by
  simp [eq_comm]

theorem nil_notMem_singles {cs : List Char} : [] ∉ cs.map fun d => [d] := by
  simp

theorem nil_notMem_joins {cs : List Char} {ws : List Text} :
    [] ∉ joins (cs.map fun d => [d]) ws := by
  rw [mem_joins]
  rintro ⟨v, hv, v', -, heq⟩
  obtain ⟨d, -, rfl⟩ := List.mem_map.mp hv
  cases heq

/-- The digits between two of them. -/
theorem between_iff {lo hi c : Char} (hlo : '0' ≤ lo) (hhi : hi ≤ '9') :
    (lo ≤ c ∧ c ≤ hi) ↔ c ∈ digits.filter fun d => lo ≤ d && d ≤ hi := by
  rw [List.mem_filter, ← isDigit_iff_mem, Bool.and_eq_true, decide_eq_true_iff,
    decide_eq_true_iff, iff_and_self]
  rintro ⟨h, h'⟩
  have hdigit : '0' ≤ c ∧ c ≤ '9' := ⟨Char.le_trans hlo h, Char.le_trans h' hhi⟩
  exact Bool.and_eq_true_iff.mpr ⟨decide_eq_true hdigit.1, decide_eq_true hdigit.2⟩

theorem reads_lit (c : Char) : Reads (.char (.lit c)) [[c]] := by
  intro b t b' u
  simp [mem_ends_char, Atom.accepts]

theorem reads_digit : Reads (.char .digit) (digits.map fun c => [c]) := by
  intro b t b' u
  rw [mem_ends_char]
  refine and_congr_right fun _ => ?_
  simp [Atom.accepts, isDigit_iff_mem]

theorem Reads.alt (hr : Reads r words) (hs : Reads s words') :
    Reads (.alt r s) (words ++ words') := by
  intro b t b' u
  rw [mem_ends_alt, hr b t b' u, hs b t b' u, ← and_or_left]
  simp [List.mem_append, or_and_right, exists_or]

theorem reads_oneOf (c : Char) (cs : List Char) :
    Reads (oneOf c cs) ((c :: cs).map fun d => [d]) := by
  induction cs generalizing c with
  | nil => exact reads_lit c
  | cons d cs ih => exact (reads_lit c).alt (ih d)

theorem Reads.seq (hr : Reads r words) (hs : Reads s words') :
    Reads (.seq r s) (joins words words') := by
  intro b t b' u
  rw [mem_ends_seq]
  constructor
  · rintro ⟨m, v, hv, hu⟩
    obtain ⟨rfl, w, hw, rfl⟩ := (hr _ _ _ _).mp hv
    obtain ⟨rfl, w', hw', rfl⟩ := (hs _ _ _ _).mp hu
    exact ⟨rfl, w ++ w', mem_joins.mpr ⟨w, hw, w', hw', rfl⟩, (List.append_assoc w w' u).symm⟩
  · rintro ⟨rfl, w, hw, rfl⟩
    obtain ⟨v, hv, v', hv', rfl⟩ := mem_joins.mp hw
    exact ⟨false, v' ++ u, (hr _ _ _ _).mpr ⟨rfl, v, hv, List.append_assoc v v' u⟩,
      (hs _ _ _ _).mpr ⟨rfl, v', hv', rfl⟩⟩

/-- What may be missing in front. -/
theorem Reads.opt_seq (hr : Reads r words) (hs : Reads s words') :
    Reads (.seq (r.upTo 1) s) (joins words words' ++ words') := by
  intro b t b' u
  have hsplit : (b', u) ∈ ends (.seq (r.upTo 1) s) b t ↔
      (b', u) ∈ ends (.seq r s) b t ∨ (b', u) ∈ ends s b t := by
    simp only [mem_ends_seq, upTo, mem_ends_alt, mem_ends_empty]
    constructor
    · rintro ⟨m, v, ⟨m', v', hv', rfl, rfl⟩ | ⟨rfl, rfl⟩, hu⟩
      · exact .inl ⟨m, v, hv', hu⟩
      · exact .inr hu
    · rintro (⟨m, v, hv, hu⟩ | hu)
      · exact ⟨m, v, .inl ⟨m, v, hv, rfl, rfl⟩, hu⟩
      · exact ⟨b, t, .inr ⟨rfl, rfl⟩, hu⟩
  rw [hsplit, hr.seq hs b t b' u, hs b t b' u, ← and_or_left]
  simp [List.mem_append, or_and_right, exists_or]

/-- What may stand at the start of a text or behind a mark. -/
theorem mem_ends_head_seq {mark : Char} (hr : Reads r words) {b b' : Bool} {t u : Text} :
    (b', u) ∈ ends (.seq (.alt .start (.char (.lit mark))) r) b t ↔
      b' = false ∧ ∃ w ∈ words, t = mark :: w ++ u ∨ b = true ∧ t = w ++ u := by
  simp only [mem_ends_seq, mem_ends_alt, mem_ends_start, hr _ _ _ _]
  constructor
  · rintro ⟨m, v, ⟨rfl, rfl, rfl⟩ | hmark, rfl, w, hw, heq⟩
    · exact ⟨rfl, w, hw, .inr ⟨rfl, heq⟩⟩
    · obtain ⟨-, c, hc, rfl⟩ := mem_ends_char.mp hmark
      obtain rfl : mark = c := by simpa [Atom.accepts] using hc
      exact ⟨rfl, w, hw, .inl (by rw [heq, List.cons_append])⟩
  · rintro ⟨rfl, w, hw, rfl | ⟨rfl, rfl⟩⟩
    · refine ⟨false, w ++ u, .inr (mem_ends_char.mpr ⟨rfl, mark, ?_, rfl⟩), rfl, w, hw, rfl⟩
      simp [Atom.accepts]
    · exact ⟨true, w ++ u, .inl ⟨rfl, rfl, rfl⟩, rfl, w, hw, rfl⟩

/-- A repeated group stands at the start once at most. -/
theorem mem_ends_pow_head_seq {mark : Char} (hr : Reads r words) {n : ℕ} {b b' : Bool}
    {t u : Text} :
    (b', u) ∈ ends ((Regex.seq (.alt .start (.char (.lit mark))) r).pow (n + 1)) b t ↔
      b' = false ∧ ∃ ws : List Text, ws.length = n + 1 ∧ (∀ w ∈ ws, w ∈ words) ∧
        (t = mark :: [mark].intercalate ws ++ u ∨ b = true ∧ t = [mark].intercalate ws ++ u) := by
  have hjoin : ∀ (w : Text) (ws : List Text), ws ≠ [] →
      [mark].intercalate (w :: ws) = w ++ mark :: [mark].intercalate ws := by
    intro w ws hws
    rw [List.intercalate_cons_of_ne_nil hws, List.append_assoc, List.singleton_append]
  induction n generalizing b t with
  | zero =>
      rw [pow, mem_ends_seq]
      constructor
      · rintro ⟨m, v, hv, hu⟩
        obtain ⟨rfl, rfl⟩ := mem_ends_empty.mp hu
        obtain ⟨rfl, w, hw, h⟩ := (mem_ends_head_seq hr).mp hv
        exact ⟨rfl, [w], rfl, by simpa using hw, by simpa [List.intercalate] using h⟩
      · rintro ⟨rfl, ws, hlength, hws, h⟩
        obtain ⟨w, rfl⟩ := List.length_eq_one_iff.mp hlength
        refine ⟨false, u, (mem_ends_head_seq hr).mpr ⟨rfl, w, by simpa using hws, ?_⟩,
          mem_ends_empty.mpr ⟨rfl, rfl⟩⟩
        simpa [List.intercalate] using h
  | succ n ih =>
      rw [pow, mem_ends_seq]
      constructor
      · rintro ⟨m, v, hv, hu⟩
        obtain ⟨rfl, w, hw, h⟩ := (mem_ends_head_seq hr).mp hv
        obtain ⟨rfl, ws, hlength, hws, h'⟩ := ih.mp hu
        have hne : ws ≠ [] := fun hnil => by simp [hnil] at hlength
        obtain rfl : v = mark :: [mark].intercalate ws ++ u := by simpa using h'
        refine ⟨rfl, w :: ws, by simp [hlength], List.forall_mem_cons.mpr ⟨hw, hws⟩, ?_⟩
        rw [hjoin w ws hne]
        simpa using h
      · rintro ⟨rfl, ws, hlength, hws, h⟩
        obtain ⟨w, ws, rfl⟩ := List.exists_cons_of_length_eq_add_one hlength
        obtain ⟨hw, hws⟩ := List.forall_mem_cons.mp hws
        have hlength' : ws.length = n + 1 := by simpa using hlength
        have hne : ws ≠ [] := fun hnil => by simp [hnil] at hlength'
        refine ⟨false, mark :: [mark].intercalate ws ++ u, (mem_ends_head_seq hr).mpr
          ⟨rfl, w, hw, ?_⟩, ih.mpr ⟨rfl, ws, hlength', hws, .inl rfl⟩⟩
        rw [hjoin w ws hne] at h
        simpa using h

end Regex

end Pcre
