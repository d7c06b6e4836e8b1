/-
# Regular expressions between delimiters

A part of the expressions that the scripting language knows: characters, the two classes
for digits and white space, the dot, anchors, groups, alternatives and quantifiers. An
expression outside of this part is told apart from one that does not compile. A match is
looked for at every place of a text; only whether there is one matters here.
-/

import WampManager.Lib.Text

namespace Pcre

/-! ## Expressions -/

/-- White space, `\s`. -/
def isBlank (c : Char) : Bool :=
  c == ' ' || c == '\t' || c == '\n' || c == '\x0b' || c == '\x0c' || c == '\r'

/-- What stands for one character. -/
inductive Atom
  | lit (c : Char) | digit | blank | any
  deriving DecidableEq

def Atom.accepts : Atom → Char → Bool
  | lit d, c => d == c
  | digit, c => c.isDigit
  | blank, c => isBlank c
  | any, c => c != '\n'

inductive Regex
  | char (a : Atom)
  | start
  | stop
  | empty
  | seq (r s : Regex)
  | alt (r s : Regex)
  | many (r : Regex)

namespace Regex

/-- Repeat a reader; a round that reads nothing is no round. -/
def endsMany (f : Bool → Text → List (Bool × Text)) : ℕ → Bool → Text → List (Bool × Text)
  | 0, b, t => [(b, t)]
  | n + 1, b, t =>
      (b, t) :: ((f b t).filter fun p => p.2.length < t.length).flatMap fun p => endsMany f n p.1 p.2

/-- What can be left of a text behind a match at its front. The flag tells whether nothing
stands before the text. -/
def ends : Regex → Bool → Text → List (Bool × Text)
  | .char _, _, [] => []
  | .char a, _, c :: t => if a.accepts c then [(false, t)] else []
  | .start, b, t => if b then [(b, t)] else []
  | .stop, b, t => if t = [] ∨ t = ['\n'] then [(b, t)] else []
  | .empty, b, t => [(b, t)]
  | .seq r s, b, t => (ends r b t).flatMap fun p => ends s p.1 p.2
  | .alt r s, b, t => ends r b t ++ ends s b t
  | .many r, b, t => endsMany (ends r) t.length b t

/-- Is there a match somewhere in a text? -/
def found (r : Regex) : Bool → Text → Bool
  | b, [] => !(ends r b []).isEmpty
  | b, c :: t => !(ends r b (c :: t)).isEmpty || found r false t

/-! ## Matches -/

variable {r s : Regex} {a : Atom} {b b' : Bool} {t u : Text}

theorem mem_ends_char :
    (b', u) ∈ ends (.char a) b t ↔ b' = false ∧ ∃ c, a.accepts c = true ∧ t = c :: u := by
  cases t with
  | nil => simp [ends]
  | cons c t =>
      by_cases hc : a.accepts c = true
      · simp only [ends, if_pos hc, List.mem_singleton, Prod.mk.injEq, List.cons.injEq]
        constructor
        · rintro ⟨rfl, rfl⟩
          exact ⟨rfl, c, hc, rfl, rfl⟩
        · rintro ⟨rfl, d, -, -, rfl⟩
          exact ⟨rfl, rfl⟩
      · simp only [ends, if_neg hc, List.not_mem_nil, List.cons.injEq, false_iff]
        rintro ⟨-, d, hd, rfl, -⟩
        exact hc hd

theorem mem_ends_start : (b', u) ∈ ends .start b t ↔ b = true ∧ b' = b ∧ u = t := by
  cases b <;> simp [ends]

theorem mem_ends_stop :
    (b', u) ∈ ends .stop b t ↔ (t = [] ∨ t = ['\n']) ∧ b' = b ∧ u = t := by
  rw [ends]
  split <;> simp [*]

theorem mem_ends_empty : (b', u) ∈ ends .empty b t ↔ b' = b ∧ u = t := by simp [ends]

theorem mem_ends_seq : (b', u) ∈ ends (.seq r s) b t ↔
    ∃ m v, (m, v) ∈ ends r b t ∧ (b', u) ∈ ends s m v := by
  simp [ends, List.mem_flatMap]

theorem mem_ends_alt :
    (b', u) ∈ ends (.alt r s) b t ↔ (b', u) ∈ ends r b t ∨ (b', u) ∈ ends s b t := by
  rw [ends, List.mem_append]

theorem mem_endsMany_succ {f : Bool → Text → List (Bool × Text)} {n : ℕ} :
    (b', u) ∈ endsMany f (n + 1) b t ↔ (b' = b ∧ u = t) ∨
      ∃ m v, (m, v) ∈ f b t ∧ v.length < t.length ∧ (b', u) ∈ endsMany f n m v := by
  simp [endsMany, List.mem_flatMap, and_assoc]

theorem mem_endsMany_char {n : ℕ} (hn : t.length ≤ n) :
    (b', u) ∈ endsMany (ends (.char a)) n b t ↔
      ∃ w, t = w ++ u ∧ (∀ c ∈ w, a.accepts c = true) ∧ b' = (b && w.isEmpty) := by
  induction n generalizing b t with
  | zero =>
      obtain rfl : t = [] := List.length_eq_zero_iff.mp (by omega)
      simp only [endsMany, List.mem_singleton, Prod.mk.injEq]
      constructor
      · rintro ⟨rfl, rfl⟩
        exact ⟨[], rfl, by simp, by simp⟩
      · rintro ⟨w, hw, -, rfl⟩
        obtain ⟨rfl, rfl⟩ := List.append_eq_nil_iff.mp hw.symm
        simp
  | succ n ih =>
      rw [mem_endsMany_succ]
      constructor
      · rintro (⟨rfl, rfl⟩ | ⟨m, v, hmem, -, hrest⟩)
        · exact ⟨[], rfl, by simp, by simp⟩
        · obtain ⟨rfl, c, hc, rfl⟩ := mem_ends_char.mp hmem
          obtain ⟨w, rfl, hw, rfl⟩ := (ih (by simpa using hn)).mp hrest
          exact ⟨c :: w, rfl, List.forall_mem_cons.mpr ⟨hc, hw⟩, by simp⟩
      · rintro ⟨w, rfl, hw, rfl⟩
        cases w with
        | nil => exact .inl ⟨by simp, rfl⟩
        | cons c w =>
            obtain ⟨hc, hw⟩ := List.forall_mem_cons.mp hw
            refine .inr ⟨false, w ++ u, mem_ends_char.mpr ⟨rfl, c, hc, rfl⟩, by simp, ?_⟩
            exact (ih (by simpa using hn)).mpr ⟨w, rfl, hw, by simp⟩

/-- Repeated characters. -/
theorem mem_ends_many_char : (b', u) ∈ ends (.many (.char a)) b t ↔
    ∃ w, t = w ++ u ∧ (∀ c ∈ w, a.accepts c = true) ∧ b' = (b && w.isEmpty) :=
  mem_endsMany_char le_rfl

theorem found_iff : found r b t = true ↔
    ∃ pre v b' u, t = pre ++ v ∧ (b', u) ∈ ends r (b && pre.isEmpty) v := by
  have hhere : ∀ b t, (!(ends r b t).isEmpty) = true ↔ ∃ b' u, (b', u) ∈ ends r b t := by
    intro b t
    rw [Bool.not_eq_true', List.isEmpty_eq_false_iff_exists_mem]
    exact Prod.exists
  induction t generalizing b with
  | nil =>
      rw [found, hhere]
      constructor
      · rintro ⟨b', u, hmem⟩
        exact ⟨[], [], b', u, rfl, by simpa using hmem⟩
      · rintro ⟨pre, v, b', u, heq, hmem⟩
        obtain ⟨rfl, rfl⟩ := List.append_eq_nil_iff.mp heq.symm
        exact ⟨b', u, by simpa using hmem⟩
  | cons c t ih =>
      have htail : found r false t = true ↔ _ := ih
      rw [found, Bool.or_eq_true, hhere, htail]
      constructor
      · rintro (⟨b', u, hmem⟩ | ⟨pre, v, b', u, rfl, hmem⟩)
        · exact ⟨[], c :: t, b', u, rfl, by simpa using hmem⟩
        · exact ⟨c :: pre, v, b', u, rfl, by simpa using hmem⟩
      · rintro ⟨pre, v, b', u, heq, hmem⟩
        cases pre with
        | nil =>
            obtain rfl : v = c :: t := heq.symm
            exact .inl ⟨b', u, by simpa using hmem⟩
        | cons d pre =>
            obtain ⟨rfl, rfl⟩ := List.cons.inj heq
            exact .inr ⟨pre, v, b', u, rfl, by simpa using hmem⟩

/-! ## Characters that no match reads -/

/-- No character but a repeated one reads `c`. -/
def Deaf (c : Char) : Regex → Prop
  | .char a => a.accepts c = false
  | .start | .stop | .empty => True
  | .seq r s | .alt r s => r.Deaf c ∧ s.Deaf c
  | .many r => (∃ a, r = .char a) ∨ r.Deaf c

/-- The second text is the first one, or has one of the characters `c` twice. -/
def Doubled (c : Char) (t t' : Text) : Prop :=
  t' = t ∨ ∃ x y, t = x ++ c :: y ∧ t' = x ++ c :: c :: y

section Doubling

variable {c : Char} {t' : Text}

theorem Doubled.cons {d : Char} (h : Doubled c (d :: t) t') (hd : d ≠ c) :
    ∃ v, t' = d :: v ∧ Doubled c t v := by
  rcases h with rfl | ⟨x, y, heq, rfl⟩
  · exact ⟨t, rfl, .inl rfl⟩
  · cases x with
    | nil => exact absurd (List.cons.inj heq).1 hd
    | cons e x =>
        obtain ⟨rfl, rfl⟩ := List.cons.inj heq
        exact ⟨x ++ c :: c :: y, rfl, .inr ⟨x, y, rfl, rfl⟩⟩

theorem Doubled.length_le (h : Doubled c t t') : t'.length ≤ t.length + 1 := by
  rcases h with rfl | ⟨x, y, rfl, rfl⟩
  · exact Nat.le_succ _
  · simp
    omega

theorem Doubled.length_of_ne (h : Doubled c t t') (hne : t' ≠ t) : t'.length = t.length + 1 := by
  rcases h with rfl | ⟨x, y, rfl, rfl⟩
  · exact absurd rfl hne
  · simp
    omega

/-- Whoever reads a part of a text reads it with the character twice, too. -/
theorem Doubled.of_append {w : Text} (h : Doubled c (w ++ u) t') :
    ∃ w' u', t' = w' ++ u' ∧ Doubled c w w' ∧ Doubled c u u' := by
  rcases h with rfl | ⟨x, y, heq, rfl⟩
  · exact ⟨w, u, rfl, .inl rfl, .inl rfl⟩
  · rcases List.append_eq_append_iff.mp heq with ⟨z, rfl, rfl⟩ | ⟨z, rfl, hz⟩
    · exact ⟨w, z ++ c :: c :: y, by simp, .inl rfl, .inr ⟨z, y, rfl, rfl⟩⟩
    · cases z with
      | nil =>
          obtain rfl : u = c :: y := hz.symm
          exact ⟨x, c :: c :: y, rfl, .inl (List.append_nil x).symm, .inr ⟨[], y, rfl, rfl⟩⟩
      | cons d z =>
          obtain ⟨rfl, rfl⟩ := List.cons.inj hz
          exact ⟨x ++ c :: c :: z, u, by simp, .inr ⟨x, z, rfl, rfl⟩, .inl rfl⟩

theorem Doubled.mem_iff (h : Doubled c t t') (d : Char) : d ∈ t' ↔ d ∈ t := by
  rcases h with rfl | ⟨x, y, rfl, rfl⟩
  · rfl
  · simp

theorem Doubled.isEmpty_eq (h : Doubled c t t') : t'.isEmpty = t.isEmpty := by
  rcases h with rfl | ⟨x, y, rfl, rfl⟩
  · rfl
  · cases x <;> rfl

theorem endsMany_doubled {f : Bool → Text → List (Bool × Text)}
    (hf : ∀ b t b' u t', (b', u) ∈ f b t → Doubled c t t' →
      ∃ u', (b', u') ∈ f b t' ∧ Doubled c u u') {n m : ℕ} (hm : t'.length ≤ m)
    (hmem : (b', u) ∈ endsMany f n b t) (h : Doubled c t t') :
    ∃ u', (b', u') ∈ endsMany f m b t' ∧ Doubled c u u' := by
  have hself : ∀ m b t, (b, t) ∈ endsMany f m b t := by
    intro m b t
    cases m <;> simp [endsMany]
  induction n generalizing m b t t' with
  | zero =>
      obtain ⟨rfl, rfl⟩ : b' = b ∧ u = t := by simpa [endsMany] using hmem
      exact ⟨t', hself m b' t', h⟩
  | succ n ih =>
      rcases mem_endsMany_succ.mp hmem with ⟨rfl, rfl⟩ | ⟨b₁, v, hv, hlt, hrest⟩
      · exact ⟨t', hself m b' t', h⟩
      · obtain ⟨v', hv', hdoubled, hlt'⟩ :
            ∃ v', (b₁, v') ∈ f b t' ∧ Doubled c v v' ∧ v'.length < t'.length := by
          by_cases heq : t' = t
          · subst heq
            exact ⟨v, hv, .inl rfl, hlt⟩
          · obtain ⟨v', hv', hdoubled⟩ := hf b t b₁ v t' hv h
            have hlength := h.length_of_ne heq
            exact ⟨v', hv', hdoubled, by have := hdoubled.length_le; omega⟩
        obtain ⟨k, rfl⟩ : ∃ k, m = k + 1 := ⟨m - 1, by omega⟩
        obtain ⟨u', hu', hdoubled'⟩ := ih (by omega : v'.length ≤ k) hrest hdoubled
        exact ⟨u', mem_endsMany_succ.mpr (.inr ⟨b₁, v', hv', hlt', hu'⟩), hdoubled'⟩

/-- A match goes on to match if a character that it does not read stands twice. -/
theorem ends_doubled (hc : c ≠ '\n') (hr : r.Deaf c) (hmem : (b', u) ∈ ends r b t)
    (h : Doubled c t t') : ∃ u', (b', u') ∈ ends r b t' ∧ Doubled c u u' := by
  induction r generalizing b b' t u t' with
  | char a =>
      obtain ⟨rfl, d, hd, rfl⟩ := mem_ends_char.mp hmem
      have hne : d ≠ c := by
        rintro rfl
        exact absurd (hd.symm.trans hr) (by decide)
      obtain ⟨v, rfl, hv⟩ := h.cons hne
      exact ⟨v, mem_ends_char.mpr ⟨rfl, d, hd, rfl⟩, hv⟩
  | start =>
      obtain ⟨hb, rfl, rfl⟩ := mem_ends_start.mp hmem
      exact ⟨t', mem_ends_start.mpr ⟨hb, rfl, rfl⟩, h⟩
  | stop =>
      obtain ⟨ht, rfl, rfl⟩ := mem_ends_stop.mp hmem
      obtain rfl : t' = u := by
        rcases h with heq | ⟨x, y, rfl, -⟩
        · exact heq
        · have hmem : c ∈ x ++ c :: y := by simp
          rcases ht with ht | ht <;> rw [ht] at hmem
          · exact absurd hmem List.not_mem_nil
          · exact absurd (List.mem_singleton.mp hmem) hc
      exact ⟨t', mem_ends_stop.mpr ⟨ht, rfl, rfl⟩, .inl rfl⟩
  | empty =>
      obtain ⟨rfl, rfl⟩ := mem_ends_empty.mp hmem
      exact ⟨t', mem_ends_empty.mpr ⟨rfl, rfl⟩, h⟩
  | seq r s ihr ihs =>
      obtain ⟨m, v, hv, hu⟩ := mem_ends_seq.mp hmem
      obtain ⟨v', hv', hdoubled⟩ := ihr hr.1 hv h
      obtain ⟨u', hu', hdoubled'⟩ := ihs hr.2 hu hdoubled
      exact ⟨u', mem_ends_seq.mpr ⟨m, v', hv', hu'⟩, hdoubled'⟩
  | alt r s ihr ihs =>
      rcases mem_ends_alt.mp hmem with hmem | hmem
      · obtain ⟨u', hu', hdoubled⟩ := ihr hr.1 hmem h
        exact ⟨u', mem_ends_alt.mpr (.inl hu'), hdoubled⟩
      · obtain ⟨u', hu', hdoubled⟩ := ihs hr.2 hmem h
        exact ⟨u', mem_ends_alt.mpr (.inr hu'), hdoubled⟩
  | many r ih =>
      rcases hr with ⟨a, rfl⟩ | hr
      · obtain ⟨w, rfl, hw, rfl⟩ := mem_ends_many_char.mp hmem
        obtain ⟨w', u', rfl, hdoubled, hdoubled'⟩ := h.of_append
        refine ⟨u', mem_ends_many_char.mpr ⟨w', rfl, fun d hd => ?_, ?_⟩, hdoubled'⟩
        · exact hw d ((hdoubled.mem_iff d).mp hd)
        · rw [hdoubled.isEmpty_eq]
      · exact endsMany_doubled (f := ends r) (fun _ _ _ _ _ hmem h => ih hr hmem h) le_rfl hmem h

theorem found_doubled (hc : c ≠ '\n') (hr : r.Deaf c) (hfound : found r b t = true)
    (h : Doubled c t t') : found r b t' = true := by
  obtain ⟨pre, v, b', u, rfl, hmem⟩ := found_iff.mp hfound
  obtain ⟨pre', v', rfl, hpre, hv⟩ := h.of_append
  obtain ⟨u', hu', -⟩ := ends_doubled hc hr hmem hv
  exact found_iff.mpr ⟨pre', v', b', u', rfl, hpre.isEmpty_eq ▸ hu'⟩

end Doubling

/-! ## Repetitions -/

/-- Exactly `n` times. -/
def pow (r : Regex) : ℕ → Regex
  | 0 => .empty
  | n + 1 => .seq r (r.pow n)

/-- At most `n` times. -/
def upTo (r : Regex) : ℕ → Regex
  | 0 => .empty
  | n + 1 => .alt (.seq r (r.upTo n)) .empty

theorem mem_ends_pow_char {n : ℕ} : (b', u) ∈ ends ((Regex.char a).pow n) b t ↔
    ∃ w, t = w ++ u ∧ (∀ c ∈ w, a.accepts c = true) ∧ w.length = n ∧ b' = (b && w.isEmpty) := by
  induction n generalizing b t with
  | zero =>
      rw [pow, mem_ends_empty]
      constructor
      · rintro ⟨rfl, rfl⟩
        exact ⟨[], rfl, by simp, rfl, by simp⟩
      · rintro ⟨w, rfl, -, hw, rfl⟩
        obtain rfl := List.length_eq_zero_iff.mp hw
        simp
  | succ n ih =>
      rw [pow, mem_ends_seq]
      constructor
      · rintro ⟨m, v, hv, hrest⟩
        obtain ⟨rfl, c, hc, rfl⟩ := mem_ends_char.mp hv
        obtain ⟨w, rfl, hw, hlength, rfl⟩ := ih.mp hrest
        exact ⟨c :: w, rfl, List.forall_mem_cons.mpr ⟨hc, hw⟩, by simp [hlength], by simp⟩
      · rintro ⟨w, rfl, hw, hlength, rfl⟩
        obtain ⟨c, w, rfl⟩ := List.exists_cons_of_length_eq_add_one hlength
        obtain ⟨hc, hw⟩ := List.forall_mem_cons.mp hw
        exact ⟨false, w ++ u, mem_ends_char.mpr ⟨rfl, c, hc, rfl⟩,
          ih.mpr ⟨w, rfl, hw, by simpa using hlength, by simp⟩⟩

theorem mem_ends_upTo_char {n : ℕ} : (b', u) ∈ ends ((Regex.char a).upTo n) b t ↔
    ∃ w, t = w ++ u ∧ (∀ c ∈ w, a.accepts c = true) ∧ w.length ≤ n ∧ b' = (b && w.isEmpty) := by
  induction n generalizing b t with
  | zero =>
      rw [upTo, mem_ends_empty]
      constructor
      · rintro ⟨rfl, rfl⟩
        exact ⟨[], rfl, by simp, le_rfl, by simp⟩
      · rintro ⟨w, rfl, -, hw, rfl⟩
        obtain rfl := List.length_eq_zero_iff.mp (Nat.le_zero.mp hw)
        simp
  | succ n ih =>
      rw [upTo, mem_ends_alt, mem_ends_seq, mem_ends_empty]
      constructor
      · rintro (⟨m, v, hv, hrest⟩ | ⟨rfl, rfl⟩)
        · obtain ⟨rfl, c, hc, rfl⟩ := mem_ends_char.mp hv
          obtain ⟨w, rfl, hw, hlength, rfl⟩ := ih.mp hrest
          exact ⟨c :: w, rfl, List.forall_mem_cons.mpr ⟨hc, hw⟩, by simpa using hlength, by simp⟩
        · exact ⟨[], rfl, by simp, Nat.zero_le _, by simp⟩
      · rintro ⟨w, rfl, hw, hlength, rfl⟩
        cases w with
        | nil => exact .inr ⟨by simp, rfl⟩
        | cons c w =>
            obtain ⟨hc, hw⟩ := List.forall_mem_cons.mp hw
            exact .inl ⟨false, w ++ u, mem_ends_char.mpr ⟨rfl, c, hc, rfl⟩,
              ih.mpr ⟨w, rfl, hw, by simpa using hlength, by simp⟩⟩

theorem mem_ends_times_char {m n : ℕ} (h : m ≤ n) :
    (b', u) ∈ ends (.seq ((Regex.char a).pow m) ((Regex.char a).upTo (n - m))) b t ↔
      ∃ w, t = w ++ u ∧ (∀ c ∈ w, a.accepts c = true) ∧ m ≤ w.length ∧ w.length ≤ n ∧
        b' = (b && w.isEmpty) := by
  rw [mem_ends_seq]
  constructor
  · rintro ⟨b₁, v, hv, hu⟩
    obtain ⟨w, rfl, hw, hlength, rfl⟩ := mem_ends_pow_char.mp hv
    obtain ⟨w', rfl, hw', hlength', rfl⟩ := mem_ends_upTo_char.mp hu
    refine ⟨w ++ w', by simp, fun c hc => (List.mem_append.mp hc).elim (hw c) (hw' c), ?_, ?_, ?_⟩
    · rw [List.length_append]
      omega
    · rw [List.length_append]
      omega
    · cases w <;> simp
  · rintro ⟨w, rfl, hw, hm, hn, rfl⟩
    refine ⟨b && (w.take m).isEmpty, w.drop m ++ u, mem_ends_pow_char.mpr ⟨w.take m, ?_,
      fun c hc => hw c (List.mem_of_mem_take hc), by simp [hm], rfl⟩,
      mem_ends_upTo_char.mpr ⟨w.drop m, rfl, fun c hc => hw c (List.mem_of_mem_drop hc), ?_, ?_⟩⟩
    · rw [← List.append_assoc, List.take_append_drop]
    · rw [List.length_drop]
      omega
    · have hsplit : w.isEmpty = ((w.take m).isEmpty && (w.drop m).isEmpty) := by
        conv_lhs => rw [← List.take_append_drop m w]
        cases w.take m <;> rfl
      rw [hsplit, Bool.and_assoc]

theorem mem_ends_plus_char : (b', u) ∈ ends (.seq (.char a) (.many (.char a))) b t ↔
    ∃ w, t = w ++ u ∧ w ≠ [] ∧ (∀ c ∈ w, a.accepts c = true) ∧ b' = false := by
  rw [mem_ends_seq]
  constructor
  · rintro ⟨b₁, v, hv, hu⟩
    obtain ⟨rfl, c, hc, rfl⟩ := mem_ends_char.mp hv
    obtain ⟨w, rfl, hw, rfl⟩ := mem_ends_many_char.mp hu
    exact ⟨c :: w, rfl, List.cons_ne_nil c w, List.forall_mem_cons.mpr ⟨hc, hw⟩, rfl⟩
  · rintro ⟨w, rfl, hne, hw, rfl⟩
    obtain ⟨c, w, rfl⟩ := List.exists_cons_of_ne_nil hne
    obtain ⟨hc, hw⟩ := List.forall_mem_cons.mp hw
    exact ⟨false, w ++ u, mem_ends_char.mpr ⟨rfl, c, hc, rfl⟩,
      mem_ends_many_char.mpr ⟨w, rfl, hw, rfl⟩⟩

theorem Deaf.pow {c : Char} (h : r.Deaf c) (n : ℕ) : (r.pow n).Deaf c := by
  induction n with
  | zero => trivial
  | succ n ih => exact ⟨h, ih⟩

theorem Deaf.upTo {c : Char} (h : r.Deaf c) (n : ℕ) : (r.upTo n).Deaf c := by
  induction n with
  | zero => trivial
  | succ n ih => exact ⟨⟨h, ih⟩, trivial⟩

end Regex

/-- How often an item is read. -/
inductive Quant
  | one | option | plus | star
  | times (m n : ℕ)
  deriving DecidableEq

def Quant.apply : Quant → Regex → Regex
  | one, r => r
  | option, r => .alt r .empty
  | plus, r => .seq r (.many r)
  | star, r => .many r
  | times m n, r => .seq (r.pow m) (r.upTo (n - m))

theorem Quant.deaf_apply {c : Char} {r : Regex} (h : r.Deaf c) : ∀ q : Quant, (q.apply r).Deaf c
  | one => h
  | option => ⟨h, trivial⟩
  | plus => ⟨h, .inr h⟩
  | star => .inr h
  | times m n => ⟨h.pow m, h.upTo (n - m)⟩

/-! ## Reading an expression -/

/-- A character of an expression, with or without a backslash in front. -/
inductive Sym
  | raw (c : Char) | esc (c : Char)
  deriving DecidableEq

def syms : Text → Option (List Sym)
  | [] => some []
  | c :: t =>
      if c = '\\' then
        match t with
        | [] => none
        | d :: t => (syms t).map (.esc d :: ·)
      else (syms t).map (.raw c :: ·)

/-- The characters up to the first one with a backslash. -/
def rawText : List Sym → Text
  | .raw c :: s => c :: rawText s
  | _ => []

/-- Behind an opening brace: one number, or two of which the second may be missing. -/
def isCounter (t : Text) : Bool :=
  !(t.takeWhile Char.isDigit).isEmpty &&
    match t.dropWhile Char.isDigit with
    | '\x7d' :: _ => true
    | ',' :: t => (t.dropWhile Char.isDigit).head? == some '\x7d'
    | _ => false

def isQuantifier : List Sym → Bool
  | .raw c :: s => c == '?' || c == '*' || c == '+' || (c == '\x7b' && isCounter (rawText s))
  | _ => false

/-- The number of a digit. -/
def digitOf (c : Char) : ℕ := c.toNat - '0'.toNat

/-- The quantifier behind an item and the number of its characters; only counters with two
digits are read, and nothing that changes the kind of the quantifier. -/
def quantifier? (s : List Sym) : Option (Quant × ℕ) :=
  if isQuantifier s then
    match s with
    | .raw '\x7b' :: .raw m :: .raw ',' :: .raw n :: .raw '\x7d' :: s =>
        if m.isDigit ∧ n.isDigit ∧ digitOf m ≤ digitOf n ∧ isQuantifier s = false then
          some (.times (digitOf m) (digitOf n), 5)
        else none
    | .raw c :: s =>
        if isQuantifier s ∨ c = '\x7b' then none
        else some (if c = '?' then .option else if c = '*' then .star else .plus, 1)
    | _ => none
  else some (.one, 0)

inductive Token
  | atom (a : Atom) (q : Quant)
  | start | stop | opening
  | closing (q : Quant)
  | bar
  deriving DecidableEq

/-- What a character stands for behind a backslash. -/
def escaped? (c : Char) : Option Atom :=
  if c = 'd' then some .digit
  else if c = 's' then some .blank
  else if c.isAlphanum then none
  else some (.lit c)

/-- What a character stands for that is none of the signs. -/
def plain (c : Char) : Atom := if c = '.' then .any else .lit c

/-- The characters with a meaning of their own that need no backslash. -/
def signs : List Char := "^$|()?+".toList

/-- The token that begins with a sign. -/
def sign? (c : Char) (s : List Sym) : Option (Token × ℕ) :=
  if c = '^' then if isQuantifier s then none else some (.start, 0)
  else if c = '$' then if isQuantifier s then none else some (.stop, 0)
  else if c = '|' then some (.bar, 0)
  else if c = '(' then
    if s.head? = some (.raw '?') ∨ s.head? = some (.raw '*') then none else some (.opening, 0)
  else if c = ')' then (quantifier? s).map fun p => (.closing p.1, p.2)
  else none

/-- An atom with the quantifier behind it. -/
def atom (a : Atom) (s : List Sym) : Option (Token × ℕ) :=
  (quantifier? s).map fun p => (.atom a p.1, p.2)

/-- The token at the front and the number of characters of its quantifier. -/
def token? : Sym → List Sym → Option (Token × ℕ)
  | .esc c, s => (escaped? c).bind (atom · s)
  | .raw c, s =>
      if c ∈ signs then sign? c s
      else if c ∈ "[*\x00".toList ∨ (c = '\x7b' ∧ isCounter (rawText s)) then none
      else atom (plain c) s

/-- The counter skips a quantifier. -/
def tokens : ℕ → List Sym → Option (List Token)
  | _, [] => some []
  | skip + 1, _ :: s => tokens skip s
  | 0, x :: s =>
      match token? x s with
      | some (token, skip) => (tokens skip s).map (token :: ·)
      | none => none

/-- The alternatives of a group that are complete, and the one that is read. -/
structure Frame where
  done : Option Regex
  current : Regex

def Frame.regex (f : Frame) : Regex :=
  match f.done with
  | some r => .alt r f.current
  | none => f.current

/-- Read a token; the open groups stand inside out. -/
def stepToken : List Frame → Token → Option (List Frame)
  | f :: fs, .atom a q => some (⟨f.done, .seq f.current (q.apply (.char a))⟩ :: fs)
  | f :: fs, .start => some (⟨f.done, .seq f.current .start⟩ :: fs)
  | f :: fs, .stop => some (⟨f.done, .seq f.current .stop⟩ :: fs)
  | f :: fs, .opening => some (⟨none, .empty⟩ :: f :: fs)
  | f :: g :: fs, .closing q => some (⟨g.done, .seq g.current (q.apply f.regex)⟩ :: fs)
  | f :: fs, .bar => some (⟨some f.regex, .empty⟩ :: fs)
  | _, _ => none

/-- None if the parentheses do not match. -/
def parse (ts : List Token) : Option Regex :=
  match ts.foldlM stepToken [⟨none, .empty⟩] with
  | some [f] => some f.regex
  | _ => none

/-- None if the expression is not in the part that is read here, and none inside if it does
not compile. -/
def compile (body : Text) : Option (Option Regex) := ((syms body).bind (tokens 0)).map parse

/-- `preg_match`, as far as expressions are read here. A text with a wrong modifier or without
an end matches nothing, like one that does not compile. -/
def pregMatch? (pattern subject : Text) : Option Bool :=
  match pattern with
  | [] => some false
  | delimiter :: t =>
      let body := t.takeWhile (· ≠ delimiter)
      if delimiter ∉ "`/#~!%".toList ∨ body.getLast? = some '\\' then none
      else
        match t.dropWhile (· ≠ delimiter) with
        | [] => some false
        | _ :: modifiers =>
            if ∃ c ∈ modifiers, c ∉ "imsxeADSUXJun \r\n".toList then some false
            else if modifiers ≠ [] then none
            else (compile body).map fun r => r.any (Regex.found · true subject)

/-- An engine that does with these expressions what they mean. -/
def Understands (preg : Text → Text → Bool) : Prop :=
  ∀ pattern subject b, pregMatch? pattern subject = some b → preg pattern subject = b

/-- An engine for these expressions alone. -/
def pregMatch (pattern subject : Text) : Bool := (pregMatch? pattern subject).getD false

theorem understands_pregMatch : Understands pregMatch := by
  intro pattern subject b h
  rw [pregMatch, h, Option.getD_some]

/-- An expression between backticks. -/
theorem pregMatch?_mark {body modifiers : Text} (hbody : '`' ∉ body)
    (hlast : body.getLast? ≠ some '\\') (subject : Text) :
    pregMatch? ('`' :: (body ++ '`' :: modifiers)) subject =
      if ∃ c ∈ modifiers, c ∉ "imsxeADSUXJun \r\n".toList then some false
      else if modifiers ≠ [] then none
      else (compile body).map fun r => r.any (Regex.found · true subject) := by
  have hall : ∀ c ∈ body, decide (c ≠ '`') = true := fun c hc =>
    decide_eq_true fun heq => hbody (heq ▸ hc)
  have htake : (body ++ '`' :: modifiers).takeWhile (· ≠ '`') = body := by
    rw [List.takeWhile_append_of_pos hall]
    simp
  have hdrop : (body ++ '`' :: modifiers).dropWhile (· ≠ '`') = '`' :: modifiers := by
    rw [List.dropWhile_append_of_pos hall]
    simp
  have hmark : '`' ∈ "`/#~!%".toList := by decide
  have hnot : ¬ ('`' ∉ "`/#~!%".toList ∨ body.getLast? = some '\\') :=
    not_or.mpr ⟨not_not.mpr hmark, hlast⟩
  unfold pregMatch?
  simp only [htake, hdrop]
  rw [if_neg hnot]

/-! ## Signs that no atom reads -/

namespace Token

/-- No character but a repeated one reads `c`. -/
def Deaf (c : Char) : Token → Prop
  | atom a q => a.accepts c = false ∨ q = .star
  | _ => True

end Token

variable {c : Char} {s : List Sym} {token : Token} {skip : ℕ}

theorem quantifier?_star {p : Quant × ℕ} (hs : s.head? = some (.raw '*'))
    (h : quantifier? s = some p) : p.1 = .star := by
  obtain ⟨s, rfl⟩ := List.head?_eq_some_iff.mp hs
  have hstar : quantifier? (.raw '*' :: s) =
      if isQuantifier s ∨ '*' = '\x7b' then none else some (Quant.star, 1) := rfl
  rw [hstar] at h
  split at h
  · cases h
  · exact (Option.some.inj h) ▸ rfl

theorem sign?_deaf {d : Char} (h : sign? d s = some (token, skip)) : token.Deaf c := by
  cases token with
  | atom a q =>
      have hnot : ∀ p, sign? d s ≠ some (.atom a q, p) := by
        intro p
        unfold sign?
        split_ifs <;> simp
      exact absurd h (hnot skip)
  | start | stop | opening | closing q | bar => trivial

theorem atom_deaf {a : Atom} (ha : a.accepts c = false ∨ s.head? = some (.raw '*'))
    (h : atom a s = some (token, skip)) : token.Deaf c := by
  obtain ⟨p, hp, heq⟩ := Option.map_eq_some_iff.mp h
  obtain ⟨rfl, -⟩ := Prod.mk.inj heq
  exact ha.imp_right fun hs => quantifier?_star hs hp

theorem token?_deaf (hc : c ∈ signs) {x : Sym} (hx : x ≠ .esc c)
    (hdot : x = .raw '.' → s.head? = some (.raw '*')) (h : token? x s = some (token, skip)) :
    token.Deaf c := by
  have hlit : ∀ d, d ≠ c → (Atom.lit d).accepts c = false := fun d hd => beq_false_of_ne hd
  have hclass : ∀ c ∈ signs, Atom.digit.accepts c = false ∧ Atom.blank.accepts c = false := by
    decide
  cases x with
  | esc d =>
      obtain ⟨a, ha, h⟩ := Option.bind_eq_some_iff.mp h
      refine atom_deaf (.inl ?_) h
      unfold escaped? at ha
      split_ifs at ha <;> obtain rfl := Option.some.inj ha
      · exact (hclass c hc).1
      · exact (hclass c hc).2
      · exact hlit d fun hd => hx (hd ▸ rfl)
  | raw d =>
      rw [token?] at h
      split_ifs at h with hsign hnone
      · exact sign?_deaf h
      · refine atom_deaf ?_ h
        unfold plain
        split_ifs with hd
        · exact .inr (hdot (hd ▸ rfl))
        · exact .inl (hlit d fun hd => hsign (hd ▸ hc))

theorem tokens_deaf (hc : c ∈ signs) {ts : List Token} (hesc : .esc c ∉ s)
    (hdot : ∀ u, .raw '.' :: u <:+ s → u.head? = some (.raw '*'))
    (h : tokens skip s = some ts) : ∀ token ∈ ts, token.Deaf c := by
  induction s generalizing skip ts with
  | nil =>
      obtain rfl : ts = [] := by
        cases skip <;> exact (Option.some.inj h).symm
      exact fun _ hmem => absurd hmem List.not_mem_nil
  | cons x s ih =>
      have hesc' : .esc c ∉ s := fun hmem => hesc (List.mem_cons_of_mem x hmem)
      have hdot' : ∀ u, .raw '.' :: u <:+ s → u.head? = some (.raw '*') := fun u hu =>
        hdot u (hu.trans (List.suffix_cons x s))
      cases skip with
      | succ skip => exact ih hesc' hdot' h
      | zero =>
          rw [tokens] at h
          split at h
          · next token skip htoken =>
              obtain ⟨rest, hrest, rfl⟩ := Option.map_eq_some_iff.mp h
              refine List.forall_mem_cons.mpr ⟨token?_deaf hc ?_ ?_ htoken, ih hesc' hdot' hrest⟩
              · exact fun heq => hesc (heq ▸ List.mem_cons_self)
              · exact fun heq => hdot s (heq ▸ List.suffix_refl _)
          · cases h

/-- What has been read of the groups. -/
def Frame.Deaf (c : Char) (f : Frame) : Prop := (∀ r ∈ f.done, r.Deaf c) ∧ f.current.Deaf c

theorem Frame.Deaf.regex {f : Frame} (h : f.Deaf c) : f.regex.Deaf c := by
  unfold Frame.regex
  split
  · next r hr => exact ⟨h.1 r hr, h.2⟩
  · exact h.2

theorem deaf_apply_char {a : Atom} {q : Quant} (h : (Token.atom a q).Deaf c) :
    (q.apply (.char a)).Deaf c := by
  rcases h with h | rfl
  · have hchar : (Regex.char a).Deaf c := h
    exact q.deaf_apply hchar
  · exact .inl ⟨a, rfl⟩

theorem stepToken_deaf (htoken : token.Deaf c) {fs fs' : List Frame} (hfs : ∀ f ∈ fs, f.Deaf c)
    (h : stepToken fs token = some fs') : ∀ f ∈ fs', f.Deaf c := by
  cases fs with
  | nil => cases token <;> cases h
  | cons f fs =>
      obtain ⟨hf, hfs⟩ := List.forall_mem_cons.mp hfs
      cases token with
      | atom a q =>
          obtain rfl := Option.some.inj h
          exact List.forall_mem_cons.mpr ⟨⟨hf.1, hf.2, deaf_apply_char htoken⟩, hfs⟩
      | start | stop =>
          obtain rfl := Option.some.inj h
          exact List.forall_mem_cons.mpr ⟨⟨hf.1, hf.2, trivial⟩, hfs⟩
      | opening =>
          obtain rfl := Option.some.inj h
          refine List.forall_mem_cons.mpr ⟨⟨fun r hr => ?_, trivial⟩,
            List.forall_mem_cons.mpr ⟨hf, hfs⟩⟩
          cases hr
      | closing q =>
          cases fs with
          | nil => cases h
          | cons g fs =>
              obtain ⟨hg, hfs⟩ := List.forall_mem_cons.mp hfs
              obtain rfl := Option.some.inj h
              exact List.forall_mem_cons.mpr ⟨⟨hg.1, hg.2, q.deaf_apply hf.regex⟩, hfs⟩
      | bar =>
          obtain rfl := Option.some.inj h
          refine List.forall_mem_cons.mpr ⟨⟨fun r hr => ?_, trivial⟩, hfs⟩
          exact Option.some.inj hr ▸ hf.regex

theorem foldlM_stepToken_deaf {ts : List Token} (hts : ∀ token ∈ ts, token.Deaf c)
    {fs fs' : List Frame} (hfs : ∀ f ∈ fs, f.Deaf c) (h : ts.foldlM stepToken fs = some fs') :
    ∀ f ∈ fs', f.Deaf c := by
  induction ts generalizing fs with
  | nil => exact Option.some.inj h ▸ hfs
  | cons token ts ih =>
      obtain ⟨htoken, hts⟩ := List.forall_mem_cons.mp hts
      rw [List.foldlM_cons] at h
      obtain ⟨fs₁, hstep, hrest⟩ := Option.bind_eq_some_iff.mp h
      exact ih hts (stepToken_deaf htoken hfs hstep) hrest

theorem parse_deaf {ts : List Token} {r : Regex} (hts : ∀ token ∈ ts, token.Deaf c)
    (h : parse ts = some r) : r.Deaf c := by
  unfold parse at h
  split at h
  · next f hfold =>
      have hstart : ∀ f ∈ [Frame.mk none .empty], f.Deaf c := by
        simp [Frame.Deaf, Regex.Deaf]
      obtain rfl := Option.some.inj h
      exact (foldlM_stepToken_deaf hts hstart hfold f List.mem_cons_self).regex
  · cases h

/-! ## Texts that read as themselves -/

theorem syms_cons {d : Char} (hd : d ≠ '\\') (t : Text) :
    syms (d :: t) = (syms t).map (.raw d :: ·) := by
  cases t <;> simp [syms, hd]

theorem syms_escaped (d : Char) (t : Text) :
    syms ('\\' :: d :: t) = (syms t).map (.esc d :: ·) := rfl

theorem syms_append {t t' : Text} {s : List Sym} (h : syms t = some s) :
    syms (t ++ t') = (syms t').map (s ++ ·) := by
  induction hlength : t.length using Nat.strong_induction_on generalizing t s with
  | _ n ih =>
      cases t with
      | nil =>
          obtain rfl := Option.some.inj h
          exact Option.map_id'.symm
      | cons d t =>
          by_cases hd : d = '\\'
          · subst hd
            cases t with
            | nil => cases h
            | cons e t =>
                obtain ⟨s', hs', rfl⟩ := Option.map_eq_some_iff.mp (h : (syms t).map _ = some s)
                have htail := ih t.length (by simp only [← hlength, List.length_cons]; omega) hs' rfl
                rw [List.cons_append, List.cons_append, syms_escaped, htail, Option.map_map]
                rfl
          · rw [syms_cons hd] at h
            obtain ⟨s', hs', rfl⟩ := Option.map_eq_some_iff.mp h
            have htail := ih t.length (by simp [← hlength]) hs' rfl
            rw [List.cons_append, syms_cons hd, htail, Option.map_map]
            rfl

theorem tokens_cons {x : Sym} (h : token? x s = some (token, skip)) :
    tokens 0 (x :: s) = (tokens skip s).map (token :: ·) := by
  rw [tokens, h]

theorem while_append_cons {p : Char → Bool} {d : Char} (hd : p d = false) (w t : Text) :
    (w ++ d :: t).takeWhile p = w.takeWhile p ∧
      (w ++ d :: t).dropWhile p = w.dropWhile p ++ d :: t := by
  induction w with
  | nil => simp [hd]
  | cons e w ih =>
      by_cases he : p e = true
      · simp [he, ih.1, ih.2]
      · simp [he]

theorem isCounter_iff {t : Text} : isCounter t = true ↔ t.takeWhile Char.isDigit ≠ [] ∧
    ((∃ u, t.dropWhile Char.isDigit = '\x7d' :: u) ∨
      ∃ u, t.dropWhile Char.isDigit = ',' :: u ∧
        (u.dropWhile Char.isDigit).head? = some '\x7d') := by
  rw [isCounter, Bool.and_eq_true, Bool.not_eq_true', List.isEmpty_eq_false_iff]
  refine and_congr_right fun _ => ?_
  split <;> simp_all

/-- A counter ends in front of a character that has no place in it. -/
theorem isCounter_append {w : Text} {d : Char} (hd : d.isDigit = false ∧ d ≠ ',' ∧ d ≠ '\x7d')
    (t : Text) : isCounter (w ++ d :: t) = isCounter w := by
  obtain ⟨hdigit, hcomma, hbrace⟩ := hd
  rw [Bool.eq_iff_iff, isCounter_iff, isCounter_iff, (while_append_cons hdigit w t).1,
    (while_append_cons hdigit w t).2]
  refine and_congr_right fun _ => ?_
  cases w.dropWhile Char.isDigit with
  | nil => simp [hcomma, hbrace]
  | cons e w' =>
      have hrest : ((w' ++ d :: t).dropWhile Char.isDigit).head? = some '\x7d' ↔
          (w'.dropWhile Char.isDigit).head? = some '\x7d' := by
        rw [(while_append_cons hdigit w' t).2]
        cases w'.dropWhile Char.isDigit <;> simp [hbrace]
      simp [hrest]

theorem isQuantifier_raw (d : Char) (s : List Sym) : isQuantifier (.raw d :: s) =
    (d == '?' || d == '*' || d == '+' || (d == '\x7b' && isCounter (rawText s))) := rfl

theorem quantifier?_none (h : isQuantifier s = false) : quantifier? s = some (.one, 0) := by
  unfold quantifier?
  rw [if_neg (by simp [h])]

/-- The items of a sequence are read one after another. -/
def Regex.seqAll (r : Regex) (items : List Regex) : Regex := items.foldl .seq r

theorem foldlM_stepToken_atoms (ats : List (Atom × Quant)) (f : Frame) (fs : List Frame)
    (ts : List Token) :
    ((ats.map fun p => Token.atom p.1 p.2) ++ ts).foldlM stepToken (f :: fs) =
      ts.foldlM stepToken
        (⟨f.done, f.current.seqAll (ats.map fun p => p.2.apply (.char p.1))⟩ :: fs) := by
  induction ats generalizing f with
  | nil => rfl
  | cons p ats ih => exact ih ⟨f.done, .seq f.current (p.2.apply (.char p.1))⟩

namespace Regex

/-- A sequence of single characters reads the text that they accept. -/
theorem mem_ends_seqAll_lit {r : Regex} {b b' : Bool} {t u : Text} (w : Text) :
    (b', u) ∈ ends (r.seqAll (w.map fun d => .char (.lit d))) b t ↔
      ∃ m v, (m, v) ∈ ends r b t ∧ v = w ++ u ∧ b' = (m && w.isEmpty) := by
  induction w generalizing r b t with
  | nil =>
      constructor
      · exact fun h => ⟨b', u, h, rfl, by simp⟩
      · rintro ⟨m, v, h, rfl, rfl⟩
        rw [List.isEmpty_nil, Bool.and_true]
        exact h
  | cons d w ih =>
      rw [List.map_cons]
      refine (ih (r := .seq r (.char (.lit d)))).trans ?_
      constructor
      · rintro ⟨m, v, h, rfl, rfl⟩
        obtain ⟨m', v', hv', hd⟩ := mem_ends_seq.mp h
        obtain ⟨rfl, e, he, rfl⟩ := mem_ends_char.mp hd
        obtain rfl : d = e := beq_iff_eq.mp he
        exact ⟨m', d :: (w ++ u), hv', rfl, by simp⟩
      · rintro ⟨m, v, h, rfl, rfl⟩
        refine ⟨false, w ++ u, mem_ends_seq.mpr ⟨m, d :: (w ++ u), h, ?_⟩, rfl, by simp⟩
        exact mem_ends_char.mpr ⟨rfl, d, beq_iff_eq.mpr rfl, rfl⟩

end Regex

end Pcre
