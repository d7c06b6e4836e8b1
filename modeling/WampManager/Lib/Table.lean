/-
# Tables with an autoincrement key

A table is a list of keyed rows in insertion order, together with the largest
key it ever handed out. The keys are distinct and none exceeds that sequence
number; both facts travel with the table, so a lookup by key finds the one row
there is and a fresh key never meets an old one.
-/

import Mathlib.Data.Int.Order.Basic
import Mathlib.Data.List.Nodup

universe u

/-- Keyed rows in insertion order. -/
structure Table (ρ : Type u) where
  /-- The rows, oldest first. -/
  rows : List (ℤ × ρ)
  /-- The largest key ever used. -/
  seq : ℤ
  /-- No key exceeds the sequence number. -/
  le_seq : ∀ row ∈ rows, row.1 ≤ seq
  /-- Keys are distinct. -/
  nodup : (rows.map Prod.fst).Nodup

namespace Table

variable {ρ : Type u}

/-- A table that never held a row. -/
def empty : Table ρ where
  rows := []
  seq := 0
  le_seq := by simp
  nodup := by simp

/-- The key of the next inserted row. -/
def nextId (t : Table ρ) : ℤ := t.seq + 1

/-- Insert a row under a fresh key. -/
def insert (t : Table ρ) (r : ρ) : Table ρ where
  rows := t.rows ++ [(t.nextId, r)]
  seq := t.nextId
  le_seq := by
    intro row hrow
    rcases List.mem_append.mp hrow with hrow | hrow
    · have hle := t.le_seq row hrow
      simp only [nextId]
      omega
    · rw [List.mem_singleton.mp hrow]
  nodup := by
    rw [List.map_append, List.nodup_append]
    refine ⟨t.nodup, by simp, ?_⟩
    rintro old hold new hnew rfl
    obtain ⟨row, hrow, rfl⟩ := List.mem_map.mp hold
    have hle := t.le_seq row hrow
    have heq : row.1 = t.nextId := by simpa using hnew
    rw [heq, nextId] at hle
    omega

/-- Insert a row under a given key; a key in use is refused. -/
def insertAt (t : Table ρ) (id : ℤ) (r : ρ) : Option (Table ρ) :=
  if h : id ∈ t.rows.map Prod.fst then none
  else some
    { rows := t.rows ++ [(id, r)]
      seq := max t.seq id
      le_seq := by
        intro row hrow
        rcases List.mem_append.mp hrow with hrow | hrow
        · exact le_trans (t.le_seq row hrow) (le_max_left _ _)
        · rw [List.mem_singleton.mp hrow]
          exact le_max_right _ _
      nodup := by
        rw [List.map_append, List.nodup_append]
        refine ⟨t.nodup, by simp, ?_⟩
        rintro old hold new hnew rfl
        have hid : old = id := by simpa using hnew
        exact h (hid ▸ hold) }

/-- Delete the rows that meet a condition; the sequence number stays. -/
def delete (t : Table ρ) (condition : ℤ → ρ → Bool) : Table ρ where
  rows := t.rows.filter fun row => !condition row.1 row.2
  seq := t.seq
  le_seq := fun row hrow => t.le_seq row (List.mem_filter.mp hrow).1
  nodup := t.nodup.sublist (List.filter_sublist.map _)

/-- Rewrite the rows that meet a condition; keys stay. -/
def update (t : Table ρ) (condition : ℤ → ρ → Bool) (f : ρ → ρ) : Table ρ where
  rows := t.rows.map fun row => if condition row.1 row.2 then (row.1, f row.2) else row
  seq := t.seq
  le_seq := by
    intro row hrow
    obtain ⟨old, hold, rfl⟩ := List.mem_map.mp hrow
    have hle := t.le_seq old hold
    by_cases hc : condition old.1 old.2 <;> simpa [hc] using hle
  nodup := by
    rw [List.map_map]
    have hkeys : Prod.fst ∘ (fun row : ℤ × ρ =>
        if condition row.1 row.2 then (row.1, f row.2) else row) = Prod.fst := by
      funext row
      by_cases hc : condition row.1 row.2 <;> simp [hc]
    rw [hkeys]
    exact t.nodup

/-- The row with a given key. -/
def find? (t : Table ρ) (id : ℤ) : Option ρ :=
  (t.rows.find? (·.1 == id)).map Prod.snd

/-! ## Rows after each operation -/

@[simp]
theorem rows_insert (t : Table ρ) (r : ρ) :
    (t.insert r).rows = t.rows ++ [(t.nextId, r)] := rfl

@[simp]
theorem rows_delete (t : Table ρ) (condition : ℤ → ρ → Bool) :
    (t.delete condition).rows = t.rows.filter fun row => !condition row.1 row.2 := rfl

@[simp]
theorem rows_update (t : Table ρ) (condition : ℤ → ρ → Bool) (f : ρ → ρ) :
    (t.update condition f).rows =
      t.rows.map fun row => if condition row.1 row.2 then (row.1, f row.2) else row := rfl

/-- Rows inserted one after another stand behind the old ones under fresh keys. -/
theorem rows_foldl_insert {α : Type*} (f : α → ρ) (as : List α) (t : Table ρ) :
    ∃ extra, (as.foldl (fun t a => t.insert (f a)) t).rows = t.rows ++ extra ∧
      extra.map Prod.snd = as.map f ∧ ∀ row ∈ extra, t.seq < row.1 := by
  induction as generalizing t with
  | nil => exact ⟨[], by simp⟩
  | cons a as ih =>
      obtain ⟨extra, hrows, hvalues, hfresh⟩ := ih (t.insert (f a))
      have hseq : (t.insert (f a)).seq = t.seq + 1 := rfl
      refine ⟨(t.nextId, f a) :: extra, ?_, ?_, ?_⟩
      · rw [List.foldl_cons, hrows, rows_insert, List.append_assoc]
        rfl
      · rw [List.map_cons, hvalues, List.map_cons]
      · intro row hrow
        rcases List.mem_cons.mp hrow with rfl | hrow
        · show t.seq < t.seq + 1
          omega
        · have hrow' := hfresh row hrow
          omega

/-- Rewriting the row that was just inserted leaves the others alone. -/
theorem rows_update_insert (t : Table ρ) (r : ρ) (f : ρ → ρ) :
    ((t.insert r).update (fun id _ => id == t.nextId) f).rows =
      t.rows ++ [(t.nextId, f r)] := by
  have hold : ∀ row ∈ t.rows, (if row.1 == t.nextId then (row.1, f row.2) else row) = row := by
    intro row hrow
    have hle := t.le_seq row hrow
    rw [if_neg]
    rw [beq_iff_eq, nextId]
    omega
  rw [rows_update, rows_insert, List.map_append, List.map_congr_left hold]
  simp

/-- Rewriting rows to what they are changes nothing. -/
theorem update_eq_self {t : Table ρ} {condition : ℤ → ρ → Bool} {f : ρ → ρ}
    (h : ∀ id r, (id, r) ∈ t.rows → condition id r = true → f r = r) :
    t.update condition f = t := by
  have hrows : (t.update condition f).rows = t.rows := by
    rw [rows_update]
    conv_rhs => rw [← List.map_id t.rows]
    apply List.map_congr_left
    rintro ⟨id, r⟩ hrow
    by_cases hc : condition id r
    · simp [hc, h id r hrow hc]
    · simp [hc]
  cases t
  simpa [update] using hrows

/-- Rows with one key are one row. -/
theorem eq_of_mem {t : Table ρ} {id : ℤ} {first second : ρ}
    (hfirst : (id, first) ∈ t.rows) (hsecond : (id, second) ∈ t.rows) : first = second := by
  have hrow := List.inj_on_of_nodup_map t.nodup hfirst hsecond rfl
  exact (Prod.mk.inj hrow).2

/-- A lookup finds exactly the row that is there. -/
theorem find?_eq_some {t : Table ρ} {id : ℤ} {r : ρ} :
    t.find? id = some r ↔ (id, r) ∈ t.rows := by
  constructor
  · intro h
    obtain ⟨row, hrow, rfl⟩ := Option.map_eq_some_iff.mp h
    have hkey : row.1 = id := by simpa using List.find?_some hrow
    rw [← hkey]
    exact List.mem_of_find?_eq_some hrow
  · intro h
    obtain ⟨row, hrow⟩ : ∃ row, t.rows.find? (·.1 == id) = some row := by
      rw [← Option.isSome_iff_exists, List.find?_isSome]
      exact ⟨(id, r), h, by simp⟩
    have hkey : row.1 = id := by simpa using List.find?_some hrow
    have hmem : (id, row.2) ∈ t.rows := hkey ▸ List.mem_of_find?_eq_some hrow
    rw [find?, hrow, Option.map_some, eq_of_mem hmem h]

theorem find?_eq_none {t : Table ρ} {id : ℤ} :
    t.find? id = none ↔ id ∉ t.rows.map Prod.fst := by
  constructor
  · intro h hmem
    obtain ⟨row, hrow, rfl⟩ := List.mem_map.mp hmem
    rw [find?_eq_some.mpr hrow] at h
    cases h
  · intro h
    cases hfind : t.find? id with
    | none => rfl
    | some r => exact absurd (List.mem_map.mpr ⟨_, find?_eq_some.mp hfind, rfl⟩) h

/-- Looking up a fresh row. -/
theorem find?_insert (t : Table ρ) (r : ρ) (id : ℤ) :
    (t.insert r).find? id = if id = t.nextId then some r else t.find? id := by
  by_cases hid : id = t.nextId
  · rw [if_pos hid, find?_eq_some, hid]
    simp
  · rw [if_neg hid]
    apply Option.ext
    intro s
    rw [find?_eq_some, find?_eq_some]
    simp [hid]

theorem find?_delete_key (t : Table ρ) (key id : ℤ) :
    (t.delete fun k _ => k == key).find? id = if id = key then none else t.find? id := by
  apply Option.ext
  intro s
  rw [find?_eq_some, rows_delete, List.mem_filter]
  by_cases hid : id = key
  · simp [hid]
  · simp [hid, find?_eq_some]

/-- Looking up a rewritten row: the condition is read off the old row. -/
theorem find?_update (t : Table ρ) (condition : ℤ → ρ → Bool) (f : ρ → ρ) (id : ℤ) :
    (t.update condition f).find? id =
      (t.find? id).map fun r => if condition id r then f r else r := by
  apply Option.ext
  intro s
  rw [find?_eq_some, rows_update, List.mem_map, Option.map_eq_some_iff]
  constructor
  · rintro ⟨⟨key, r⟩, hrow, heq⟩
    by_cases hc : condition key r
    · obtain ⟨rfl, rfl⟩ := Prod.mk.inj ((if_pos hc).symm.trans heq)
      exact ⟨r, find?_eq_some.mpr hrow, by simp [hc]⟩
    · obtain ⟨rfl, rfl⟩ := Prod.mk.inj ((if_neg hc).symm.trans heq)
      exact ⟨r, find?_eq_some.mpr hrow, by simp [hc]⟩
  · rintro ⟨r, hfind, rfl⟩
    refine ⟨(id, r), find?_eq_some.mp hfind, ?_⟩
    by_cases hc : condition id r <;> simp [hc]

/-- No row has the next key yet. -/
theorem nextId_not_mem (t : Table ρ) (r : ρ) : (t.nextId, r) ∉ t.rows := by
  intro h
  have hle := t.le_seq _ h
  simp only [nextId] at hle
  omega

theorem find?_nextId (t : Table ρ) : t.find? t.nextId = none := by
  rw [find?_eq_none]
  intro hmem
  obtain ⟨⟨id, r⟩, hrow, rfl⟩ := List.mem_map.mp hmem
  exact t.nextId_not_mem r hrow

end Table
