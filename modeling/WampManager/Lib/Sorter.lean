/-
# Sorting by a comparison

A sorting procedure returns what it is given in another order. The order is that of
the comparison where the comparison is a linear order on the elements; where it is
none, nothing is said about the order. So a property of two elements that stand one
behind the other holds of every sorted list exactly if the comparison provides for it.
-/

import Mathlib.Data.List.Perm.Basic
import Mathlib.Data.List.Nodup
import Mathlib.Data.List.Pairwise

universe u

variable {α : Type u}

/-- A comparison that is a linear order on the elements of a list. -/
structure Orders (le : α → α → Bool) (l : List α) : Prop where
  total : ∀ a ∈ l, ∀ b ∈ l, le a b = true ∨ le b a = true
  trans : ∀ a ∈ l, ∀ b ∈ l, ∀ c ∈ l, le a b = true → le b c = true → le a c = true
  antisymm : ∀ a ∈ l, ∀ b ∈ l, le a b = true → le b a = true → a = b

/-- A sorting procedure. -/
structure Sorter (α : Type u) where
  sort : (α → α → Bool) → List α → List α
  perm : ∀ le l, (sort le l).Perm l
  pairwise : ∀ le l, Orders le l → (sort le l).Pairwise fun a b => le a b = true

namespace Sorter

variable {le : α → α → Bool} {l : List α}

theorem exists_sorted (h : Orders le l) :
    ∃ out : List α, out.Perm l ∧ out.Pairwise fun a b => le a b = true := by
  let leOn : {a // a ∈ l} → {a // a ∈ l} → Bool := fun a b => le a.1 b.1
  have htrans : ∀ a b c : {a // a ∈ l}, leOn a b = true → leOn b c = true → leOn a c = true :=
    fun a b c => h.trans a.1 a.2 b.1 b.2 c.1 c.2
  have htotal : ∀ a b : {a // a ∈ l}, (leOn a b || leOn b a) = true := fun a b =>
    Bool.or_eq_true _ _ |>.mpr (h.total a.1 a.2 b.1 b.2)
  refine ⟨(l.attach.mergeSort leOn).map Subtype.val, ?_, ?_⟩
  · have hperm := (List.mergeSort_perm l.attach leOn).map Subtype.val
    rwa [List.attach_map_subtype_val] at hperm
  · rw [List.pairwise_map]
    exact List.pairwise_mergeSort htrans htotal l.attach

open Classical in
/-- A procedure that returns a given list where it may. -/
noncomputable def returning (le : α → α → Bool) (l out : List α) (hperm : out.Perm l)
    (hsorted : Orders le l → out.Pairwise fun a b => le a b = true) : Sorter α where
  sort le' l' :=
    if le' = le ∧ l' = l then out
    else if h : Orders le' l' then (exists_sorted h).choose
    else l'
  perm le' l' := by
    by_cases hsame : le' = le ∧ l' = l
    · obtain ⟨rfl, rfl⟩ := hsame
      simpa using hperm
    · rw [if_neg hsame]
      by_cases h : Orders le' l'
      · rw [dif_pos h]
        exact (exists_sorted h).choose_spec.1
      · rw [dif_neg h]
  pairwise le' l' h := by
    by_cases hsame : le' = le ∧ l' = l
    · obtain ⟨rfl, rfl⟩ := hsame
      simpa using hsorted h
    · rw [if_neg hsame, dif_pos h]
      exact (exists_sorted h).choose_spec.2

theorem sort_returning {out : List α} (hperm : out.Perm l)
    (hsorted : Orders le l → out.Pairwise fun a b => le a b = true) :
    (returning le l out hperm hsorted).sort le l = out := if_pos ⟨rfl, rfl⟩

/-- Of two different elements one stands in front. -/
theorem mem_or_mem_of_pairwise {R : α → α → Prop} {out : List α} {a b : α} (ha : a ∈ out)
    (hb : b ∈ out) (hne : a ≠ b) (h : out.Pairwise R) : R a b ∨ R b a := by
  induction out with
  | nil => cases ha
  | cons c out ih =>
      obtain ⟨hhead, htail⟩ := List.pairwise_cons.mp h
      rcases List.mem_cons.mp ha with rfl | ha'
      · rcases List.mem_cons.mp hb with rfl | hb'
        · exact absurd rfl hne
        · exact .inl (hhead b hb')
      · rcases List.mem_cons.mp hb with rfl | hb'
        · exact .inr (hhead a ha')
        · exact ih ha' hb' htail

/-- What holds of elements one behind the other in every sorted list: all pairs have
it, or the comparison is an order that puts the pairs without it the other way. -/
theorem forall_pairwise_iff (hnodup : l.Nodup) (R : α → α → Prop) :
    (∀ sorter : Sorter α, (sorter.sort le l).Pairwise R) ↔
      ∀ a ∈ l, ∀ b ∈ l, a ≠ b → ¬ R a b → Orders le l ∧ le a b = false := by
  constructor
  · intro hall a ha b hb hne hR
    have horders : Orders le l := by
      classical
      by_contra hnot
      have hrest : b ∈ l.erase a := (List.mem_erase_of_ne hne.symm).mpr hb
      have hperm : (a :: b :: (l.erase a).erase b).Perm l :=
        ((List.perm_cons_erase hrest).symm.cons a).trans (List.perm_cons_erase ha).symm
      have hpairs := hall (returning le l _ hperm fun h => absurd h hnot)
      rw [sort_returning] at hpairs
      exact hR ((List.pairwise_cons.mp hpairs).1 b List.mem_cons_self)
    refine ⟨horders, Bool.eq_false_iff.mpr fun hle => ?_⟩
    obtain ⟨out, hperm, hsorted⟩ := exists_sorted horders
    have hpairs := hall (returning le l out hperm fun _ => hsorted)
    rw [sort_returning] at hpairs
    have hboth := hpairs.and hsorted
    rcases mem_or_mem_of_pairwise (hperm.mem_iff.mpr ha) (hperm.mem_iff.mpr hb) hne hboth with
      h | h
    · exact hR h.1
    · exact hne (horders.antisymm a ha b hb hle h.2)
  · intro hcond sorter
    have hperm := sorter.perm le l
    have hdistinct : (sorter.sort le l).Pairwise (· ≠ ·) := hperm.nodup_iff.mpr hnodup
    by_cases horders : Orders le l
    · refine ((sorter.pairwise le l horders).and hdistinct).imp_of_mem ?_
      intro a b ha hb hab
      by_contra hR
      have hfalse := (hcond a (hperm.mem_iff.mp ha) b (hperm.mem_iff.mp hb) hab.2 hR).2
      rw [hab.1] at hfalse
      cases hfalse
    · refine hdistinct.imp_of_mem ?_
      intro a b ha hb hne
      by_contra hR
      exact horders (hcond a (hperm.mem_iff.mp ha) b (hperm.mem_iff.mp hb) hne hR).1

end Sorter
