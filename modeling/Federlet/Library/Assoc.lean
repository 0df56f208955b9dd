import Mathlib.Order.Lattice
import Mathlib.Data.List.Basic

/-! Association lists in the order of their keys. Of several entries under one key
the first counts, and two sorted lists with the same entries are the same list. -/

namespace Assoc

variable {κ β : Type} [BEq κ] [LawfulBEq κ] [LinearOrder κ]

def insert (k : κ) (v : β) : List (κ × β) → List (κ × β)
  | [] => [(k, v)]
  | kv :: l =>
    if k = kv.1 then (k, v) :: l else if k < kv.1 then (k, v) :: kv :: l else kv :: insert k v l

def sort : List (κ × β) → List (κ × β)
  | [] => []
  | kv :: l => insert kv.1 kv.2 (sort l)

def Sorted (l : List (κ × β)) : Prop := l.Pairwise fun a b => a.1 < b.1

omit [LinearOrder κ] in
theorem lookup_entry (j k : κ) (v : β) (l : List (κ × β)) [Decidable (j = k)] :
    ((k, v) :: l).lookup j = if j = k then some v else l.lookup j := by
  by_cases h : j = k
  · rw [if_pos h, h, List.lookup_cons_self]
  · have hne : (j == k) = false := by simpa using h
    simp only [List.lookup_cons, hne, if_neg h]

theorem lookup_insert (k : κ) (v : β) (l : List (κ × β)) (j : κ) :
    (insert k v l).lookup j = if j = k then some v else l.lookup j := by
  induction l with
  | nil => rw [insert, lookup_entry]
  | cons kv l ih =>
    obtain ⟨k', v'⟩ := kv
    rw [insert]
    by_cases hk : k = k'
    · rw [if_pos hk, lookup_entry, lookup_entry]
      by_cases hj : j = k <;> simp [hj, ← hk]
    · rw [if_neg hk]
      by_cases hlt : k < k'
      · rw [if_pos hlt, lookup_entry]
      · rw [if_neg hlt, lookup_entry, lookup_entry, ih]
        by_cases hj : j = k
        · simp [hj, hk]
        · simp [hj]

theorem lookup_sort (l : List (κ × β)) (j : κ) : (sort l).lookup j = l.lookup j := by
  induction l with
  | nil => rfl
  | cons kv l ih => rw [sort, lookup_insert, lookup_entry, ih]

omit [BEq κ] [LawfulBEq κ] in
theorem mem_insert {k : κ} {v : β} {l : List (κ × β)} {kv : κ × β} (h : kv ∈ insert k v l) :
    kv = (k, v) ∨ kv ∈ l := by
  induction l with
  | nil => simpa [insert] using h
  | cons kv' l ih =>
    rw [insert] at h
    split_ifs at h
    · rcases List.mem_cons.mp h with h | h
      · exact .inl h
      · exact .inr (List.mem_cons_of_mem _ h)
    · exact (List.mem_cons.mp h).imp_right id
    · rcases List.mem_cons.mp h with h | h
      · exact .inr (h ▸ List.mem_cons_self)
      · exact (ih h).imp_right (List.mem_cons_of_mem _)

omit [BEq κ] [LawfulBEq κ] in
theorem mem_of_mem_sort {l : List (κ × β)} {kv : κ × β} (h : kv ∈ sort l) : kv ∈ l := by
  induction l with
  | nil => exact h
  | cons kv' l ih =>
    rcases mem_insert h with rfl | h
    · exact List.mem_cons_self
    · exact List.mem_cons_of_mem _ (ih h)

omit [BEq κ] [LawfulBEq κ] in
theorem sorted_insert {k : κ} {v : β} {l : List (κ × β)} (h : Sorted l) :
    Sorted (insert k v l) := by
  induction l with
  | nil => exact List.pairwise_singleton _ _
  | cons kv l ih =>
    obtain ⟨hhead, htail⟩ := List.pairwise_cons.mp h
    rw [insert]
    split_ifs with heq hlt
    · exact List.pairwise_cons.mpr ⟨fun a ha => heq ▸ hhead a ha, htail⟩
    · refine List.pairwise_cons.mpr ⟨fun a ha => ?_, h⟩
      rcases List.mem_cons.mp ha with rfl | ha
      · exact hlt
      · exact hlt.trans (hhead a ha)
    · refine List.pairwise_cons.mpr ⟨fun a ha => ?_, ih htail⟩
      rcases mem_insert ha with rfl | ha
      · exact lt_of_le_of_ne (not_lt.mp hlt) (Ne.symm heq)
      · exact hhead a ha

omit [BEq κ] [LawfulBEq κ] in
theorem sorted_sort (l : List (κ × β)) : Sorted (sort l) := by
  induction l with
  | nil => exact List.Pairwise.nil
  | cons kv l ih => exact sorted_insert ih

theorem lookup_eq_none_of_lt {k : κ} {l : List (κ × β)} (h : ∀ a ∈ l, k < a.1) :
    l.lookup k = none := by
  rw [List.lookup_eq_none_iff]
  intro a ha
  simpa using (h a ha).ne

theorem eq_of_lookup {l l' : List (κ × β)} (hl : Sorted l) (hl' : Sorted l')
    (h : ∀ k, l.lookup k = l'.lookup k) :
    l = l' := by
  induction l generalizing l' with
  | nil =>
    cases l' with
    | nil => rfl
    | cons kv l' =>
      obtain ⟨k, v⟩ := kv
      exact absurd (h k) (by simp)
  | cons kv l ih =>
    obtain ⟨k, v⟩ := kv
    obtain ⟨hhead, htail⟩ := List.pairwise_cons.mp hl
    cases l' with
    | nil => exact absurd (h k) (by simp)
    | cons kv' l' =>
      obtain ⟨k', v'⟩ := kv'
      obtain ⟨hhead', htail'⟩ := List.pairwise_cons.mp hl'
      have hk := h k
      have hk' := h k'
      rw [lookup_entry, lookup_entry] at hk hk'
      obtain rfl : k = k' := by
        rcases lt_trichotomy k k' with hlt | heq | hlt
        · rw [if_pos rfl, if_neg hlt.ne, lookup_eq_none_of_lt fun a ha => hlt.trans (hhead' a ha)]
            at hk
          cases hk
        · exact heq
        · rw [if_neg hlt.ne, if_pos rfl, lookup_eq_none_of_lt fun a ha => hlt.trans (hhead a ha)]
            at hk'
          cases hk'
      obtain rfl : v = v' := by simpa using hk
      refine congrArg _ (ih htail htail' fun j => ?_)
      have hj := h j
      rw [lookup_entry, lookup_entry] at hj
      by_cases hjk : j = k
      · rw [hjk, lookup_eq_none_of_lt hhead, lookup_eq_none_of_lt hhead']
      · rwa [if_neg hjk, if_neg hjk] at hj

end Assoc
