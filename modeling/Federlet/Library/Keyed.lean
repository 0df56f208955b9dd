import Mathlib.Data.List.Nodup
import Mathlib.Data.List.Perm.Subperm
import Mathlib.Data.List.Basic
import Mathlib.Data.List.Induction

/-! Finite maps kept as the list of their values, each filed under a key read
off the value itself. No two values share a key and the list keeps insertion
order, so a value stored under a key that is already present keeps its place. -/

structure Keyed {α κ : Type} (key : α → κ) where
  entries : List α
  nodup : (entries.map key).Nodup

namespace Keyed

variable {α κ : Type} {key : α → κ}

def empty : Keyed key := ⟨[], List.nodup_nil⟩

instance : Inhabited (Keyed key) := ⟨empty⟩

variable [DecidableEq κ]

def get (s : Keyed key) (k : κ) : Option α :=
  s.entries.find? (fun a => key a == k)

/-- The list after a store: the value with the same key is replaced in place,
a value with a new key goes to the end. -/
def stored (key : α → κ) (l : List α) (a : α) : List α :=
  if l.any (fun b => key b == key a) then l.map (fun b => if key b = key a then a else b)
  else l ++ [a]

theorem map_key_stored (l : List α) (a : α) :
    (stored key l a).map key = if key a ∈ l.map key then l.map key else l.map key ++ [key a] := by
  have hany : l.any (fun b => key b == key a) = true ↔ key a ∈ l.map key := by
    simp [List.any_eq_true, List.mem_map]
  by_cases h : key a ∈ l.map key
  · rw [stored, if_pos (hany.mpr h), if_pos h, List.map_map]
    apply List.map_congr_left
    intro b _
    by_cases hb : key b = key a <;> simp [hb]
  · rw [stored, if_neg (mt hany.mp h), if_neg h, List.map_append, List.map_singleton]

def upsert (s : Keyed key) (a : α) : Keyed key where
  entries := stored key s.entries a
  nodup := by
    rw [map_key_stored]
    split_ifs with h
    · exact s.nodup
    · rw [List.nodup_append]
      refine ⟨s.nodup, by simp, ?_⟩
      intro x hx y hy he
      rw [List.mem_singleton] at hy
      exact h (hy ▸ he ▸ hx)

theorem length_upsert_le (s : Keyed key) (a : α) :
    (s.upsert a).entries.length ≤ s.entries.length + 1 := by
  have h := congrArg List.length (@map_key_stored _ _ key _ s.entries a)
  show (stored key s.entries a).length ≤ _
  split_ifs at h with hmem
  all_goals simp at h; omega

def erase (s : Keyed key) (k : κ) : Keyed key where
  entries := s.entries.filter (fun a => key a != k)
  nodup := s.nodup.sublist (List.filter_sublist.map key)

/-- Later values win over earlier ones with the same key. -/
def ofList (l : List α) : Keyed key := l.foldl upsert empty

theorem key_of_get {s : Keyed key} {k : κ} {a : α} (h : s.get k = some a) : key a = k := by
  simpa using List.find?_some h

theorem mem_of_get {s : Keyed key} {k : κ} {a : α} (h : s.get k = some a) : a ∈ s.entries :=
  List.mem_of_find?_eq_some h

theorem get_of_mem {s : Keyed key} {a : α} (h : a ∈ s.entries) : s.get (key a) = some a := by
  obtain ⟨b, hb⟩ : ∃ b, s.get (key a) = some b := by
    apply Option.ne_none_iff_exists'.mp
    intro hn
    simpa using List.find?_eq_none.mp hn a h
  rw [hb, List.inj_on_of_nodup_map s.nodup (mem_of_get hb) h (key_of_get hb)]

theorem get_eq_some_iff {s : Keyed key} {k : κ} {a : α} :
    s.get k = some a ↔ a ∈ s.entries ∧ key a = k :=
  ⟨fun h => ⟨mem_of_get h, key_of_get h⟩, fun h => h.2 ▸ get_of_mem h.1⟩

theorem get_eq_none_iff {s : Keyed key} {k : κ} :
    s.get k = none ↔ ∀ a ∈ s.entries, key a ≠ k := by
  simp [get, List.find?_eq_none]

theorem mem_stored {l : List α} {a b : α} :
    b ∈ stored key l a ↔ b = a ∨ (b ∈ l ∧ key b ≠ key a) := by
  by_cases h : key a ∈ l.map key
  · have hany : l.any (fun b => key b == key a) = true := by
      obtain ⟨c, hc, he⟩ := List.mem_map.mp h
      exact List.any_eq_true.mpr ⟨c, hc, by simpa using he⟩
    rw [stored, if_pos hany, List.mem_map]
    constructor
    · rintro ⟨c, hc, rfl⟩
      by_cases he : key c = key a
      · simp [he]
      · simp [he, hc]
    · rintro (rfl | ⟨hb, he⟩)
      · obtain ⟨c, hc, he⟩ := List.mem_map.mp h
        exact ⟨c, hc, by simp [he]⟩
      · exact ⟨b, hb, by simp [he]⟩
  · have hany : ¬ l.any (fun b => key b == key a) = true := by
      rw [List.any_eq_true]
      rintro ⟨c, hc, he⟩
      exact h (List.mem_map.mpr ⟨c, hc, by simpa using he⟩)
    have hne : ∀ c ∈ l, key c ≠ key a := fun c hc he => h (List.mem_map.mpr ⟨c, hc, he⟩)
    rw [stored, if_neg hany, List.mem_append, List.mem_singleton]
    constructor
    · rintro (hb | rfl)
      · exact .inr ⟨hb, hne b hb⟩
      · exact .inl rfl
    · rintro (rfl | ⟨hb, _⟩)
      · exact .inr rfl
      · exact .inl hb

theorem get_upsert (s : Keyed key) (a : α) (k : κ) :
    (s.upsert a).get k = if key a = k then some a else s.get k := by
  split_ifs with h
  · exact get_eq_some_iff.mpr ⟨mem_stored.mpr (.inl rfl), h⟩
  · apply Option.ext
    intro b
    rw [get_eq_some_iff, get_eq_some_iff]
    constructor
    · rintro ⟨hb, hk⟩
      rcases mem_stored.mp hb with rfl | hb
      · exact absurd hk h
      · exact ⟨hb.1, hk⟩
    · rintro ⟨hb, hk⟩
      exact ⟨mem_stored.mpr (.inr ⟨hb, fun he => h (he ▸ hk)⟩), hk⟩

theorem get_upsert_self (s : Keyed key) (a : α) : (s.upsert a).get (key a) = some a := by
  simp [get_upsert]

theorem get_upsert_ne (s : Keyed key) {a : α} {k : κ} (h : key a ≠ k) :
    (s.upsert a).get k = s.get k := by
  simp [get_upsert, h]

theorem entries_upsert_of_new {s : Keyed key} {a : α} (h : s.get (key a) = none) :
    (s.upsert a).entries = s.entries ++ [a] := by
  have hany : ¬ s.entries.any (fun b => key b == key a) = true := by
    rw [List.any_eq_true]
    rintro ⟨b, hb, he⟩
    exact get_eq_none_iff.mp h b hb (by simpa using he)
  exact if_neg hany

theorem upsert_of_get {s : Keyed key} {a : α} (h : s.get (key a) = some a) : s.upsert a = s := by
  have hany : s.entries.any (fun b => key b == key a) = true :=
    List.any_eq_true.mpr ⟨a, mem_of_get h, by simp⟩
  have hentries : stored key s.entries a = s.entries := by
    rw [stored, if_pos hany]
    refine (List.map_congr_left fun b hb => ?_).trans (List.map_id _)
    split_ifs with hk
    · exact List.inj_on_of_nodup_map s.nodup (mem_of_get h) hb hk.symm
    · rfl
  cases s
  simpa only [upsert, mk.injEq] using hentries

theorem get_erase (s : Keyed key) (j k : κ) :
    (s.erase j).get k = if j = k then none else s.get k := by
  split_ifs with h
  · rw [get_eq_none_iff]
    intro a ha he
    have := (List.mem_filter.mp ha).2
    simp [he, h] at this
  · apply Option.ext
    intro b
    rw [get_eq_some_iff, get_eq_some_iff]
    constructor
    · rintro ⟨hb, hk⟩
      exact ⟨(List.mem_filter.mp hb).1, hk⟩
    · rintro ⟨hb, hk⟩
      exact ⟨List.mem_filter.mpr ⟨hb, by simpa [hk] using fun he => h he.symm⟩, hk⟩

theorem get_erase_self (s : Keyed key) (k : κ) : (s.erase k).get k = none := by
  simp [get_erase]

theorem get_erase_ne (s : Keyed key) {j k : κ} (h : j ≠ k) : (s.erase j).get k = s.get k := by
  simp [get_erase, h]

theorem erase_of_get_none {s : Keyed key} {k : κ} (h : s.get k = none) : s.erase k = s := by
  have hentries : s.entries.filter (fun a => key a != k) = s.entries := by
    rw [List.filter_eq_self]
    exact fun a ha => by simpa using get_eq_none_iff.mp h a ha
  cases s
  simpa only [erase, mk.injEq] using hentries

theorem get_ofList (l : List α) (k : κ) :
    (ofList l : Keyed key).get k = l.reverse.find? (fun a => key a == k) := by
  induction l using List.reverseRecOn with
  | nil => rfl
  | append_singleton l a ih =>
    have hstep : (ofList (l ++ [a]) : Keyed key) = (ofList l).upsert a := by
      simp only [ofList, List.foldl_append, List.foldl_cons, List.foldl_nil]
    rw [hstep, get_upsert, List.reverse_append, List.reverse_singleton, List.singleton_append,
      List.find?_cons, ih]
    by_cases h : key a = k
    · simp [h]
    · have hb : (key a == k) = false := by simpa using h
      rw [if_neg h, hb]

theorem mem_of_mem_ofList {l : List α} {a : α} (h : a ∈ (ofList l : Keyed key).entries) :
    a ∈ l := by
  have hget : (ofList l : Keyed key).get (key a) = _ := get_ofList l (key a)
  rw [get_of_mem h] at hget
  exact List.mem_reverse.mp (List.mem_of_find?_eq_some hget.symm)

theorem entries_ofList {l : List α} (h : (l.map key).Nodup) :
    (ofList l : Keyed key).entries = l := by
  induction l using List.reverseRecOn with
  | nil => rfl
  | append_singleton l a ih =>
    have hstep : (ofList (l ++ [a]) : Keyed key) = (ofList l).upsert a := by
      simp only [ofList, List.foldl_append, List.foldl_cons, List.foldl_nil]
    rw [List.map_append, List.nodup_append] at h
    have hnew : (ofList l : Keyed key).get (key a) = none := by
      rw [get_eq_none_iff, ih h.1]
      exact fun b hb => h.2.2 (key b) (List.mem_map_of_mem hb) (key a) (by simp)
    rw [hstep, entries_upsert_of_new hnew, ih h.1]

theorem ofList_entries (s : Keyed key) : ofList s.entries = s := by
  have hentries := entries_ofList s.nodup
  generalize (ofList s.entries : Keyed key) = t at hentries
  cases s
  cases t
  simpa only [mk.injEq] using hentries

theorem get_ofList_of_nodup {l : List α} (h : (l.map key).Nodup) (k : κ) :
    (ofList l : Keyed key).get k = l.find? (fun a => key a == k) := by
  have hrev : (l.reverse.map key).Nodup := by
    rw [List.map_reverse]
    exact List.nodup_reverse.mpr h
  have hl := fun a => @get_eq_some_iff _ _ key _ ⟨l, h⟩ k a
  have hr := fun a => @get_eq_some_iff _ _ key _ ⟨l.reverse, hrev⟩ k a
  rw [get_ofList]
  apply Option.ext
  intro a
  have hmem : a ∈ l.reverse ↔ a ∈ l := List.mem_reverse
  exact (hr a).trans ((and_congr_left' hmem).trans (hl a).symm)

/-- Equality of two maps up to a comparison of the values under one key: as many
entries, and each entry of the first has its match in the second. -/
def beqBy (eq : α → α → Bool) (s t : Keyed key) : Bool :=
  s.entries.length == t.entries.length && s.entries.all (fun a => (t.get (key a)).any (eq a))

theorem mem_map_key_iff {s : Keyed key} {k : κ} :
    k ∈ s.entries.map key ↔ ∃ a, s.get k = some a := by
  rw [List.mem_map]
  constructor
  · rintro ⟨a, ha, rfl⟩
    exact ⟨a, get_of_mem ha⟩
  · rintro ⟨a, ha⟩
    exact ⟨a, mem_of_get ha, key_of_get ha⟩

omit [DecidableEq κ] in
theorem length_le_of_keys {s t : Keyed key} (h : ∀ k ∈ s.entries.map key, k ∈ t.entries.map key) :
    s.entries.length ≤ t.entries.length := by
  simpa only [List.length_map] using (List.subperm_of_subset s.nodup h).length_le

theorem beqBy_iff {eq : α → α → Bool} {s t : Keyed key} :
    beqBy eq s t = true ↔ ∀ k, Option.Rel (fun a b => eq a b = true) (s.get k) (t.get k) := by
  rw [beqBy, Bool.and_eq_true, beq_iff_eq, List.all_eq_true]
  constructor
  · rintro ⟨hlen, hall⟩ k
    have hmatch : ∀ a ∈ s.entries, ∃ b, t.get (key a) = some b ∧ eq a b = true := by
      intro a ha
      cases hb : t.get (key a) with
      | none => simpa [hb] using hall a ha
      | some b => exact ⟨b, rfl, by simpa [hb] using hall a ha⟩
    have hsub : ∀ k ∈ s.entries.map key, k ∈ t.entries.map key := by
      intro k hk
      obtain ⟨a, ha, rfl⟩ := List.mem_map.mp hk
      obtain ⟨b, hb, _⟩ := hmatch a ha
      exact mem_map_key_iff.mpr ⟨b, hb⟩
    cases hs : s.get k with
    | some a =>
      obtain rfl := key_of_get hs
      obtain ⟨b, hb, he⟩ := hmatch a (mem_of_get hs)
      rw [hb]
      exact .some he
    | none =>
      cases ht : t.get k with
      | none => exact .none
      | some b =>
        have hperm := (List.subperm_of_subset s.nodup hsub).perm_of_length_le (by simp [hlen])
        obtain ⟨a, ha⟩ := mem_map_key_iff.mp (hperm.symm.subset (mem_map_key_iff.mpr ⟨b, ht⟩))
        simp [hs] at ha
  · intro h
    have hmatch : ∀ k, (∃ a, s.get k = some a) ↔ ∃ b, t.get k = some b := by
      intro k
      have hk := h k
      generalize s.get k = x at hk
      generalize t.get k = y at hk
      cases hk <;> simp
    refine ⟨Nat.le_antisymm (length_le_of_keys ?_) (length_le_of_keys ?_), ?_⟩
    · exact fun k hk => mem_map_key_iff.mpr ((hmatch k).mp (mem_map_key_iff.mp hk))
    · exact fun k hk => mem_map_key_iff.mpr ((hmatch k).mpr (mem_map_key_iff.mp hk))
    · intro a ha
      have hk := h (key a)
      rw [get_of_mem ha] at hk
      cases hb : t.get (key a) with
      | none => rw [hb] at hk; cases hk
      | some b =>
        rw [hb] at hk
        cases hk with
        | some he => simpa using he

section Related

variable {r : α → α → Prop} (hkey : ∀ a b, r a b → key a = key b) {l l' : List α}

include hkey

theorem stored_forall₂ {a b : α} (h : List.Forall₂ r l l') (hab : r a b) :
    List.Forall₂ r (stored key l a) (stored key l' b) := by
  have hk := hkey a b hab
  have hany : l.any (fun c => key c == key a) = l'.any (fun c => key c == key b) := by
    induction h with
    | nil => rfl
    | cons hc _ ih => rw [List.any_cons, List.any_cons, ih, hkey _ _ hc, hk]
  have hmap : List.Forall₂ r (l.map fun c => if key c = key a then a else c)
      (l'.map fun c => if key c = key b then b else c) := by
    clear hany
    induction h with
    | nil => exact .nil
    | cons hc _ ih =>
      refine .cons ?_ ih
      simp only [hkey _ _ hc, hk]
      split_ifs
      · exact hab
      · exact hc
  have hsnoc : List.Forall₂ r (l ++ [a]) (l' ++ [b]) := List.rel_append h (.cons hab .nil)
  rw [stored, stored, hany]
  split_ifs
  · exact hmap
  · exact hsnoc

theorem ofList_forall₂ (h : List.Forall₂ r l l') :
    List.Forall₂ r (ofList l : Keyed key).entries (ofList l' : Keyed key).entries := by
  have hfold : ∀ s t : Keyed key, List.Forall₂ r s.entries t.entries →
      List.Forall₂ r (l.foldl upsert s).entries (l'.foldl upsert t).entries := by
    induction h with
    | nil => exact fun _ _ hst => hst
    | cons hc _ ih => exact fun s t hst => ih _ _ (stored_forall₂ hkey hst hc)
  exact hfold empty empty .nil

theorem get_forall₂ {s t : Keyed key} (h : List.Forall₂ r s.entries t.entries) (k : κ) :
    Option.Rel r (s.get k) (t.get k) := by
  rw [get, get]
  generalize s.entries = l at h
  generalize t.entries = l' at h
  induction h with
  | nil => exact .none
  | cons hc _ ih =>
    rw [List.find?_cons, List.find?_cons, hkey _ _ hc]
    split
    · exact .some hc
    · exact ih

end Related

end Keyed
