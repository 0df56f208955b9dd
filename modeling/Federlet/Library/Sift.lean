import Mathlib.Data.List.Nodup

/-! Sifting a list of entries that carry two labels. An entry is tried unless its
position reaches the cap, its name is excluded or known, or it shares a label with
an entry tried before; an entry that is tried may make its name known. -/

namespace Sift

structure Labels (ι κ υ : Type) where
  name : ι → κ
  place : ι → υ
  index : ι → Nat
  tried : ι → Bool
  taken : ι → Bool

/-- What the entries sifted so far have left: the known names and the labels tried. -/
structure Front (κ υ : Type) where
  known : κ → Prop
  names : List κ
  places : List υ

variable {ι κ υ : Type} (l : Labels ι κ υ) (excluded : κ → Prop) (cap : Int)

def Front.next (f : Front κ υ) (i : ι) : Front κ υ :=
  if l.tried i then
    { known := fun k => f.known k ∨ (l.taken i = true ∧ l.name i = k)
      names := l.name i :: f.names
      places := l.place i :: f.places }
  else f

structure Open (f : Front κ υ) (i : ι) : Prop where
  within : (l.index i : Int) < cap
  allowed : ¬ excluded (l.name i)
  unknown : ¬ f.known (l.name i)
  newName : l.name i ∉ f.names
  newPlace : l.place i ∉ f.places

/-- The entries were sifted in order from `f` on. -/
def Sifted : Front κ υ → List ι → Prop
  | _, [] => True
  | f, i :: is => (l.tried i = true ↔ Open l excluded cap f i) ∧ Sifted (f.next l i) is

def Front.after (f : Front κ υ) (is : List ι) : Front κ υ := is.foldl (Front.next l) f

variable {l excluded cap}

theorem Sifted.append {f : Front κ υ} {is js : List ι} :
    Sifted l excluded cap f (is ++ js) ↔ Sifted l excluded cap f is ∧
      Sifted l excluded cap (f.after l is) js := by
  induction is generalizing f with
  | nil => exact (true_and _).symm.to_iff
  | cons i is ih =>
    simp only [List.cons_append, Sifted, ih, and_assoc]
    rfl

theorem Front.known_after {f : Front κ υ} {is : List ι} {k : κ} :
    (f.after l is).known k ↔ f.known k ∨ ∃ i ∈ is, l.tried i = true ∧ l.taken i = true ∧
      l.name i = k := by
  induction is generalizing f with
  | nil => simp [Front.after]
  | cons i is ih =>
    rw [Front.after, List.foldl_cons, ← Front.after, ih, Front.next]
    split_ifs with h
    · simp [h, or_assoc]
    · simp [h]

theorem Front.mem_names_after {f : Front κ υ} {is : List ι} {k : κ} :
    k ∈ (f.after l is).names ↔ k ∈ f.names ∨ ∃ i ∈ is, l.tried i = true ∧ l.name i = k := by
  induction is generalizing f with
  | nil => simp [Front.after]
  | cons i is ih =>
    rw [Front.after, List.foldl_cons, ← Front.after, ih, Front.next]
    split_ifs with h
    · rw [List.exists_mem_cons_iff, List.mem_cons, eq_comm, or_comm (a := _ = k), or_assoc, h,
        eq_self, true_and]
    · simp [h]

theorem Front.mem_places_after {f : Front κ υ} {is : List ι} {u : υ} :
    u ∈ (f.after l is).places ↔ u ∈ f.places ∨ ∃ i ∈ is, l.tried i = true ∧ l.place i = u := by
  induction is generalizing f with
  | nil => simp [Front.after]
  | cons i is ih =>
    rw [Front.after, List.foldl_cons, ← Front.after, ih, Front.next]
    split_ifs with h
    · rw [List.exists_mem_cons_iff, List.mem_cons, eq_comm, or_comm (a := _ = u), or_assoc, h,
        eq_self, true_and]
    · simp [h]

/-- An entry is tried exactly when none before it stands in its way. -/
theorem Sifted.tried_iff {f : Front κ υ} {is js : List ι} {i : ι}
    (h : Sifted l excluded cap f (is ++ i :: js)) :
    l.tried i = true ↔ ((l.index i : Int) < cap ∧ ¬ excluded (l.name i) ∧ ¬ f.known (l.name i) ∧
      l.name i ∉ f.names ∧ l.place i ∉ f.places) ∧
      ∀ j ∈ is, l.tried j = true → l.name j ≠ l.name i ∧ l.place j ≠ l.place i := by
  rw [(Sifted.append.mp h).2.1]
  constructor
  · rintro ⟨hwithin, hallowed, hunknown, hname, hplace⟩
    rw [Front.known_after, not_or] at hunknown
    rw [Front.mem_names_after, not_or] at hname
    rw [Front.mem_places_after, not_or] at hplace
    refine ⟨⟨hwithin, hallowed, hunknown.1, hname.1, hplace.1⟩, fun j hj ht =>
      ⟨fun he => ?_, fun he => ?_⟩⟩
    · exact hname.2 ⟨j, hj, ht, he⟩
    · exact hplace.2 ⟨j, hj, ht, he⟩
  · rintro ⟨⟨hwithin, hallowed, hunknown, hname, hplace⟩, hbefore⟩
    refine ⟨hwithin, hallowed, ?_, ?_, ?_⟩
    · rw [Front.known_after]
      rintro (hk | ⟨j, hj, ht, _, he⟩)
      · exact hunknown hk
      · exact (hbefore j hj ht).1 he
    · rw [Front.mem_names_after]
      rintro (hk | ⟨j, hj, ht, he⟩)
      · exact hname hk
      · exact (hbefore j hj ht).1 he
    · rw [Front.mem_places_after]
      rintro (hk | ⟨j, hj, ht, he⟩)
      · exact hplace hk
      · exact (hbefore j hj ht).2 he

theorem Sifted.open_of_tried {f : Front κ υ} {is : List ι} (h : Sifted l excluded cap f is)
    {i : ι} (hi : i ∈ is) (ht : l.tried i = true) : Open l excluded cap f i := by
  obtain ⟨js, ks, rfl⟩ := List.append_of_mem hi
  obtain ⟨⟨hwithin, hallowed, hunknown, hname, hplace⟩, _⟩ := h.tried_iff.mp ht
  exact ⟨hwithin, hallowed, hunknown, hname, hplace⟩

theorem Sifted.pairwise {f : Front κ υ} {is : List ι} (h : Sifted l excluded cap f is) :
    (is.filter l.tried).Pairwise fun i j => l.name i ≠ l.name j ∧ l.place i ≠ l.place j := by
  rw [List.pairwise_filter]
  induction is generalizing f with
  | nil => exact .nil
  | cons i is ih =>
    refine .cons (fun j hj hti htj => ?_) (ih h.2)
    obtain ⟨js, ks, rfl⟩ := List.append_of_mem hj
    rw [← List.cons_append] at h
    exact (h.tried_iff.mp htj).2 i List.mem_cons_self hti

theorem Sifted.names_nodup {f : Front κ υ} {is : List ι} (h : Sifted l excluded cap f is) :
    ((is.filter l.tried).map l.name).Nodup := List.pairwise_map.mpr (h.pairwise.imp And.left)

theorem Sifted.places_nodup {f : Front κ υ} {is : List ι} (h : Sifted l excluded cap f is) :
    ((is.filter l.tried).map l.place).Nodup := List.pairwise_map.mpr (h.pairwise.imp And.right)

end Sift
