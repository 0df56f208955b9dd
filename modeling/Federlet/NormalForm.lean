import Mathlib.Data.String.Basic
import Federlet.Canonical
import Federlet.Library.Assoc

/-! The normal form of a document: every object in the order of its keys, each key
once. Documents are the same exactly when their normal forms are equal. -/

namespace Federlet

namespace Json

mutual
def normal : Json → Json
  | .arr xs => .arr (normalList xs)
  | .obj kvs => .obj (Assoc.sort (normalFields kvs))
  | j => j
def normalList : List Json → List Json
  | [] => []
  | x :: xs => x.normal :: normalList xs
def normalFields : List (String × Json) → List (String × Json)
  | [] => []
  | (k, v) :: kvs => (k, v.normal) :: normalFields kvs
end

theorem normalList_eq (xs : List Json) : normalList xs = xs.map normal := by
  induction xs with
  | nil => rfl
  | cons x xs ih => rw [normalList, ih, List.map_cons]

theorem normalFields_eq (kvs : List (String × Json)) :
    normalFields kvs = kvs.map fun kv => (kv.1, kv.2.normal) := by
  induction kvs with
  | nil => rfl
  | cons kv kvs ih => rw [normalFields, ih, List.map_cons]

theorem lookup_normalFields (kvs : List (String × Json)) (k : String) :
    (normalFields kvs).lookup k = (kvs.lookup k).map normal := by
  induction kvs with
  | nil => rfl
  | cons kv kvs ih =>
    obtain ⟨name, j⟩ := kv
    rw [normalFields, Assoc.lookup_entry, Assoc.lookup_entry, ih]
    by_cases hk : k = name <;> simp [hk]

@[simp] theorem shape_normal (j : Json) : j.normal.shape = j.shape := by
  cases j <;> simp [normal, shape, normalList_eq]

theorem child_normal (j : Json) (s : Selector) : j.normal.child s = (j.child s).map normal := by
  cases j with
  | arr xs =>
    cases s with
    | key k => rfl
    | index i => simp [normal, child, normalList_eq]
  | obj kvs =>
    cases s with
    | key k => simp only [normal, child, Assoc.lookup_sort, lookup_normalFields]
    | index i => rfl
  | _ => rfl

theorem shapeAt_normal (path : List Selector) (j : Json) :
    j.normal.shapeAt path = j.shapeAt path := by
  induction path generalizing j with
  | nil => simp only [shapeAt, shape_normal]
  | cons s path ih =>
    simp only [shapeAt, child_normal]
    cases j.child s with
    | none => rfl
    | some c => exact ih c

theorem Same.child {a b : Json} (h : a.Same b) (s : Selector) :
    Option.Rel Same (a.child s) (b.child s) := by
  have hpath := fun path => h (s :: path)
  simp only [shapeAt] at hpath
  generalize a.child s = x at hpath
  generalize b.child s = y at hpath
  cases x with
  | none =>
    cases y with
    | none => exact .none
    | some y => exact absurd (hpath []) (by simp [shapeAt])
  | some x =>
    cases y with
    | none => exact absurd (hpath []) (by simp [shapeAt])
    | some y => exact .some hpath

theorem Same.shape_eq {a b : Json} (h : a.Same b) : a.shape = b.shape := Option.some.inj (h [])

theorem Same.eq_of_leaf {a b : Json} (h : a.Same b) (harr : ∀ n, a.shape ≠ .arr n)
    (hobj : a.shape ≠ .obj) : b = a := by
  have hshape := h.shape_eq
  rw [hshape] at harr hobj
  cases b with
  | arr xs => exact absurd rfl (harr xs.length)
  | obj kvs => exact absurd rfl hobj
  | float f =>
    cases a with
    | float g =>
      cases f
      cases g
      simp only [shape, Shape.float.injEq] at hshape
      simp only [hshape]
    | _ => cases hshape
  | _ =>
    cases a <;> cases hshape
    rfl

theorem Same.normal_eq {a b : Json} (h : a.Same b) : a.normal = b.normal := by
  induction a using Json.induction generalizing b with
  | arr xs ih =>
    have hshape := h.shape_eq
    cases b with
    | arr ys =>
      simp only [shape, Shape.arr.injEq] at hshape
      rw [normal, normal, normalList_eq, normalList_eq]
      refine congrArg _ (List.ext_getElem (by simpa using hshape) fun i hi hi' => ?_)
      have hchild := h.child (.index i)
      simp only [List.length_map] at hi hi'
      simp only [Json.child, List.getElem?_eq_getElem hi, List.getElem?_eq_getElem hi'] at hchild
      cases hchild with
      | some hsame => simpa using ih _ (List.getElem_mem hi) hsame
    | _ => cases hshape
  | obj kvs ih =>
    have hshape := h.shape_eq
    cases b with
    | obj kvs' =>
      rw [normal, normal]
      refine congrArg _ (Assoc.eq_of_lookup (Assoc.sorted_sort _) (Assoc.sorted_sort _) fun k => ?_)
      rw [Assoc.lookup_sort, Assoc.lookup_sort, lookup_normalFields, lookup_normalFields]
      have hchild := h.child (.key k)
      simp only [Json.child] at hchild
      cases hx : kvs.lookup k with
      | none =>
        rw [hx] at hchild
        cases hy : kvs'.lookup k with
        | none => rfl
        | some y => rw [hy] at hchild; cases hchild
      | some x =>
        rw [hx] at hchild
        cases hy : kvs'.lookup k with
        | none => rw [hy] at hchild; cases hchild
        | some y =>
          rw [hy] at hchild
          cases hchild with
          | some hsame =>
            obtain ⟨before, after, hkvs, _⟩ := List.lookup_eq_some_iff.mp hx
            have hmem : (k, x) ∈ kvs := by simp [hkvs]
            exact congrArg some (ih (k, x) hmem hsame)
    | _ => cases hshape
  | _ => rw [h.eq_of_leaf (by simp [shape]) (by simp [shape])]

end Json

/-- `rfc8785.dumps` of a document, of which every object keeps one entry a key. -/
def dictDumps (j : Json) : Except Exc (List UInt8) := Canonical.dumps j.normal

theorem dictDumps_congr {a b : Json} (h : a.Same b) : dictDumps a = dictDumps b := by
  rw [dictDumps, h.normal_eq, dictDumps]

theorem dictDumps_inj {a b : Json} {x : List UInt8} (ha : dictDumps a = .ok x)
    (hb : dictDumps b = .ok x) :
    a.Same b := by
  have hsame := Canonical.dumps_inj ha hb
  intro path
  rw [← Json.shapeAt_normal, hsame path, Json.shapeAt_normal]

theorem Json.safeFields_iff {kvs : List (String × Json)} :
    Json.safeFields kvs = true ↔ ∀ kv ∈ kvs, kv.2.safe = true := by
  induction kvs with
  | nil => simp [Json.safeFields]
  | cons kv kvs ih => simp [Json.safeFields, ih]

theorem Json.safeList_iff {xs : List Json} : Json.safeList xs = true ↔ ∀ x ∈ xs, x.safe = true := by
  induction xs with
  | nil => simp [Json.safeList]
  | cons x xs ih => simp [Json.safeList, ih]

theorem Json.safe_normal {j : Json} (h : j.safe = true) : j.normal.safe = true := by
  induction j using Json.induction with
  | arr xs ih =>
    rw [safe, safeList_iff] at h
    rw [normal, safe, safeList_iff, normalList_eq]
    intro y hy
    obtain ⟨x, hx, rfl⟩ := List.mem_map.mp hy
    exact ih x hx (h x hx)
  | obj kvs ih =>
    rw [safe, safeFields_iff] at h
    rw [normal, safe, safeFields_iff]
    intro kv hkv
    have hmem := Assoc.mem_of_mem_sort hkv
    rw [normalFields_eq, List.mem_map] at hmem
    obtain ⟨kv', hkv', rfl⟩ := hmem
    exact ih kv' hkv' (h kv' hkv')
  | _ => exact h

theorem dictDumps_safe {j : Json} (h : j.safe = true) : ∃ data, dictDumps j = .ok data :=
  ⟨_, Canonical.dumps_safe (Json.safe_normal h)⟩

end Federlet
