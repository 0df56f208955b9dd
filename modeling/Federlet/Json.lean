import Mathlib.Data.List.Forall2
import Federlet.Library.Keyed

/-! JSON documents as the Python side holds them. Integers and floats are told
apart because canonicalisation treats them differently; a float that prints as
an integer is that integer. Two documents are the same when they agree at every
path, whatever the order of their keys. -/

namespace Federlet

abbrev Dict (β : Type) := Keyed (Prod.fst : String × β → String)

def Dict.lookup {β : Type} (d : Dict β) (k : String) : Option β := (d.get k).map Prod.snd

/-- The shortest rendering of a finite float that is no integer. -/
structure FloatText where
  text : List Char
  number : text.all (fun c => c.isDigit || c == '-' || c == '+' || c == '.' || c == 'e') = true
  fraction : text.any (fun c => c == '.' || c == 'e') = true

inductive Json where
  | null
  | bool (b : Bool)
  | int (i : Int)
  | float (f : FloatText)
  | str (s : String)
  | arr (xs : List Json)
  | obj (kvs : List (String × Json))

namespace Json

/-- Induction over documents, with the values of an object reached by membership. -/
@[elab_as_elim]
theorem induction {P : Json → Prop} (null : P .null) (bool : ∀ b, P (.bool b))
    (int : ∀ i, P (.int i)) (float : ∀ f, P (.float f)) (str : ∀ s, P (.str s))
    (arr : ∀ xs, (∀ x ∈ xs, P x) → P (.arr xs)) (obj : ∀ kvs, (∀ kv ∈ kvs, P kv.2) → P (.obj kvs))
    (j : Json) : P j :=
  Json.rec (motive_1 := P) (motive_2 := fun xs => ∀ x ∈ xs, P x)
    (motive_3 := fun kvs => ∀ kv ∈ kvs, P kv.2) (motive_4 := fun kv => P kv.2) null bool int float
    str arr obj (by simp) (fun _ _ hx hxs => List.forall_mem_cons.mpr ⟨hx, hxs⟩) (by simp)
    (fun _ _ hx hxs => List.forall_mem_cons.mpr ⟨hx, hxs⟩) (fun _ _ hv => hv) j

def truthy : Json → Bool
  | .null => false
  | .bool b => b
  | .int i => i != 0
  | .float _ => true
  | .str s => s != ""
  | .arr xs => !xs.isEmpty
  | .obj kvs => !kvs.isEmpty

def isNull : Json → Bool
  | .null => true
  | _ => false

/-- The integers RFC 8785 canonicalisation accepts, up to 2^53 - 1 either way. -/
def safeInt (i : Int) : Bool := decide (-9007199254740991 ≤ i ∧ i ≤ 9007199254740991)

mutual
def safe : Json → Bool
  | .int i => safeInt i
  | .arr xs => safeList xs
  | .obj kvs => safeFields kvs
  | _ => true
def safeList : List Json → Bool
  | [] => true
  | x :: xs => x.safe && safeList xs
def safeFields : List (String × Json) → Bool
  | [] => true
  | (_, v) :: kvs => v.safe && safeFields kvs
end

inductive Shape where
  | null
  | bool (b : Bool)
  | int (i : Int)
  | float (text : List Char)
  | str (s : String)
  | arr (length : Nat)
  | obj
  deriving DecidableEq

inductive Selector where
  | key (k : String)
  | index (i : Nat)

def shape : Json → Shape
  | .null => .null
  | .bool b => .bool b
  | .int i => .int i
  | .float f => .float f.text
  | .str s => .str s
  | .arr xs => .arr xs.length
  | .obj _ => .obj

def child : Json → Selector → Option Json
  | .arr xs, .index i => xs[i]?
  | .obj kvs, .key k => kvs.lookup k
  | _, _ => none

def shapeAt (j : Json) : List Selector → Option Shape
  | [] => some j.shape
  | s :: rest => (j.child s).bind (fun c => c.shapeAt rest)

/-- The same document up to the order of keys. -/
def Same (a b : Json) : Prop := ∀ path, a.shapeAt path = b.shapeAt path

theorem Same.field {xs ys : List (String × Json)} (h : Same (.obj xs) (.obj ys)) (k : String) :
    (xs.lookup k).map shape = (ys.lookup k).map shape := by
  have hk := h [.key k]
  simp only [shapeAt, child] at hk
  cases hx : xs.lookup k <;> cases hy : ys.lookup k <;> simp_all

theorem Same.of_leaf {a b : Json} (ha : ∀ s, a.child s = none) (hb : ∀ s, b.child s = none)
    (h : a.shape = b.shape) : Same a b := by
  intro path
  cases path with
  | nil => simp only [shapeAt, h]
  | cons s path => simp only [shapeAt, ha, hb]

theorem Same.of_child {a b : Json} (h : a.shape = b.shape)
    (hc : ∀ s, Option.Rel Same (a.child s) (b.child s)) : Same a b := by
  intro path
  cases path with
  | nil => simp only [shapeAt, h]
  | cons s path =>
    have hs := hc s
    simp only [shapeAt]
    generalize a.child s = x at hs
    generalize b.child s = y at hs
    cases hs with
    | none => rfl
    | some hxy => exact hxy path

theorem Same.arr {xs ys : List Json} (h : List.Forall₂ Same xs ys) : Same (.arr xs) (.arr ys) := by
  refine .of_child (by simp only [shape, h.length_eq]) ?_
  rintro (k | i)
  · exact .none
  · simp only [child]
    induction h generalizing i with
    | nil => exact .none
    | cons hxy _ ih =>
      cases i with
      | zero => exact .some hxy
      | succ i => exact ih i

theorem Same.obj {xs ys : List (String × Json)}
    (h : ∀ k, Option.Rel Same (xs.lookup k) (ys.lookup k)) : Same (.obj xs) (.obj ys) := by
  refine .of_child rfl ?_
  rintro (k | i)
  · exact h k
  · exact .none

@[simp] theorem safeFields_append (xs ys : List (String × Json)) :
    safeFields (xs ++ ys) = (safeFields xs && safeFields ys) := by
  induction xs with
  | nil => simp [safeFields]
  | cons x xs ih => simp [safeFields, ih, Bool.and_assoc]

end Json

end Federlet
