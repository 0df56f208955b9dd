import Mathlib.Order.Lattice

/-! A ledger of exclusive claims that lapse. A claim of a key is granted exactly
when every earlier claim of that key has lapsed; claims are never withdrawn, so
the ledger keeps the whole history of grants, newest first. -/

structure Claim (κ τ : Type) where
  key : κ
  claimedAt : τ
  lapses : τ

namespace Ledger

variable {κ τ : Type} [DecidableEq κ] [LinearOrder τ]

def granted (l : List (Claim κ τ)) (key : κ) (now : τ) : Bool :=
  l.all (fun c => !decide (c.key = key) || decide (c.lapses ≤ now))

def claim (l : List (Claim κ τ)) (c : Claim κ τ) : Bool × List (Claim κ τ) :=
  if granted l c.key c.claimedAt then (true, c :: l) else (false, l)

theorem granted_iff {l : List (Claim κ τ)} {key : κ} {now : τ} :
    granted l key now = true ↔ ∀ c ∈ l, c.key = key → c.lapses ≤ now := by
  simp only [granted, List.all_eq_true, Bool.or_eq_true, Bool.not_eq_true', decide_eq_false_iff_not,
    decide_eq_true_eq, Decidable.imp_iff_not_or]

theorem claim_granted {l : List (Claim κ τ)} {c : Claim κ τ}
    (h : granted l c.key c.claimedAt = true) :
    claim l c = (true, c :: l) := by simp [claim, h]

theorem claim_refused {l : List (Claim κ τ)} {c : Claim κ τ}
    (h : granted l c.key c.claimedAt = false) :
    claim l c = (false, l) := by simp [claim, h]

theorem refused_of_live {l : List (Claim κ τ)} {c : Claim κ τ} {now : τ} (hc : c ∈ l)
    (hlive : now < c.lapses) : granted l c.key now = false := by
  apply Bool.eq_false_iff.mpr
  intro hg
  exact absurd (granted_iff.mp hg c hc rfl) (not_le.mpr hlive)

end Ledger
