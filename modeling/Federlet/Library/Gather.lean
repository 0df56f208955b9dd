import Federlet.Library.Task

/-! Tasks that run side by side until all are done. Whatever the interleaving, each of
them ends as it does alone before a background that moves as the others do. -/

namespace Coop

variable {E : Type} {R : E → Type} {S α : Type}

/-- A run of the tasks from a state: its events with the task each belongs to, the
results in the order of the tasks and the state it ends in. -/
inductive Gathers (sem : Sem E R S) (background : S → S → Prop) :
    List (Task E R α) → S → List (Nat × Event E R S) → List α → S → Prop where
  | done (as : List α) (s : S) : Gathers sem background (as.map .done) s [] as s
  | idle {ts : List (Task E R α)} {s s' s'' : S} {tr : List (Nat × Event E R S)} {as : List α}
      (hb : background s s') (h : Gathers sem background ts s' tr as s'') :
        Gathers sem background ts s tr as s''
  | call {ts : List (Task E R α)} {i : Nat} {e : E} {k : R e → Task E R α} {r : R e} {s s' s'' : S}
      {tr : List (Nat × Event E R S)} {as : List α} (hi : ts[i]? = some (.call e k))
      (hs : sem e s r s') (h : Gathers sem background (ts.set i (k r)) s' tr as s'') :
      Gathers sem background ts s ((i, ⟨s, e, r, s'⟩) :: tr) as s''

/-- What may happen to the state while a task waits. -/
def Moves (sem : Sem E R S) (background : S → S → Prop) : S → S → Prop :=
  Relation.ReflTransGen fun s s' => background s s' ∨ ∃ e r, sem e s r s'

def eventsOf (i : Nat) (tr : List (Nat × Event E R S)) : List (Event E R S) :=
  (tr.filter fun x => x.1 = i).map Prod.snd

@[simp] theorem eventsOf_nil (i : Nat) : eventsOf i ([] : List (Nat × Event E R S)) = [] := rfl

theorem eventsOf_cons_self (i : Nat) (ev : Event E R S) (tr : List (Nat × Event E R S)) :
    eventsOf i ((i, ev) :: tr) = ev :: eventsOf i tr := by simp [eventsOf]

theorem eventsOf_cons_ne {i j : Nat} (h : j ≠ i) (ev : Event E R S)
    (tr : List (Nat × Event E R S)) :
    eventsOf i ((j, ev) :: tr) = eventsOf i tr := by simp [eventsOf, h]

variable {sem : Sem E R S} {background : S → S → Prop}

theorem Task.Runs.of_moves {t : Task E R α} {s s' s'' : S} {tr : List (Event E R S)} {a : α}
    (hm : Moves sem background s s') (h : Task.Runs sem (Moves sem background) t s' tr a s'') :
    ∃ u, Task.Runs sem (Moves sem background) t s tr a u := by
  induction h with
  | done a s' => exact ⟨s, .done a s⟩
  | call hb hs hk _ => exact ⟨_, .call (hm.trans hb) hs hk⟩
  | acquire _ ih =>
    obtain ⟨u, hu⟩ := ih hm
    exact ⟨u, .acquire hu⟩
  | release _ ih =>
    obtain ⟨u, hu⟩ := ih hm
    exact ⟨u, .release hu⟩

theorem Task.Runs.bind {β : Type} {t : Task E R α} {f : α → Task E R β} {s s₁ s' : S}
    {tr tr' : List (Event E R S)} {a : α} {b : β} (h : Task.Runs sem background t s tr a s₁)
    (hf : Task.Runs sem background (f a) s₁ tr' b s') :
    Task.Runs sem background (t.bind f) s (tr ++ tr') b s' := by
  induction h with
  | done a s => exact hf
  | call hb hs _ ih => exact .call hb hs (ih hf)
  | acquire _ ih => exact .acquire (ih hf)
  | release _ ih => exact .release (ih hf)

theorem Gathers.runs {ts : List (Task E R α)} {s s' : S}
    {tr : List (Nat × Event E R S)} {as : List α} (h : Gathers sem background ts s tr as s')
    {i : Nat} {t : Task E R α} (hi : ts[i]? = some t) :
    ∃ a u, as[i]? = some a ∧ Task.Runs sem (Moves sem background) t s (eventsOf i tr) a u := by
  induction h generalizing t with
  | done as s =>
    rw [List.getElem?_map, Option.map_eq_some_iff] at hi
    obtain ⟨a, ha, rfl⟩ := hi
    exact ⟨a, s, ha, .done a s⟩
  | idle hb _ ih =>
    obtain ⟨a, u, ha, hrun⟩ := ih hi
    obtain ⟨u', hu'⟩ := hrun.of_moves (.single (.inl hb))
    exact ⟨a, u', ha, hu'⟩
  | @call ts j e k r s s' _ tr as hj hs _ ih =>
    by_cases hij : j = i
    · subst hij
      obtain rfl := Option.some.inj (hj.symm.trans hi)
      have hlt : j < ts.length := (List.getElem?_eq_some_iff.mp hj).1
      obtain ⟨a, u, ha, hrun⟩ := ih (List.getElem?_set_self hlt)
      rw [eventsOf_cons_self]
      exact ⟨a, u, ha, .call .refl hs hrun⟩
    · have hkeep : (ts.set j (k r))[i]? = some t := (List.getElem?_set_ne hij).trans hi
      obtain ⟨a, u, ha, hrun⟩ := ih hkeep
      obtain ⟨u', hu'⟩ := hrun.of_moves (.single (.inr ⟨e, r, hs⟩))
      rw [eventsOf_cons_ne hij]
      exact ⟨a, u', ha, hu'⟩

theorem Gathers.length_eq {ts : List (Task E R α)} {s s' : S}
    {tr : List (Nat × Event E R S)} {as : List α} (h : Gathers sem background ts s tr as s') :
    as.length = ts.length := by
  induction h with
  | done as s => rw [List.length_map]
  | idle _ _ ih => exact ih
  | call _ _ _ ih => rw [ih, List.length_set]

def Event.answer (ev : Event E R S) : (e : E) × R e := ⟨ev.eff, ev.resp⟩

/-- The task comes to the result when its calls are answered so, one after the other. -/
def Task.Replays : Task E R α → List ((e : E) × R e) → α → Prop
  | .done a, l, b => l = [] ∧ a = b
  | .call e k, l, b => ∃ r rest, l = ⟨e, r⟩ :: rest ∧ (k r).Replays rest b
  | .acquire k, l, b => k.Replays l b
  | .release k, l, b => k.Replays l b

theorem Task.Runs.replays {t : Task E R α} {s s' : S} {tr : List (Event E R S)} {a : α}
    (h : Task.Runs sem background t s tr a s') : t.Replays (tr.map Event.answer) a := by
  induction h with
  | done a s => exact ⟨rfl, rfl⟩
  | call _ _ _ ih => exact ⟨_, _, rfl, ih⟩
  | acquire _ ih => exact ih
  | release _ ih => exact ih

theorem Task.replays_bind {β : Type} {t : Task E R α} {f : α → Task E R β}
    {l : List ((e : E) × R e)} {b : β} (h : (t.bind f).Replays l b) :
    ∃ l₁ l₂ a, l = l₁ ++ l₂ ∧ t.Replays l₁ a ∧ (f a).Replays l₂ b := by
  induction t generalizing l with
  | done a => exact ⟨[], l, a, rfl, ⟨rfl, rfl⟩, h⟩
  | call e k ih =>
    obtain ⟨r, rest, rfl, hrest⟩ := h
    obtain ⟨l₁, l₂, a, rfl, ht, hf⟩ := ih r hrest
    exact ⟨⟨e, r⟩ :: l₁, l₂, a, rfl, ⟨r, l₁, rfl, ht⟩, hf⟩
  | acquire k ih => exact ih h
  | release k ih => exact ih h

/-- What a task of a gathering comes to is settled by the answers it was given itself. -/
theorem Gathers.replays {ts : List (Task E R α)} {s s' : S}
    {tr : List (Nat × Event E R S)} {as : List α} (h : Gathers sem background ts s tr as s')
    {i : Nat} {t : Task E R α} (hi : ts[i]? = some t) :
    ∃ a, as[i]? = some a ∧ t.Replays ((eventsOf i tr).map Event.answer) a := by
  obtain ⟨a, _, ha, hrun⟩ := h.runs hi
  exact ⟨a, ha, hrun.replays⟩

end Coop
