import Federlet.Library.Gather

/-! Invariants of tasks that run side by side: what every call and the background keep
holds throughout, and what once holds for good still holds at every later call. -/

namespace Coop

variable {E : Type} {R : E → Type} {S α : Type} {sem : Sem E R S} {background : S → S → Prop}

section Runs

variable {ts : List (Task E R α)} {s s' : S} {tr : List (Nat × Event E R S)} {as : List α}

theorem mem_eventsOf {i : Nat} {ev : Event E R S} : ev ∈ eventsOf i tr ↔ (i, ev) ∈ tr := by
  simp only [eventsOf, List.mem_map, List.mem_filter, decide_eq_true_eq]
  constructor
  · rintro ⟨⟨j, ev⟩, ⟨hx, rfl⟩, rfl⟩
    exact hx
  · intro h
    exact ⟨(i, ev), ⟨h, rfl⟩, rfl⟩

theorem Gathers.exists_task (h : Gathers sem background ts s tr as s') :
    ∀ x ∈ tr, ∃ t, ts[x.1]? = some t := by
  induction h with
  | done as s => simp
  | idle _ _ ih => exact ih
  | @call ts i e k r s s' _ tr as hi _ _ ih =>
    refine List.forall_mem_cons.mpr ⟨⟨_, hi⟩, fun x hx => ?_⟩
    obtain ⟨t, ht⟩ := ih x hx
    have hlt := (List.getElem?_eq_some_iff.mp ht).1
    rw [List.length_set] at hlt
    exact ⟨_, List.getElem?_eq_getElem hlt⟩

theorem Gathers.sem_of_mem (h : Gathers sem background ts s tr as s') :
    ∀ x ∈ tr, sem x.2.eff x.2.pre x.2.resp x.2.post := by
  induction h with
  | done as s => simp
  | idle _ _ ih => exact ih
  | call _ hs _ ih => exact List.forall_mem_cons.mpr ⟨hs, ih⟩

/-- Trees composed of certain calls make no others, whatever they run beside. -/
theorem Gathers.calls (h : Gathers sem background ts s tr as s') (calls : Task E R α → E → Prop)
    (ht : ∀ t ∈ ts, ∃ Q, t.Composed (calls t) (fun _ _ => True) (fun _ _ => False) Q) :
    ∀ x ∈ tr, ∃ t ∈ ts, calls t x.2.eff := by
  rintro ⟨i, ev⟩ hx
  obtain ⟨t, hi⟩ := h.exists_task _ hx
  have hmem := List.mem_of_getElem? hi
  obtain ⟨Q, hcomposed⟩ := ht t hmem
  obtain ⟨a, u, _, hrun⟩ := h.runs hi
  have hafter : t.after sem (Moves sem background) (fun ev => calls t ev.eff) s
      fun a _ => Q a ∧ True :=
    hcomposed.after (I := fun _ => True) (fun _ _ _ _ => trivial)
      (fun _ _ _ _ hc _ _ => ⟨trivial, hc, trivial⟩) (fun _ _ _ hs _ => hs.elim) trivial
  exact ⟨t, hmem, (hrun.of_after hafter).2 ev (mem_eventsOf.mpr hx)⟩

theorem Gathers.invariant (h : Gathers sem background ts s tr as s') {I : S → Prop}
    (hback : ∀ s s', I s → background s s' → I s')
    (hcall : ∀ x ∈ tr, sem x.2.eff x.2.pre x.2.resp x.2.post → I x.2.pre → I x.2.post) (hs : I s) :
    I s' ∧ ∀ x ∈ tr, I x.2.pre := by
  induction h with
  | done as s => exact ⟨hs, by simp⟩
  | idle hb _ ih => exact ih hcall (hback _ _ hs hb)
  | call _ hsem _ ih =>
    obtain ⟨hhead, htail⟩ := List.forall_mem_cons.mp hcall
    obtain ⟨hend, hpre⟩ := ih htail (hhead hsem hs)
    exact ⟨hend, List.forall_mem_cons.mpr ⟨hs, hpre⟩⟩

/-- What holds after a call and is never undone holds before every later one. -/
theorem Gathers.since (h : Gathers sem background ts s tr as s') {I : S → Prop}
    (hback : ∀ s s', I s → background s s' → I s') (hcall : ∀ e s r s', I s → sem e s r s' → I s')
    {before later : List (Nat × Event E R S)} {x : Nat × Event E R S}
    (htr : tr = before ++ x :: later) (hx : I x.2.post) : ∀ y ∈ later, I y.2.pre := by
  induction h generalizing before with
  | done as s => simp at htr
  | idle _ _ ih => exact ih htr
  | call _ _ hrest ih =>
    cases before with
    | nil =>
      obtain ⟨rfl, rfl⟩ := List.cons.inj htr
      exact (hrest.invariant hback (fun y _ hsem hy => hcall _ _ _ _ hy hsem) hx).2
    | cons y before => exact ih (List.cons.inj htr).2

end Runs

def Before (i j : Nat) (tr : List (Nat × Event E R S)) : Prop :=
  ∃ front back, tr = front ++ back ∧ (∀ x ∈ front, x.1 ≠ j) ∧ ∀ x ∈ back, x.1 ≠ i

theorem Before.split {i j : Nat} {tr : List (Nat × Event E R S)} (h : Before i j tr)
    {ev ev' : Event E R S} (hi : ev ∈ eventsOf i tr) (hj : ev' ∈ eventsOf j tr) :
    ∃ before later, tr = before ++ (i, ev) :: later ∧ (j, ev') ∈ later := by
  obtain ⟨front, back, rfl, hfront, hback⟩ := h
  rw [mem_eventsOf, List.mem_append] at hi hj
  have hi' : (i, ev) ∈ front := hi.resolve_right fun h => hback _ h rfl
  have hj' : (j, ev') ∈ back := hj.resolve_left fun h => hfront _ h rfl
  obtain ⟨before, rest, rfl⟩ := List.append_of_mem hi'
  exact ⟨before, rest ++ back, by simp, List.mem_append_right _ hj'⟩

section Turns

variable {handle : (e : E) → S → R e × S} (hsem : ∀ e s, sem e s (handle e s).1 (handle e s).2)

include hsem

theorem Gathers.first (ts : List (Task E R α)) (i : Nat) {t : Task E R α} {calls : E → Prop}
    {Q : α → Prop} (ht : t.Composed calls (fun _ _ => True) (fun _ _ => False) Q)
    (hi : ts[i]? = some t) {s s' : S} {tr : List (Nat × Event E R S)} {as : List α}
    (h : Gathers sem background (ts.set i (.done (t.eval handle s).1))
      (t.eval handle s).2 tr as s') :
    Gathers sem background ts s ((t.trace handle s).map (fun ev => (i, ev)) ++ tr) as s' := by
  induction ht generalizing ts s with
  | @done a _ =>
    have hsame : ts.set i (.done a) = ts := by
      rw [List.getElem?_eq_some_iff] at hi
      obtain ⟨hlt, ht⟩ := hi
      rw [← ht, List.set_getElem_self]
    rw [Task.eval_done, hsame] at h
    exact h
  | @call e k _ _ ih =>
    have hlt := (List.getElem?_eq_some_iff.mp hi).1
    refine .call hi (hsem e s) (ih _ trivial _ (List.getElem?_set_self hlt) ?_)
    rw [List.set_set]
    exact h
  | sect hs _ _ => exact hs.elim

theorem Gathers.serial {calls : E → Prop} (ts : List (Task E R α))
    (hts : ∀ t ∈ ts, ∃ Q, t.Composed calls (fun _ _ => True) (fun _ _ => False) Q) (s : S) :
    ∃ tr as s', Gathers sem background ts s tr as s' := by
  suffices hfrom : ∀ (ended : List α) (s : S), ∃ tr as s', Gathers sem background
    (ended.map .done ++ ts) s tr as s' from hfrom [] s
  -- the tasks before `ts` have ended
  induction ts with
  | nil =>
    intro ended s
    exact ⟨[], ended, s, by simpa using Gathers.done ended s⟩
  | cons t ts ih =>
    intro ended s
    obtain ⟨⟨Q, ht⟩, hrest⟩ := List.forall_mem_cons.mp hts
    obtain ⟨tr, as, s', hrun⟩ := ih hrest (ended ++ [(t.eval handle s).1]) (t.eval handle s).2
    have hi : (ended.map Task.done ++ t :: ts)[ended.length]? = some t := by simp
    have hnext : Gathers sem background
        ((ended.map Task.done ++ t :: ts).set ended.length (.done (t.eval handle s).1))
        (t.eval handle s).2 tr as s' := by
      simpa [List.set_append] using hrun
    exact ⟨_, as, s', Gathers.first hsem _ ended.length ht hi hnext⟩

theorem Gathers.ask {ts : List (Task E R α)} {i : Nat} {e : E} {k : R e → Task E R α}
    (hi : ts[i]? = some (.call e k)) {r : R e} {s s' : S} (hr : (handle e s).1 = r)
    {tr : List (Nat × Event E R S)} {as : List α}
    (h : Gathers sem background (ts.set i (k r)) (handle e s).2 tr as s') :
    ∃ tr', Gathers sem background ts s tr' as s' := by
  subst hr
  exact ⟨_, .call hi (hsem e s) h⟩

variable {rel : S → S → Prop}
  (hsame : ∀ e u v, rel u v → (handle e v).1 = (handle e u).1 ∧ rel (handle e u).2 (handle e v).2)
  (hagain : ∀ e u v, rel (handle e u).2 v → (handle e v).1 = (handle e u).1 ∧
    rel (handle e u).2 (handle e v).2)

include hsame hagain

/-- Copies of a task that ask in turn are answered as one of them alone, if asking again
changes nothing. -/
theorem Gathers.lockstep {t : Task E R α} {calls : E → Prop} {Q : α → Prop}
    (ht : t.Composed calls (fun _ _ => True) (fun _ _ => False) Q) (n : Nat) {u v : S}
    (huv : rel u v) :
    ∃ tr v', Gathers sem background (List.replicate (n + 1) t) v tr
      (List.replicate (n + 1) (t.eval handle u).1) v' := by
  induction ht generalizing u v with
  | @done a _ => exact ⟨[], v, by simpa using Gathers.done (List.replicate (n + 1) a) v⟩
  | @call e k _ _ ih =>
    let r := (handle e u).1
    let result := ((k r).eval handle (handle e u).2).1
    -- the first `m` copies have been answered, the other `l` still ask
    have hrest (l : Nat) : ∀ m v, m + l = n + 1 → rel (handle e u).2 v →
        ∃ tr v', Gathers sem background
        (List.replicate m (k r) ++ List.replicate l (.call e k)) v tr
        (List.replicate (n + 1) result) v' := by
      induction l with
      | zero =>
        intro m v hm hv
        obtain rfl : m = n + 1 := by simpa using hm
        simpa using ih r trivial hv
      | succ l ihl =>
        intro m v hm hv
        obtain ⟨hanswer, hnext⟩ := hagain e u v hv
        obtain ⟨tr, v', hrun⟩ := ihl (m + 1) _ (by omega) hnext
        rw [List.replicate_succ', List.append_assoc] at hrun
        have hturn : (List.replicate m (k r) ++ List.replicate (l + 1) (.call e k))[m]? =
            some (.call e k) := by
          simp [List.replicate_succ]
        obtain ⟨tr', hrun'⟩ := Gathers.ask hsem hturn hanswer
          (by simpa [List.replicate_succ] using hrun)
        exact ⟨tr', v', hrun'⟩
    obtain ⟨hanswer, hnext⟩ := hsame e u v huv
    obtain ⟨tr, v', hrun⟩ := hrest n 1 _ (by omega) hnext
    have hturn : (List.replicate (n + 1) (Task.call e k))[0]? = some (.call e k) := rfl
    obtain ⟨tr', hrun'⟩ := Gathers.ask hsem hturn hanswer hrun
    exact ⟨tr', v', hrun'⟩
  | sect hs _ _ => exact hs.elim

end Turns

theorem Task.Composed.of_call {e : E} {k : R e → Task E R α} {calls : E → Prop} {Q : α → Prop}
    (h : (Task.call e k).Composed calls (fun _ _ => True) (fun _ _ => False) Q) :
    calls e ∧ ∀ r, (k r).Composed calls (fun _ _ => True) (fun _ _ => False) Q := by
  generalize ht : Task.call e k = t at h
  cases h with
  | done _ => cases ht
  | call hc hk =>
    cases ht
    exact ⟨hc, fun r => hk r trivial⟩
  | sect hs _ => exact hs.elim

section Steady

variable {handle : (e : E) → S → R e × S} {rel : S → S → Prop} {calls : E → Prop}
  (hsteady : ∀ e u v, calls e → rel u v →
    (handle e v).1 = (handle e u).1 ∧ (handle e u).2 = u ∧ rel u (handle e v).2)

include hsteady

/-- Tasks that ask only for what does not change meanwhile end as each does alone. -/
theorem Gathers.steady {ts : List (Task E R α)} {u s s' : S}
    {tr : List (Nat × Event E R S)} {as : List α}
    (h : Gathers (fun e s r s' => (r, s') = handle e s) background ts s tr as s')
    (hts : ∀ t ∈ ts, ∃ Q, t.Composed calls (fun _ _ => True) (fun _ _ => False) Q)
    (hback : ∀ v v', rel u v → background v v' → rel u v') (hs : rel u s) :
    rel u s' ∧ as = ts.map fun t => (t.eval handle u).1 := by
  induction h with
  | done as s =>
    have heval : as.map (fun a => ((Task.done a : Task E R α).eval handle u).1) = as := by simp
    exact ⟨hs, by rw [List.map_map]; exact heval.symm⟩
  | idle hb _ ih => exact ih hts (hback _ _ hs hb)
  | @call ts i e k r s s' _ tr as hi hsem _ ih =>
    obtain ⟨hr, hs'⟩ := Prod.mk.inj hsem
    obtain ⟨Q, hcall⟩ := hts _ (List.mem_of_getElem? hi)
    obtain ⟨hcalls, hk⟩ := hcall.of_call
    obtain ⟨hanswer, hsame, hrel⟩ := hsteady e u s hcalls hs
    have hnext : ∀ t ∈ ts.set i (k r), ∃ Q, t.Composed calls (fun _ _ => True)
        (fun _ _ => False) Q := by
      intro t ht
      rcases List.mem_or_eq_of_mem_set ht with hmem | rfl
      · exact hts t hmem
      · exact ⟨Q, hk r⟩
    obtain ⟨hend, hresults⟩ := ih hnext (hs' ▸ hrel)
    refine ⟨hend, hresults.trans ?_⟩
    have heval : ((k r).eval handle u).1 = ((Task.call e k).eval handle u).1 := by
      rw [Task.eval_call, hsame, hr, hanswer]
    rw [List.map_set, heval]
    apply List.ext_getElem?
    intro j
    by_cases hij : i = j
    · subst hij
      have hlt := (List.getElem?_eq_some_iff.mp hi).1
      rw [List.getElem?_set_self (by simpa using hlt), List.getElem?_map, hi]
      rfl
    · rw [List.getElem?_set_ne hij]

end Steady

end Coop
