import Federlet.Library.Task

/-! Tasks interleaved at their calls. One lock serialises the sections between
its acquisition and release and nothing else: a task outside the lock may move
the shared state while another task holds it. `Discipline` states what such a
step may do (`rely`), what holds whenever the lock is free (`inv`) and what every
call keeps (`guar`); a task checked against it once, as a tree, keeps all three
under every interleaving. -/

namespace Coop

section Along

variable {W A : Type}

/-- Every transition of the history that starts in `w` satisfies `P`. -/
def Along (P : W → A → W → Prop) : W → List (A × W) → Prop
  | _, [] => True
  | w, (a, w') :: rest => P w a w' ∧ Along P w' rest

instance Along.decidable {P : W → A → W → Prop} [∀ w a w', Decidable (P w a w')] :
    (w : W) → (l : List (A × W)) → Decidable (Along P w l)
  | _, [] => .isTrue trivial
  | w, (a, w') :: rest =>
    have := Along.decidable (P := P) w' rest
    inferInstanceAs (Decidable (P w a w' ∧ Along P w' rest))

theorem Along.mono {P Q : W → A → W → Prop} (hPQ : ∀ w a w', P w a w' → Q w a w') {w : W}
    {l : List (A × W)} (h : Along P w l) : Along Q w l := by
  induction l generalizing w with
  | nil => trivial
  | cons x l ih => exact ⟨hPQ _ _ _ h.1, ih h.2⟩

theorem Along.and {P Q : W → A → W → Prop} {w : W} {l : List (A × W)}
    (hp : Along P w l) (hq : Along Q w l) : Along (fun w a w' => P w a w' ∧ Q w a w') w l := by
  induction l generalizing w with
  | nil => trivial
  | cons x l ih => exact ⟨⟨hp.1, hq.1⟩, ih hp.2 hq.2⟩

/-- An invariant kept by every transition holds at every transition's start, so
what follows from it there follows all along the history. -/
theorem Along.of_inv {P Q : W → A → W → Prop} {I : W → Prop}
    (hstep : ∀ w a w', I w → P w a w' → I w' ∧ Q w a w') {w : W} {l : List (A × W)}
    (hi : I w) (h : Along P w l) : Along Q w l := by
  induction l generalizing w with
  | nil => trivial
  | cons x l ih =>
    have hs := hstep _ _ _ hi h.1
    exact ⟨hs.2, ih hs.1 h.2⟩

theorem Along.forall_inv {P : W → A → W → Prop} {I : W → Prop}
    (hstep : ∀ w a w', I w → P w a w' → I w') {w : W} {l : List (A × W)}
    (hi : I w) (h : Along P w l) : ∀ x ∈ l, I x.2 := by
  induction l generalizing w with
  | nil => simp
  | cons x l ih =>
    have hs := hstep _ _ _ hi h.1
    exact List.forall_mem_cons.mpr ⟨hs, ih hs h.2⟩

/-- Two properties of transitions that agree wherever the invariant holds agree
along the history, also when the invariant is kept only as long as they hold. -/
theorem Along.iff_of_inv {P Q Q' : W → A → W → Prop} {I : W → Prop}
    (hstep : ∀ w a w', I w → P w a w' → (Q w a w' ↔ Q' w a w') ∧ (Q w a w' → I w')) {w : W}
    {l : List (A × W)} (hi : I w) (h : Along P w l) : Along Q w l ↔ Along Q' w l := by
  induction l generalizing w with
  | nil => exact Iff.rfl
  | cons x l ih =>
    have hs := hstep _ _ _ hi h.1
    constructor
    · intro hq
      exact ⟨hs.1.mp hq.1, (ih (hs.2 hq.1) h.2).mp hq.2⟩
    · intro hq
      have hhead := hs.1.mpr hq.1
      exact ⟨hhead, (ih (hs.2 hhead) h.2).mpr hq.2⟩

end Along

structure Pool (E : Type) (R : E → Type) (α S : Type) where
  shared : S
  holder : Option Nat
  tasks : Nat → Option (Task E R α)

inductive Act (E : Type) (R : E → Type) where
  | spawn (i : Nat)
  | call (i : Nat) (e : E) (r : R e)
  | acquire (i : Nat)
  | release (i : Nat)
  | background

variable {E : Type} {R : E → Type} {α S : Type}

namespace Pool

def setTask (p : Pool E R α S) (i : Nat) (t : Task E R α) : Nat → Option (Task E R α) :=
  Function.update p.tasks i (some t)

@[simp] theorem setTask_self (p : Pool E R α S) (i : Nat) (t : Task E R α) :
    p.setTask i t i = some t := by simp [setTask]

theorem setTask_ne (p : Pool E R α S) {i j : Nat} (t : Task E R α) (h : j ≠ i) :
    p.setTask i t j = p.tasks j := by simp [setTask, h]

def start (s : S) : Pool E R α S := ⟨s, none, fun _ => none⟩

inductive Step (sem : Sem E R S) (background : S → S → Prop) (ops : Task E R α → Prop) :
    Pool E R α S → Act E R → Pool E R α S → Prop where
  | spawn {p : Pool E R α S} {i : Nat} {t : Task E R α} (hi : p.tasks i = none) (ht : ops t) :
      Step sem background ops p (.spawn i) { p with tasks := p.setTask i t }
  | call {p : Pool E R α S} {i : Nat} {e : E} {k : R e → Task E R α} {r : R e} {s' : S}
      (hi : p.tasks i = some (.call e k)) (hs : sem e p.shared r s') :
      Step sem background ops p (.call i e r) { p with shared := s', tasks := p.setTask i (k r) }
  | acquire {p : Pool E R α S} {i : Nat} {k : Task E R α}
      (hi : p.tasks i = some (.acquire k)) (hf : p.holder = none) :
      Step sem background ops p (.acquire i) { p with holder := some i, tasks := p.setTask i k }
  | release {p : Pool E R α S} {i : Nat} {k : Task E R α}
      (hi : p.tasks i = some (.release k)) (hh : p.holder = some i) :
      Step sem background ops p (.release i) { p with holder := none, tasks := p.setTask i k }
  | background {p : Pool E R α S} {s' : S} (hb : background p.shared s') :
      Step sem background ops p .background { p with shared := s' }

theorem setTask_setTask (p : Pool E R α S) (i : Nat) (s : S) (h : Option Nat) (t u : Task E R α) :
    setTask ⟨s, h, p.setTask i t⟩ i u = p.setTask i u := by
  simp [setTask]

theorem Step.resume {sem : Sem E R S} {background : S → S → Prop} {ops : Task E R α → Prop}
    {p : Pool E R α S} {i : Nat} {t : Task E R α} {e : E} {k : R e → Task E R α} {r : R e} {s' : S}
    (ht : t = .call e k) (hs : sem e p.shared r s') :
    Step sem background ops { p with tasks := p.setTask i t } (.call i e r)
      { p with shared := s', tasks := p.setTask i (k r) } := by
  subst ht
  have hi : ({ p with tasks := p.setTask i (.call e k) } : Pool E R α S).tasks i =
    some (.call e k) :=
    p.setTask_self i _
  have hstep := @Step.call _ _ _ _ sem background ops _ i e k r s' hi hs
  rwa [setTask_setTask] at hstep

theorem Step.mono_sem {sem sem' : Sem E R S} {background : S → S → Prop} {ops : Task E R α → Prop}
    {p p' : Pool E R α S} {a : Act E R} (h : Step sem background ops p a p')
    (hsem : ∀ i e r, a = .call i e r → sem e p.shared r p'.shared → sem' e p.shared r p'.shared) :
    Step sem' background ops p a p' := by
  cases h with
  | spawn hi ht => exact .spawn hi ht
  | @call i e k r s' hi hs => exact .call hi (hsem i e r rfl hs)
  | acquire hi hf => exact .acquire hi hf
  | release hi hh => exact .release hi hh
  | background hb => exact .background hb

end Pool

/-- What steps outside the lock may do (`rely`), what holds whenever the lock is
free (`inv`) and what every call keeps (`guar`). -/
structure Discipline (E : Type) (R : E → Type) (S : Type) where
  sem : Sem E R S
  inv : S → Prop
  rely : S → S → Prop
  guar : Sem E R S
  rely_refl : ∀ s, rely s s
  rely_trans : ∀ {s t u}, rely s t → rely t u → rely s u

namespace Discipline

variable (d : Discipline E R S) {β : Type}

/-- What a call made without the lock must respect. -/
def Open (s s' : S) : Prop := d.rely s s' ∧ (d.inv s → d.inv s')

/-- The weakest precondition of a tree. The mode is `none` outside the lock and
`some s` inside it, where `s` is the state as the task itself left it: what the
task finds at its next call is reached from `s` by `rely`. -/
def wp : Task E R α → Option S → (α → Option S → Prop) → Prop
  | .done a, m, Q => Q a m
  | .call e k, none, Q => ∀ s r s', d.sem e s r s' →
      d.Open s s' ∧ d.guar e s r s' ∧ wp (k r) none Q
  | .call e k, some s, Q => ∀ s₁, d.rely s s₁ → ∀ r s₂, d.sem e s₁ r s₂ →
      d.guar e s₁ r s₂ ∧ wp (k r) (some s₂) Q
  | .acquire k, none, Q => ∀ s, d.inv s → wp k (some s) Q
  | .acquire _, some _, _ => True
  | .release _, none, _ => False
  | .release k, some s, Q => (∀ s₁, d.rely s s₁ → d.inv s₁) ∧ wp k none Q

def finished : α → Option S → Prop := fun _ m => m = none

/-- A task that starts and ends outside the lock and respects the discipline. -/
def Safe (t : Task E R α) : Prop := d.wp t none finished

variable {d}

@[simp] theorem wp_done (a : α) (m : Option S) (Q : α → Option S → Prop) :
    d.wp (.done a : Task E R α) m Q = Q a m := rfl

theorem wp_mono {t : Task E R α} {m : Option S} {P Q : α → Option S → Prop}
    (hPQ : ∀ a m, P a m → Q a m) (h : d.wp t m P) : d.wp t m Q := by
  induction t generalizing m with
  | done a => exact hPQ a m h
  | call e k ih =>
    cases m with
    | none => exact fun s r s' hs => ⟨(h s r s' hs).1, (h s r s' hs).2.1, ih r (h s r s' hs).2.2⟩
    | some s => exact fun s₁ hr r s₂ hs => ⟨(h s₁ hr r s₂ hs).1, ih r (h s₁ hr r s₂ hs).2⟩
  | acquire k ih =>
    cases m with
    | none => exact fun s hi => ih (h s hi)
    | some s => trivial
  | release k ih =>
    cases m with
    | none => exact h
    | some s => exact ⟨h.1, ih h.2⟩

theorem wp_bind {t : Task E R α} {f : α → Task E R β} {m : Option S} {Q : β → Option S → Prop} :
    d.wp (t.bind f) m Q ↔ d.wp t m (fun a m' => d.wp (f a) m' Q) := by
  induction t generalizing m with
  | done a => exact Iff.rfl
  | call e k ih => cases m <;> simp only [Task.call_bind, wp, ih]
  | acquire k ih => cases m <;> simp only [Task.acquire_bind, wp, ih]
  | release k ih => cases m <;> simp only [Task.release_bind, wp, ih]

/-- A triple for a tree inside the lock: entered where `K` holds, it ends in a
result and a state that satisfy `Q`, whatever moves outside the lock meanwhile. -/
def Within (d : Discipline E R S) (K : S → Prop) (Q : α → S → Prop) (t : Task E R α) : Prop :=
  ∀ s, K s → d.wp t (some s) (fun a m => ∃ s', m = some s' ∧ Q a s')

section Within

variable {K K' : S → Prop} {Q Q' : α → S → Prop}

theorem Within.done {a : α} (h : ∀ s, K s → Q a s) : d.Within K Q (.done a : Task E R α) :=
  fun s hs => ⟨s, rfl, h s hs⟩

theorem Within.call {e : E} {k : R e → Task E R α} {M : R e → S → Prop}
    (h : ∀ s s₁ r s₂, K s → d.rely s s₁ → d.sem e s₁ r s₂ → d.guar e s₁ r s₂ ∧ M r s₂)
    (hk : ∀ r, d.Within (M r) Q (k r)) : d.Within K Q (.call e k) := by
  intro s hs s₁ hr r s₂ hsem
  obtain ⟨hg, hm⟩ := h s s₁ r s₂ hs hr hsem
  exact ⟨hg, hk r s₂ hm⟩

theorem Within.mono {t : Task E R α} (h : d.Within K Q t) (hK : ∀ s, K' s → K s)
    (hQ : ∀ a s, Q a s → Q' a s) : d.Within K' Q' t := by
  intro s hs
  refine wp_mono ?_ (h s (hK s hs))
  rintro a _ ⟨s', rfl, hq⟩
  exact ⟨s', rfl, hQ a s' hq⟩

theorem Within.bind {t : Task E R α} {f : α → Task E R β} {Q' : β → S → Prop} (ht : d.Within K Q t)
    (hf : ∀ a, d.Within (Q a) Q' (f a)) : d.Within K Q' (t.bind f) := by
  intro s hs
  refine wp_bind.mpr (wp_mono ?_ (ht s hs))
  rintro a _ ⟨s', rfl, hq⟩
  exact hf a s' hq

theorem Within.run_bind {X : Type} {t : Task.Raising X E R α} {f : α → Task.Raising X E R β}
    {M : Except X α → S → Prop} {N : Except X β → S → Prop} (ht : d.Within K M t.run)
    (hok : ∀ a, d.Within (M (.ok a)) N (f a).run)
    (herror : ∀ x s, M (.error x) s → N (.error x) s) :
    d.Within K N (t >>= f).run := by
  rw [Task.run_bind]
  refine ht.bind ?_
  rintro (x | a)
  · exact .done (herror x)
  · exact hok a

theorem Within.call_run_bind {X γ : Type} {e : E} {g : R e → γ} {f : γ → Task.Raising X E R β}
    {M : R e → S → Prop} {N : Except X β → S → Prop}
    (h : ∀ s s₁ r s₂, K s → d.rely s s₁ → d.sem e s₁ r s₂ → d.guar e s₁ r s₂ ∧ M r s₂)
    (hf : ∀ r, d.Within (M r) N (f (g r)).run) :
    d.Within K N ((ExceptT.mk (.call e fun r => .done (.ok (g r))) : Task.Raising X E R γ) >>=
      f).run := by
  rw [Task.run_bind]
  exact .call h hf

theorem Within.of_composed {calls : E → Prop} {answers : (e : E) → R e → Prop}
    {sections : (γ : Type) → Task E R γ → Prop} (hrely : ∀ s s', K s → d.rely s s' → K s')
    (hcall : ∀ e s r s', calls e → K s → d.sem e s r s' → answers e r ∧ d.guar e s r s' ∧ K s')
    (hsect : ∀ γ t, sections γ t → d.Within K (fun _ => K) t) {P : α → Prop} {t : Task E R α}
    (ht : t.Composed calls answers sections P) : d.Within K (fun a s => P a ∧ K s) t := by
  induction ht with
  | done ha => exact .done fun s hs => ⟨ha, hs⟩
  | call hc _ ih =>
    refine Within.call (M := fun r s => answers _ r ∧ K s) ?_ ?_
    · intro s s₁ r s₂ hs hr hsem
      obtain ⟨ha, hg, hk⟩ := hcall _ s₁ r s₂ hc (hrely s s₁ hs hr) hsem
      exact ⟨hg, ha, hk⟩
    · exact fun r s hs => ih r hs.1 s hs.2
  | sect ht _ ih => exact (hsect _ _ ht).bind ih

/-- A critical section: entered in a state that satisfies the invariant, left
in one from which every step outside keeps it. -/
theorem safe_withLock {t : Task E R α} (h : d.Within d.inv Q t)
    (hQ : ∀ a s s₁, Q a s → d.rely s s₁ → d.inv s₁) : d.Safe t.withLock := by
  intro s hs
  rw [wp_bind]
  refine wp_mono ?_ (h s hs)
  rintro a _ ⟨s', rfl, hq⟩
  exact ⟨fun s₁ hr => hQ a s' s₁ hq hr, rfl⟩

end Within

theorem safe_of_composed {calls : E → Prop} {answers : (e : E) → R e → Prop}
    {sections : (γ : Type) → Task E R γ → Prop}
    (hcall : ∀ e s r s', calls e → d.sem e s r s' → answers e r ∧ d.Open s s' ∧ d.guar e s r s')
    (hsect : ∀ γ t, sections γ t → d.Safe t) {Q : α → Prop} {t : Task E R α}
    (ht : t.Composed calls answers sections Q) : d.wp t none (fun a m => Q a ∧ m = none) := by
  induction ht with
  | done ha => exact ⟨ha, rfl⟩
  | call hc _ ih =>
    intro s r s' hs
    obtain ⟨ha, ho, hg⟩ := hcall _ s r s' hc hs
    exact ⟨ho, hg, ih r ha⟩
  | sect ht _ ih =>
    refine wp_bind.mpr (wp_mono ?_ (hsect _ _ ht))
    rintro c _ rfl
    exact ih c

/-- The invariant of a pool whose tasks respect the discipline. -/
structure Guarded (d : Discipline E R S) (p : Pool E R α S) : Prop where
  free : p.holder = none → d.inv p.shared
  idle : ∀ i t, p.tasks i = some t → p.holder ≠ some i → d.Safe t
  held : ∀ i, p.holder = some i →
    ∃ t s, p.tasks i = some t ∧ d.rely s p.shared ∧ d.wp t (some s) finished

theorem Guarded.start {s : S} (hs : d.inv s) : Guarded d (Pool.start s : Pool E R α S) where
  free _ := hs
  idle _ _ h := by cases h
  held _ h := by cases h

theorem Guarded.spawn {p : Pool E R α S} (hg : Guarded d p) {i : Nat} {t : Task E R α}
    (hi : p.tasks i = none) (ht : d.Safe t) : Guarded d { p with tasks := p.setTask i t } where
  free := hg.free
  idle j u hj hne := by
    by_cases he : j = i
    · subst he
      simp only [Pool.setTask_self, Option.some.injEq] at hj
      exact hj ▸ ht
    · exact hg.idle j u (by simpa [Pool.setTask_ne _ _ he] using hj) hne
  held j hj := by
    obtain ⟨u, s, hu, hr, hw⟩ := hg.held j hj
    have he : j ≠ i := by
      rintro rfl
      simp [hi] at hu
    exact ⟨u, s, by simpa [Pool.setTask_ne _ _ he] using hu, hr, hw⟩

theorem Guarded.call {p : Pool E R α S} (hg : Guarded d p) {i : Nat} {e : E}
    {k : R e → Task E R α} {r : R e} {s' : S} (hi : p.tasks i = some (.call e k))
    (hs : d.sem e p.shared r s') :
    Guarded d { p with shared := s', tasks := p.setTask i (k r) } ∧ d.guar e p.shared r s' := by
  by_cases hh : p.holder = some i
  · obtain ⟨t, s, ht, hr, hw⟩ := hg.held i hh
    obtain rfl : Task.call e k = t := by simpa [hi] using ht
    have hc := hw p.shared hr r s' hs
    refine ⟨⟨fun hn => by simp [hh] at hn, ?_, ?_⟩, hc.1⟩
    · intro j u hj hne
      have he : j ≠ i := by
        rintro rfl
        exact hne hh
      exact hg.idle j u (by simpa [Pool.setTask_ne _ _ he] using hj) hne
    · intro j hj
      obtain rfl : i = j := by simpa [hh] using hj
      exact ⟨k r, s', by simp, d.rely_refl s', hc.2⟩
  · have hc := hg.idle i _ hi hh p.shared r s' hs
    refine ⟨⟨fun hn => hc.1.2 (hg.free hn), ?_, ?_⟩, hc.2.1⟩
    · intro j u hj hne
      by_cases he : j = i
      · subst he
        simp only [Pool.setTask_self, Option.some.injEq] at hj
        exact hj ▸ hc.2.2
      · exact hg.idle j u (by simpa [Pool.setTask_ne _ _ he] using hj) hne
    · intro j hj
      obtain ⟨u, s, hu, hr, hw⟩ := hg.held j hj
      have he : j ≠ i := by
        rintro rfl
        exact hh hj
      exact ⟨u, s, by simpa [Pool.setTask_ne _ _ he] using hu, d.rely_trans hr hc.1.1, hw⟩

theorem Guarded.acquire {p : Pool E R α S} (hg : Guarded d p) {i : Nat} {k : Task E R α}
    (hi : p.tasks i = some (.acquire k)) (hf : p.holder = none) :
    Guarded d { p with holder := some i, tasks := p.setTask i k } where
  free hn := by simp at hn
  idle j u hj hne := by
    have he : j ≠ i := by
      rintro rfl
      exact hne rfl
    exact hg.idle j u (by simpa [Pool.setTask_ne _ _ he] using hj) (by simp [hf])
  held j hj := by
    obtain rfl : i = j := by simpa using hj
    exact ⟨k, p.shared, by simp, d.rely_refl _, hg.idle i _ hi (by simp [hf]) _ (hg.free hf)⟩

theorem Guarded.release {p : Pool E R α S} (hg : Guarded d p) {i : Nat} {k : Task E R α}
    (hi : p.tasks i = some (.release k)) (hh : p.holder = some i) :
    Guarded d { p with holder := none, tasks := p.setTask i k } := by
  obtain ⟨t, s, ht, hr, hw⟩ := hg.held i hh
  obtain rfl : Task.release k = t := by simpa [hi] using ht
  refine ⟨fun _ => hw.1 _ hr, ?_, fun j hj => by simp at hj⟩
  intro j u hj _
  by_cases he : j = i
  · subst he
    simp only [Pool.setTask_self, Option.some.injEq] at hj
    exact hj ▸ hw.2
  · refine hg.idle j u (by simpa [Pool.setTask_ne _ _ he] using hj) ?_
    simpa [hh] using fun h => he h.symm

theorem Guarded.background {p : Pool E R α S} (hg : Guarded d p) {s' : S}
    (hb : d.rely p.shared s' ∧ (d.inv p.shared → d.inv s')) :
    Guarded d { p with shared := s' } where
  free hn := hb.2 (hg.free hn)
  idle := hg.idle
  held j hj := by
    obtain ⟨u, s, hu, hr, hw⟩ := hg.held j hj
    exact ⟨u, s, hu, d.rely_trans hr hb.1, hw⟩

/-- What a step of the pool guarantees: a call keeps its guarantee, the other
steps leave the shared state to the background. -/
def Kept (background : S → S → Prop) (p : Pool E R α S) (a : Act E R) (p' : Pool E R α S) : Prop :=
  match a with
  | .call _ e r => d.guar e p.shared r p'.shared
  | .background => background p.shared p'.shared
  | .spawn _ | .acquire _ | .release _ => p'.shared = p.shared

theorem Guarded.step {background : S → S → Prop} {ops : Task E R α → Prop}
    (hops : ∀ t, ops t → d.Safe t)
    (hback : ∀ s s', background s s' → d.rely s s' ∧ (d.inv s → d.inv s'))
    {p p' : Pool E R α S} {a : Act E R} (hg : Guarded d p)
    (hs : Pool.Step d.sem background ops p a p') :
    Guarded d p' ∧ d.Kept background p a p' := by
  cases hs with
  | spawn hi ht => exact ⟨hg.spawn hi (hops _ ht), rfl⟩
  | call hi hs => exact hg.call hi hs
  | acquire hi hf => exact ⟨hg.acquire hi hf, rfl⟩
  | release hi hh => exact ⟨hg.release hi hh, rfl⟩
  | background hb => exact ⟨hg.background (hback _ _ hb), hb⟩

theorem Guarded.along {background : S → S → Prop} {ops : Task E R α → Prop}
    (hops : ∀ t, ops t → d.Safe t)
    (hback : ∀ s s', background s s' → d.rely s s' ∧ (d.inv s → d.inv s')) {s : S} (hs : d.inv s)
    {history : List (Act E R × Pool E R α S)}
    (hrun : Along (Pool.Step d.sem background ops) (Pool.start s) history) :
    ∀ p ∈ Pool.start s :: history.map Prod.snd, Guarded d p := by
  refine List.forall_mem_cons.mpr ⟨.start hs, fun p hp => ?_⟩
  obtain ⟨x, hx, rfl⟩ := List.mem_map.mp hp
  exact Along.forall_inv (fun p a p' hg hstep => (hg.step hops hback hstep).1) (.start hs) hrun x hx

end Discipline

/-- One move of a schedule: a task starts, or a task goes on to its next call. -/
inductive Move (E : Type) (R : E → Type) (α : Type) where
  | spawn (i : Nat) (t : Task E R α)
  | step (i : Nat)

namespace Pool

variable (handle : (e : E) → S → R e × S)

def move (p : Pool E R α S) : Move E R α → Option (Act E R × Pool E R α S)
  | .spawn i t =>
    match p.tasks i with
    | none => some (.spawn i, { p with tasks := p.setTask i t })
    | some _ => none
  | .step i =>
    match p.tasks i with
    | some (.call e k) =>
      let (r, s') := handle e p.shared
      some (.call i e r, { p with shared := s', tasks := p.setTask i (k r) })
    | some (.acquire k) =>
      if p.holder = none then some (.acquire i, { p with holder := some i, tasks := p.setTask i k })
      else none
    | some (.release k) =>
      if p.holder = some i then some (.release i, { p with holder := none, tasks := p.setTask i k })
      else none
    | _ => none

/-- The history of a schedule in an environment that answers by a function, up
to the first move that is not enabled. -/
def play (p : Pool E R α S) : List (Move E R α) → List (Act E R × Pool E R α S)
  | [] => []
  | m :: moves =>
    match p.move handle m with
    | none => []
    | some (a, p') => (a, p') :: p'.play moves

variable {handle} {sem : Sem E R S} {background : S → S → Prop} {ops : Task E R α → Prop}

theorem move_step (hsem : ∀ e s, sem e s (handle e s).1 (handle e s).2) {p p' : Pool E R α S}
    {m : Move E R α} {a : Act E R} (hops : ∀ i t, m = .spawn i t → ops t)
    (h : p.move handle m = some (a, p')) : Step sem background ops p a p' := by
  cases m with
  | spawn i t =>
    simp only [move] at h
    split at h
    · rename_i hi
      cases h
      exact .spawn hi (hops i t rfl)
    · cases h
  | step i =>
    simp only [move] at h
    split at h
    · rename_i e k hi
      cases h
      exact .call hi (hsem e p.shared)
    · rename_i k hi
      split at h
      · rename_i hf
        cases h
        exact .acquire hi hf
      · cases h
    · rename_i k hi
      split at h
      · rename_i hh
        cases h
        exact .release hi hh
      · cases h
    · cases h

theorem play_along (hsem : ∀ e s, sem e s (handle e s).1 (handle e s).2) {p : Pool E R α S}
    {moves : List (Move E R α)} (hops : ∀ m ∈ moves, ∀ i t, m = .spawn i t → ops t) :
    Along (Step sem background ops) p (p.play handle moves) := by
  induction moves generalizing p with
  | nil => trivial
  | cons m moves ih =>
    obtain ⟨hm, hmoves⟩ := List.forall_mem_cons.mp hops
    simp only [play]
    cases h : p.move handle m with
    | none => trivial
    | some x => exact ⟨move_step hsem hm h, ih hmoves⟩

end Pool

end Coop
