import Mathlib.Logic.Relation
import Mathlib.Logic.Function.Basic

/-! Cooperative tasks as effect trees. A task suspends at every call and at the
acquisition and release of one lock; between two suspensions it runs alone. The
same tree is read three ways: run alone against a nondeterministic environment
(`Runs`), run alone against a deterministic one (`eval`), and interleaved with
other tasks (`Pool`, in the next module). -/

namespace Coop

inductive Task (E : Type) (R : E → Type) (α : Type) where
  | done (a : α)
  | call (e : E) (next : R e → Task E R α)
  | acquire (next : Task E R α)
  | release (next : Task E R α)

/-- What a call may answer and do to the shared state. -/
abbrev Sem (E : Type) (R : E → Type) (S : Type) := (e : E) → S → R e → S → Prop

/-- One performed call, with the state it found and the state it left. -/
structure Event (E : Type) (R : E → Type) (S : Type) where
  pre : S
  eff : E
  resp : R eff
  post : S

namespace Task

variable {E : Type} {R : E → Type} {S α β γ : Type}

def bind : Task E R α → (α → Task E R β) → Task E R β
  | .done a, f => f a
  | .call e k, f => .call e (fun r => (k r).bind f)
  | .acquire k, f => .acquire (k.bind f)
  | .release k, f => .release (k.bind f)

instance : Monad (Task E R) where
  pure := .done
  bind := bind

def perform (e : E) : Task E R (R e) := .call e .done

def withLock (t : Task E R α) : Task E R α :=
  .acquire (t.bind fun a => .release (.done a))

@[simp] theorem pure_eq (a : α) : (pure a : Task E R α) = .done a := rfl

@[simp] theorem bind_eq (t : Task E R α) (f : α → Task E R β) : t >>= f = t.bind f := rfl

@[simp] theorem done_bind (a : α) (f : α → Task E R β) : (Task.done a).bind f = f a := rfl

@[simp] theorem call_bind (e : E) (k : R e → Task E R α) (f : α → Task E R β) :
    (Task.call e k).bind f = .call e (fun r => (k r).bind f) := rfl

@[simp] theorem acquire_bind (k : Task E R α) (f : α → Task E R β) :
    (Task.acquire k).bind f = .acquire (k.bind f) := rfl

@[simp] theorem release_bind (k : Task E R α) (f : α → Task E R β) :
    (Task.release k).bind f = .release (k.bind f) := rfl

theorem bind_assoc (t : Task E R α) (f : α → Task E R β) (g : β → Task E R γ) :
    (t.bind f).bind g = t.bind (fun a => (f a).bind g) := by
  induction t with
  | done a => rfl
  | call e k ih => exact congrArg (Task.call e) (funext ih)
  | acquire k ih => exact congrArg Task.acquire ih
  | release k ih => exact congrArg Task.release ih

theorem bind_done (t : Task E R α) : t.bind .done = t := by
  induction t with
  | done a => rfl
  | call e k ih => exact congrArg (Task.call e) (funext ih)
  | acquire k ih => exact congrArg Task.acquire ih
  | release k ih => exact congrArg Task.release ih

instance : LawfulMonad (Task E R) :=
  LawfulMonad.mk' _ (fun t => bind_done t) (fun _ _ => rfl) bind_assoc

section Compositions

variable (calls : E → Prop) (answers : (e : E) → R e → Prop)
  (sections : (γ : Type) → Task E R γ → Prop)

/-- A tree put together from the given calls, as long as they are answered as
stated, and from whole sections, and that ends in results that satisfy `Q`. -/
inductive Composed (Q : α → Prop) : Task E R α → Prop where
  | done {a : α} (h : Q a) : Composed Q (.done a)
  | call {e : E} {k : R e → Task E R α} (hc : calls e) (hk : ∀ r, answers e r → Composed Q (k r)) :
      Composed Q (.call e k)
  | sect {γ : Type} {t : Task E R γ} {f : γ → Task E R α} (ht : sections γ t)
      (hf : ∀ c, Composed Q (f c)) : Composed Q (t.bind f)

variable {calls answers sections}

theorem Composed.mono {t : Task E R α} {P Q : α → Prop} (h : Composed calls answers sections P t)
    (hPQ : ∀ a, P a → Q a) : Composed calls answers sections Q t := by
  induction h with
  | done ha => exact .done (hPQ _ ha)
  | call hc _ ih => exact .call hc ih
  | sect ht _ ih => exact .sect ht ih

theorem Composed.bind {t : Task E R α} {f : α → Task E R β} {P : α → Prop} {Q : β → Prop}
    (h : Composed calls answers sections P t)
    (hf : ∀ a, P a → Composed calls answers sections Q (f a)) :
    Composed calls answers sections Q (t.bind f) := by
  induction h with
  | done ha => exact hf _ ha
  | call hc _ ih => exact .call hc ih
  | sect ht _ ih =>
    rw [bind_assoc]
    exact .sect ht ih

theorem Composed.widen {calls' : E → Prop} (hcalls : ∀ e, calls e → calls' e) {t : Task E R α}
    {Q : α → Prop} (h : Composed calls answers sections Q t) :
    Composed calls' answers sections Q t := by
  induction h with
  | done ha => exact .done ha
  | call hc _ ih => exact .call (hcalls _ hc) ih
  | sect ht _ ih => exact .sect ht ih

theorem Composed.of_section {γ : Type} {t : Task E R γ} (ht : sections γ t) :
    Composed calls answers sections (fun _ => True) t := by
  have h : Composed calls answers sections (fun _ => True) (t.bind .done) :=
    .sect ht fun _ => .done trivial
  rwa [bind_done] at h

end Compositions

section Alone

variable (sem : Sem E R S) (background : S → S → Prop)

/-- A task run alone: only the background moves the state between its calls. -/
inductive Runs : Task E R α → S → List (Event E R S) → α → S → Prop where
  | done (a : α) (s : S) : Runs (.done a) s [] a s
  | call {e : E} {k : R e → Task E R α} {s s₁ s₂ s' : S} {r : R e} {tr : List (Event E R S)} {a : α}
      (hb : background s s₁) (hs : sem e s₁ r s₂) (hk : Runs (k r) s₂ tr a s') :
      Runs (.call e k) s (⟨s₁, e, r, s₂⟩ :: tr) a s'
  | acquire {k : Task E R α} {s s' : S} {tr : List (Event E R S)} {a : α}
      (hk : Runs k s tr a s') : Runs (.acquire k) s tr a s'
  | release {k : Task E R α} {s s' : S} {tr : List (Event E R S)} {a : α}
      (hk : Runs k s tr a s') : Runs (.release k) s tr a s'

/-- Every run of the task from `s` meets the obligation at each of its calls and
ends in a result and a state that satisfy `Q`. -/
def after (ob : Event E R S → Prop) : Task E R α → S → (α → S → Prop) → Prop
  | .done a, s, Q => Q a s
  | .call e k, s, Q => ∀ s₁, background s s₁ → ∀ r s₂, sem e s₁ r s₂ →
      ob ⟨s₁, e, r, s₂⟩ ∧ after ob (k r) s₂ Q
  | .acquire k, s, Q => after ob k s Q
  | .release k, s, Q => after ob k s Q

variable {sem background} {ob : Event E R S → Prop}

theorem after_bind {t : Task E R α} {f : α → Task E R β} {s : S} {Q : β → S → Prop} :
    after sem background ob (t.bind f) s Q ↔
      after sem background ob t s (fun a s' => after sem background ob (f a) s' Q) := by
  induction t generalizing s with
  | done a => exact Iff.rfl
  | call e k ih => simp only [call_bind, after, ih]
  | acquire k ih => exact ih
  | release k ih => exact ih

theorem after_mono {t : Task E R α} {s : S} {P Q : α → S → Prop} (hPQ : ∀ a s, P a s → Q a s)
    (h : after sem background ob t s P) : after sem background ob t s Q := by
  induction t generalizing s with
  | done a => exact hPQ a s h
  | call e k ih =>
    intro s₁ hb r s₂ hs
    exact ⟨(h s₁ hb r s₂ hs).1, ih r (h s₁ hb r s₂ hs).2⟩
  | acquire k ih => exact ih h
  | release k ih => exact ih h

theorem after_withLock {t : Task E R α} {s : S} {Q : α → S → Prop} :
    after sem background ob t.withLock s Q ↔ after sem background ob t s Q := by
  simp only [withLock, after, after_bind]

/-- An invariant of the background, of the calls and of the sections holds at the
end of a tree composed of them. -/
theorem Composed.after {calls : E → Prop} {answers : (e : E) → R e → Prop}
    {sections : (γ : Type) → Task E R γ → Prop} {I : S → Prop}
    (hback : ∀ s s', I s → background s s' → I s')
    (hcall : ∀ e s r s', calls e → I s → sem e s r s' → answers e r ∧ ob ⟨s, e, r, s'⟩ ∧ I s')
    (hsect : ∀ γ t s, sections γ t → I s → after sem background ob t s (fun _ s' => I s'))
    {Q : α → Prop} {t : Task E R α} (ht : Composed calls answers sections Q t) {s : S} (hs : I s) :
    after sem background ob t s (fun a s' => Q a ∧ I s') := by
  induction ht generalizing s with
  | done ha => exact ⟨ha, hs⟩
  | call hc _ ih =>
    intro s₁ hb r s₂ hsem
    obtain ⟨ha, ho, hi⟩ := hcall _ s₁ r s₂ hc (hback s s₁ hs hb) hsem
    exact ⟨ho, ih r ha hi⟩
  | sect ht _ ih =>
    rw [after_bind]
    exact after_mono (fun c s' hi => ih c hi) (hsect _ _ s ht hs)

theorem Runs.of_after {t : Task E R α} {s s' : S} {tr : List (Event E R S)} {a : α}
    {Q : α → S → Prop} (hr : Runs sem background t s tr a s')
    (h : after sem background ob t s Q) : Q a s' ∧ ∀ ev ∈ tr, ob ev := by
  induction hr with
  | done a s => exact ⟨h, by simp⟩
  | call hb hs _ ih =>
    have hc := h _ hb _ _ hs
    have hrest := ih hc.2
    exact ⟨hrest.1, List.forall_mem_cons.mpr ⟨hc.1, hrest.2⟩⟩
  | acquire _ ih => exact ih h
  | release _ ih => exact ih h

theorem Runs.sem_of_mem {t : Task E R α} {s s' : S} {tr : List (Event E R S)} {a : α}
    (h : Runs sem background t s tr a s') : ∀ ev ∈ tr, sem ev.eff ev.pre ev.resp ev.post := by
  induction h with
  | done a s => simp
  | call _ hs _ ih => exact List.forall_mem_cons.mpr ⟨hs, ih⟩
  | acquire _ ih => exact ih
  | release _ ih => exact ih

theorem Runs.restrict {t : Task E R α} {s s' : S} {tr : List (Event E R S)} {a : α}
    {ok : Event E R S → Prop} (h : Runs sem background t s tr a s') (hok : ∀ ev ∈ tr, ok ev) :
    Runs (fun e s r s' => sem e s r s' ∧ ok ⟨s, e, r, s'⟩) background t s tr a s' := by
  induction h with
  | done a s => exact .done a s
  | call hb hs _ ih =>
    obtain ⟨hev, hrest⟩ := List.forall_mem_cons.mp hok
    exact .call hb ⟨hs, hev⟩ (ih hrest)
  | acquire _ ih => exact .acquire (ih hok)
  | release _ ih => exact .release (ih hok)

theorem Runs.bind_inv {t : Task E R α} {f : α → Task E R β} {s s' : S}
    {tr : List (Event E R S)} {b : β} (h : Runs sem background (t.bind f) s tr b s') :
    ∃ a s₁ tr₁ tr₂, Runs sem background t s tr₁ a s₁ ∧ Runs sem background (f a) s₁ tr₂ b s' ∧
      tr = tr₁ ++ tr₂ := by
  induction t generalizing s tr with
  | done a => exact ⟨a, s, [], tr, .done a s, h, rfl⟩
  | call e k ih =>
    cases h with
    | call hb hs hk =>
      obtain ⟨a, s₁, tr₁, tr₂, h₁, h₂, he⟩ := ih _ hk
      exact ⟨a, s₁, _ :: tr₁, tr₂, .call hb hs h₁, h₂, by simp [he]⟩
  | acquire k ih =>
    cases h with
    | acquire hk =>
      obtain ⟨a, s₁, tr₁, tr₂, h₁, h₂, he⟩ := ih hk
      exact ⟨a, s₁, tr₁, tr₂, .acquire h₁, h₂, he⟩
  | release k ih =>
    cases h with
    | release hk =>
      obtain ⟨a, s₁, tr₁, tr₂, h₁, h₂, he⟩ := ih hk
      exact ⟨a, s₁, tr₁, tr₂, .release h₁, h₂, he⟩

/-- Every run of the task from `s` has a trace, a result and an end that satisfy `Q`. -/
def Yields (sem : Sem E R S) (background : S → S → Prop) (t : Task E R α) (s : S)
    (Q : List (Event E R S) → α → S → Prop) : Prop :=
  ∀ tr a s', Runs sem background t s tr a s' → Q tr a s'

theorem Yields.mono {t : Task E R α} {s : S} {P Q : List (Event E R S) → α → S → Prop}
    (h : Yields sem background t s P) (hPQ : ∀ tr a s', P tr a s' → Q tr a s') :
    Yields sem background t s Q :=
  fun tr a s' hr => hPQ tr a s' (h tr a s' hr)

theorem Yields.done {a : α} {s : S} {Q : List (Event E R S) → α → S → Prop} (h : Q [] a s) :
    Yields sem background (.done a : Task E R α) s Q := by
  rintro _ _ _ ⟨⟩
  exact h

theorem Yields.call {e : E} {k : R e → Task E R α} {s : S} {Q : List (Event E R S) → α → S → Prop}
    (h : ∀ s₁, background s s₁ → ∀ r s₂, sem e s₁ r s₂ →
      Yields sem background (k r) s₂ (fun tr => Q (⟨s₁, e, r, s₂⟩ :: tr))) :
    Yields sem background (.call e k) s Q := by
  intro tr a s' hr
  cases hr with
  | call hb hs hk => exact h _ hb _ _ hs _ a s' hk

theorem Yields.bind {t : Task E R α} {f : α → Task E R β} {s : S}
    {Q : List (Event E R S) → β → S → Prop}
    (h : Yields sem background t s fun tr a s' => Yields sem background (f a) s'
      (fun tr' => Q (tr ++ tr'))) :
    Yields sem background (t.bind f) s Q := by
  intro tr b s' hr
  obtain ⟨a, s₁, tr₁, tr₂, h₁, h₂, rfl⟩ := hr.bind_inv
  exact h tr₁ a s₁ h₁ tr₂ b s' h₂

theorem Yields.withLock {t : Task E R α} {s : S} {Q : List (Event E R S) → α → S → Prop}
    (h : Yields sem background t s Q) : Yields sem background t.withLock s Q := by
  intro tr a s' hr
  cases hr with
  | acquire hk =>
    obtain ⟨a', s₁, tr₁, tr₂, h₁, h₂, rfl⟩ := hk.bind_inv
    cases h₂ with
    | release hd =>
      cases hd
      rw [List.append_nil]
      exact h tr₁ a s' h₁

theorem Yields.of_after {t : Task E R α} {s : S} {Q : α → S → Prop}
    (h : after sem background ob t s Q) :
    Yields sem background t s fun tr a s' => Q a s' ∧ ∀ ev ∈ tr, ob ev :=
  fun _ _ _ hr => hr.of_after h

end Alone

section Deterministic

variable (handle : (e : E) → S → R e × S)

/-- The run against an environment that answers every call by a function. -/
def eval : Task E R α → S → α × S
  | .done a, s => (a, s)
  | .call e k, s => (k (handle e s).1).eval (handle e s).2
  | .acquire k, s => k.eval s
  | .release k, s => k.eval s

@[simp] theorem eval_done (a : α) (s : S) : (Task.done a : Task E R α).eval handle s = (a, s) := rfl

@[simp] theorem eval_call (e : E) (k : R e → Task E R α) (s : S) :
    (Task.call e k).eval handle s = (k (handle e s).1).eval handle (handle e s).2 := rfl

@[simp] theorem eval_perform (e : E) (s : S) :
    (perform e : Task E R (R e)).eval handle s = handle e s := rfl

theorem eval_bind (t : Task E R α) (f : α → Task E R β) (s : S) :
    (t.bind f).eval handle s = (f (t.eval handle s).1).eval handle (t.eval handle s).2 := by
  induction t generalizing s with
  | done a => rfl
  | call e k ih => exact ih _ _
  | acquire k ih => exact ih s
  | release k ih => exact ih s

theorem eval_withLock (t : Task E R α) (s : S) : t.withLock.eval handle s = t.eval handle s := by
  simp [withLock, eval, eval_bind]

/-- A relation between the states of two environments, kept by calls that are
answered alike and by sections that end alike, is kept by a tree composed of them. -/
theorem Composed.eval_rel {handle handle' : (e : E) → S → R e × S} {I : S → S → Prop}
    {calls : E → Prop} {answers : (e : E) → R e → Prop} {sections : (γ : Type) → Task E R γ → Prop}
    (hcall : ∀ e s s', calls e → I s s' → answers e (handle e s).1 ∧
      (handle' e s').1 = (handle e s).1 ∧
      I (handle e s).2 (handle' e s').2)
    (hsect : ∀ γ (t : Task E R γ) s s', sections γ t → I s s' →
      (t.eval handle' s').1 = (t.eval handle s).1 ∧ I (t.eval handle s).2 (t.eval handle' s').2)
    {Q : α → Prop} {t : Task E R α} (ht : Composed calls answers sections Q t) {s s' : S}
    (hs : I s s') : (t.eval handle' s').1 = (t.eval handle s).1 ∧ Q (t.eval handle s).1 ∧
      I (t.eval handle s).2 (t.eval handle' s').2 := by
  induction ht generalizing s s' with
  | done ha => exact ⟨rfl, ha, hs⟩
  | call hc _ ih =>
    obtain ⟨ha, hsame, hi⟩ := hcall _ s s' hc hs
    simp only [eval_call]
    rw [hsame]
    exact ih _ ha hi
  | sect ht _ ih =>
    obtain ⟨hsame, hi⟩ := hsect _ _ s s' ht hs
    rw [eval_bind, eval_bind, hsame]
    exact ih _ hi

def trace : Task E R α → S → List (Event E R S)
  | .done _, _ => []
  | .call e k, s =>
    ⟨s, e, (handle e s).1, (handle e s).2⟩ :: (k (handle e s).1).trace (handle e s).2
  | .acquire k, s => k.trace s
  | .release k, s => k.trace s

theorem runs_trace {sem : Sem E R S} {background : S → S → Prop} (hrefl : ∀ s, background s s)
    (hsem : ∀ e s, sem e s (handle e s).1 (handle e s).2) (t : Task E R α) (s : S) :
    Runs sem background t s (t.trace handle s) (t.eval handle s).1 (t.eval handle s).2 := by
  induction t generalizing s with
  | done a => exact .done a s
  | call e k ih => exact .call (hrefl s) (hsem e s) (ih (handle e s).1 (handle e s).2)
  | acquire k ih => exact .acquire (ih s)
  | release k ih => exact .release (ih s)

theorem eval_runs {sem : Sem E R S} {background : S → S → Prop} (hrefl : ∀ s, background s s)
    (hsem : ∀ e s, sem e s (handle e s).1 (handle e s).2) (t : Task E R α) (s : S) :
    ∃ tr, Runs sem background t s tr (t.eval handle s).1 (t.eval handle s).2 :=
  ⟨_, runs_trace handle hrefl hsem t s⟩

end Deterministic

section Raising

variable {X : Type}

/-- A task that may raise: sequencing stops at the first exception. -/
abbrev Raising (X E : Type) (R : E → Type) (α : Type) := ExceptT X (Task E R) α

namespace Raising

def lift (x : Except X α) : Raising X E R α := ExceptT.mk (.done x)

/-- `try`: the exception becomes a value. -/
def attempt (t : Raising X E R α) : Raising X E R (Except X α) :=
  ExceptT.mk (t.run.bind fun r => .done (.ok r))

def locked (t : Raising X E R α) : Raising X E R α := ExceptT.mk t.run.withLock

end Raising

def andThen (f : α → Raising X E R β) : Except X α → Task E R (Except X β)
  | .ok a => (f a).run
  | .error x => .done (.error x)

theorem run_bind (t : Raising X E R α) (f : α → Raising X E R β) :
    (t >>= f).run = t.run.bind (andThen f) := by
  refine congrArg t.run.bind (funext ?_)
  rintro (x | a) <;> rfl

@[simp] theorem andThen_ok (f : α → Raising X E R β) (a : α) : andThen f (.ok a) = (f a).run := rfl

@[simp] theorem andThen_error (f : α → Raising X E R β) (x : X) :
    andThen f (.error x) = .done (.error x) := rfl

theorem after_run_bind {sem : Sem E R S} {background : S → S → Prop} {ob : Event E R S → Prop}
    {t : Raising X E R α} {f : α → Raising X E R β} {s : S} {Q : Except X β → S → Prop} :
    after sem background ob (t >>= f).run s Q ↔
      after sem background ob t.run s (fun r s' => after sem background ob (andThen f r) s' Q) := by
  rw [run_bind, after_bind]

theorem Yields.run_bind {sem : Sem E R S} {background : S → S → Prop} {t : Raising X E R α}
    {f : α → Raising X E R β} {s : S} {Q : List (Event E R S) → Except X β → S → Prop}
    (h : Yields sem background t.run s fun tr r s' =>
      Yields sem background (andThen f r) s' (fun tr' => Q (tr ++ tr'))) :
    Yields sem background (t >>= f).run s Q := by
  rw [Task.run_bind]
  exact Yields.bind h

/-- Every run of a raising task from `s` that returns a value has a trace, a value
and an end that satisfy `Q`. -/
def Returns (sem : Sem E R S) (background : S → S → Prop) (t : Raising X E R α) (s : S)
    (Q : List (Event E R S) → α → S → Prop) : Prop :=
  Yields sem background t.run s fun tr r s' => ∀ a, r = .ok a → Q tr a s'

section Returns

variable {sem : Sem E R S} {background : S → S → Prop} {t : Raising X E R α} {s : S}

theorem Returns.mono {P Q : List (Event E R S) → α → S → Prop} (h : Returns sem background t s P)
    (hPQ : ∀ tr a s', P tr a s' → Q tr a s') : Returns sem background t s Q :=
  Yields.mono h fun tr _ s' hp a ha => hPQ tr a s' (hp a ha)

theorem Returns.pure {a : α} {Q : List (Event E R S) → α → S → Prop} (h : Q [] a s) :
    Returns sem background (Pure.pure a : Raising X E R α) s Q :=
  Yields.done fun _ ha => Except.ok.inj ha ▸ h

theorem Returns.throw {x : X} {Q : List (Event E R S) → α → S → Prop} :
    Returns sem background (MonadExcept.throw x : Raising X E R α) s Q :=
  Yields.done fun _ ha => nomatch ha

theorem Returns.lift {x : Except X α} {Q : List (Event E R S) → α → S → Prop}
    (h : ∀ a, x = .ok a → Q [] a s) :
    Returns sem background (Raising.lift x) s Q :=
  Yields.done h

theorem Returns.call {e : E} {g : R e → Except X α} {Q : List (Event E R S) → α → S → Prop}
    (h : ∀ s₁, background s s₁ → ∀ r s₂, sem e s₁ r s₂ → ∀ a, g r = .ok a →
      Q [⟨s₁, e, r, s₂⟩] a s₂) :
    Returns sem background (ExceptT.mk (.call e fun r => .done (g r))) s Q :=
  Yields.call fun s₁ hb r s₂ hs => Yields.done (h s₁ hb r s₂ hs)

theorem Returns.bind {f : α → Raising X E R β} {Q : List (Event E R S) → β → S → Prop}
    (h : Returns sem background t s fun tr a s' => Returns sem background (f a) s'
      (fun tr' => Q (tr ++ tr'))) :
    Returns sem background (t >>= f) s Q := by
  refine Yields.run_bind (Yields.mono h ?_)
  rintro tr (x | a) s' hq
  · exact Yields.done fun _ ha => nomatch ha
  · exact hq a rfl

theorem Returns.attempt {Q : List (Event E R S) → Except X α → S → Prop}
    (h : Yields sem background t.run s Q) :
    Returns sem background t.attempt s Q := by
  refine Yields.bind (Yields.mono h ?_)
  intro tr r s' hq
  refine Yields.done fun _ ha => ?_
  rw [List.append_nil]
  exact Except.ok.inj ha ▸ hq

theorem Returns.locked {Q : List (Event E R S) → α → S → Prop} (h : Returns sem background t s Q) :
    Returns sem background t.locked s Q :=
  Yields.withLock h

end Returns

/-- Every run of a raising task, from any state, ends in a value that satisfies `Q`. -/
def Finishes (sem : Sem E R S) (background : S → S → Prop) (t : Raising X E R α)
    (Q : α → Prop) : Prop :=
  ∀ s, Yields sem background t.run s fun _ r _ => ∃ a, r = .ok a ∧ Q a

section Finishes

variable {sem : Sem E R S} {background : S → S → Prop} {t : Raising X E R α} {P Q : α → Prop}

theorem Finishes.mono (h : Finishes sem background t P) (hPQ : ∀ a, P a → Q a) :
    Finishes sem background t Q := by
  refine fun s => Yields.mono (h s) ?_
  rintro _ r _ ⟨a, rfl, ha⟩
  exact ⟨a, rfl, hPQ a ha⟩

theorem Finishes.pure {a : α} (h : Q a) :
    Finishes sem background (Pure.pure a : Raising X E R α) Q :=
  fun _ => Yields.done ⟨a, rfl, h⟩

theorem Finishes.lift {x : Except X α} (h : ∃ a, x = .ok a ∧ Q a) :
    Finishes sem background (Raising.lift x) Q :=
  fun _ => Yields.done h

theorem Finishes.call {e : E} {g : R e → Except X α}
    (h : ∀ s r s', sem e s r s' → ∃ a, g r = .ok a ∧ Q a) :
    Finishes sem background (ExceptT.mk (.call e fun r => .done (g r))) Q :=
  fun _ => Yields.call fun s₁ _ r s₂ hs => Yields.done (h s₁ r s₂ hs)

theorem Finishes.bind {f : α → Raising X E R β} {Q : β → Prop} (h : Finishes sem background t P)
    (hf : ∀ a, P a → Finishes sem background (f a) Q) : Finishes sem background (t >>= f) Q := by
  refine fun s => Yields.run_bind (Yields.mono (h s) ?_)
  rintro _ r s' ⟨a, rfl, ha⟩
  exact hf a ha s'

theorem Finishes.locked (h : Finishes sem background t Q) : Finishes sem background t.locked Q :=
  fun s => Yields.withLock (h s)

end Finishes

theorem eval_run_bind (handle : (e : E) → S → R e × S) (t : Raising X E R α)
    (f : α → Raising X E R β) (s : S) :
    (t >>= f).run.eval handle s =
      (andThen f (t.run.eval handle s).1).eval handle (t.run.eval handle s).2 := by
  rw [run_bind, eval_bind]

theorem composed_run_bind {calls : E → Prop} {answers : (e : E) → R e → Prop}
    {sections : (γ : Type) → Task E R γ → Prop} {t : Raising X E R α} {f : α → Raising X E R β}
    {P : Except X α → Prop} {Q : Except X β → Prop} (h : Composed calls answers sections P t.run)
    (hok : ∀ a, P (.ok a) → Composed calls answers sections Q (f a).run)
    (herror : ∀ x, P (.error x) → Q (.error x)) :
    Composed calls answers sections Q (t >>= f).run := by
  rw [run_bind]
  refine h.bind ?_
  rintro (x | a) ha
  · exact .done (herror x ha)
  · exact hok a ha

theorem composed_attempt {calls : E → Prop} {answers : (e : E) → R e → Prop}
    {sections : (γ : Type) → Task E R γ → Prop} {t : Raising X E R α} {P : Except X α → Prop}
    (h : Composed calls answers sections P t.run) :
    Composed calls answers sections (fun r => ∃ x, r = .ok x ∧ P x) t.attempt.run :=
  h.bind fun x hx => .done ⟨x, rfl, hx⟩

theorem run_lift (x : Except X α) : (Raising.lift x : Raising X E R α).run = .done x := rfl

theorem run_attempt (t : Raising X E R α) : t.attempt.run = t.run.bind fun r => .done (.ok r) := rfl

theorem run_locked (t : Raising X E R α) : t.locked.run = t.run.withLock := rfl

end Raising

end Task

end Coop
