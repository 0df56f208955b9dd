import Federlet.Library.Task

/-! Tasks behind handlers: each call of a task is answered by a task of another
interface, as a library's calls are by the program it is part of. -/

namespace Coop.Task

variable {E E' : Type} {R : E → Type} {R' : E' → Type} {α β : Type}

def through (handler : (e : E) → Task E' R' (R e)) : Task E R α → Task E' R' α
  | .done a => .done a
  | .call e k => (handler e).bind fun r => (k r).through handler
  | .acquire k => .acquire (k.through handler)
  | .release k => .release (k.through handler)

variable {handler : (e : E) → Task E' R' (R e)}

@[simp] theorem through_done (a : α) : (.done a : Task E R α).through handler = .done a := rfl

theorem through_call (e : E) (k : R e → Task E R α) :
    (Task.call e k).through handler = (handler e).bind fun r => (k r).through handler := rfl

theorem Composed.through {calls : E → Prop} {calls' : E' → Prop} {answers : (e : E) → R e → Prop}
    {answers' : (e : E') → R' e → Prop} {sections' : (γ : Type) → Task E' R' γ → Prop}
    (hhandler : ∀ e, calls e → (handler e).Composed calls' answers' sections' (answers e))
    {t : Task E R α} {Q : α → Prop} (ht : t.Composed calls answers (fun _ _ => False) Q) :
    (t.through handler).Composed calls' answers' sections' Q := by
  induction ht with
  | done ha => exact .done ha
  | call hc _ ih => exact (hhandler _ hc).bind ih
  | sect hs _ _ => exact hs.elim

end Coop.Task
