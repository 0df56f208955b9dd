import Federlet.Bystanders
import Federlet.Library.Threads

/-! The fetches of a round run side by side. In whatever order their calls come, every
target gets the decision that it would get alone. -/

namespace Federlet

open Coop

def refreshOne (P : Platform) (client : FederationClient)
    (policy : Option KeyContinuityPolicy) (skew : Int) (target : Manifest × String) :
    Py (String × ManifestRefreshDecision) := do
  let decision ← refreshPeerManifest P client target.1 target.2 policy skew
  return (target.1.nodeId, decision)

def Env.sem (env : Env) (c : Call) (s : NodeState) (r : Resp c) (s' : NodeState) :
    Prop := (r, s') = env.handle c s

section Rounds

variable {P : Platform} {node : FederationNode} {env : Env}
  {policy : Option KeyContinuityPolicy} {skew : Int}

theorem refreshOne_eval (s : NodeState) (target : Manifest × String) :
    ((refreshOne P node.client policy skew target).run.eval env.handle s).1 =
      refreshed P node env policy skew s target := by
  rw [refreshOne, Task.eval_run_bind, refreshed]
  cases ((refreshPeerManifest P node.client target.1 target.2 policy skew).run.eval
    env.handle s) with
  | mk r s' => cases r <;> rfl

theorem refreshOne_outward (target : Manifest × String) :
    Makes (fun c => c.outward) (fun _ _ => False) (refreshOne P node.client policy skew target) :=
  by
  have hasks : Makes (AsksFor (.fetch target.1.nodeId)) (fun _ _ => False)
      (refreshPeerManifest P node.client target.1 target.2 policy skew) :=
        refreshPeerManifest_asks _ _ _ _ _
  have houtward : Makes (fun c => c.outward) (fun _ _ => False)
      (refreshPeerManifest P node.client target.1 target.2 policy skew) :=
        hasks.widen fun c hc => hc.2
  exact houtward.bind fun _ => Makes.pure _

theorem outward_steady (c : Call) (u v : NodeState) (hc : c.outward) (hclock : v.clock = u.clock) :
    (env.handle c v).1 = (env.handle c u).1 ∧ (env.handle c u).2 = u ∧
      (env.handle c v).2.clock = u.clock := by
  obtain ⟨o, op⟩ := c
  cases op
  case utcNow => exact ⟨congrArg (env.now o) hclock, rfl, hclock⟩
  case getaddrinfo | httpGet | httpRequest | hostCallback => exact ⟨rfl, rfl, hclock⟩
  all_goals exact hc.elim

end Rounds

theorem refreshes_outward (P : Platform) (node : FederationNode)
    (policy : Option KeyContinuityPolicy) (skew : Int) (targets : List (Manifest × String)) :
    ∀ t ∈ targets.map (fun target => (refreshOne P node.client policy skew target).run),
      ∃ Q, t.Composed (fun c => c.outward) (fun _ _ => True) (fun _ _ => False) Q := by
  intro t ht
  obtain ⟨target, _, rfl⟩ := List.mem_map.mp ht
  exact ⟨_, refreshOne_outward target⟩

/-- The fetches of `refresh_all` may interleave in any way, and with anything else that
lets the clock stand: the round comes to the same. -/
theorem refresh_all_any_interleaving (P : Platform) (node : FederationNode) (env : Env)
    (policy : Option KeyContinuityPolicy) (skew : Int) (s s' : NodeState)
    (background : NodeState → NodeState → Prop)
    (hback : ∀ u u', background u u' → u'.clock = u.clock)
    (tr : List (Nat × Event Call Resp NodeState))
    (results : List (Except Exc (String × ManifestRefreshDecision)))
    (hrun : Gathers env.sem background
      (((s.due env).filterMap s.target).map fun target =>
        (refreshOne P node.client policy skew target).run)
      (s.waiting node env) tr results s') :
    results = ((s.due env).filterMap s.target).map (refreshed P node env policy skew s) ∧
      (node.refreshAll P policy skew).run.eval env.handle s =
        concluded node (env.now .refresh s.clock) (s.waiting node env) (s.unknown (s.due env))
          (gathered results) := by
  have hclock : (s.waiting node env).clock = s.clock := s.settleAll_clock node _ _
  obtain ⟨_, hresults⟩ := Gathers.steady outward_steady hrun
    (refreshes_outward P node policy skew _) (fun v v' hv hb => (hback v v' hb).trans hv) hclock
  have hdecisions : results = ((s.due env).filterMap s.target).map
      (refreshed P node env policy skew s) := by
    rw [hresults, List.map_map]
    exact List.map_congr_left fun target _ => refreshOne_eval s target
  exact ⟨hdecisions, by rw [refreshAll_eval, hdecisions]⟩

theorem both_any_interleaving :
    ((knowingBoth.due (alphaAnswers unavailable)).filterMap knowingBoth.target).length = 2 ∧
    ∃ tr results s', Gathers (alphaAnswers unavailable).sem (fun _ _ => False)
      (((knowingBoth.due (alphaAnswers unavailable)).filterMap knowingBoth.target).map fun target =>
        (refreshOne noticePlatform beta.client none 300 target).run)
      (knowingBoth.waiting beta (alphaAnswers unavailable)) tr results s' ∧
    results = ((knowingBoth.due (alphaAnswers unavailable)).filterMap knowingBoth.target).map
      (refreshed noticePlatform beta (alphaAnswers unavailable) none 300 knowingBoth) := by
  have hsem (c : Call) (s : NodeState) :
      (alphaAnswers unavailable).sem c s ((alphaAnswers unavailable).handle c s).1
      ((alphaAnswers unavailable).handle c s).2 := rfl
  obtain ⟨tr, results, s', hrun⟩ :=
    Gathers.serial hsem _ (refreshes_outward noticePlatform beta none 300 _)
    (knowingBoth.waiting beta (alphaAnswers unavailable))
  have hboth := refresh_all_any_interleaving noticePlatform beta (alphaAnswers unavailable) none 300
    knowingBoth s' (fun _ _ => False) (fun _ _ h => h.elim) tr results hrun
  exact ⟨by decide +kernel, tr, results, s', hrun, hboth.1⟩

end Federlet
