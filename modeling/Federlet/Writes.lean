import Federlet.Freshness
import Federlet.Recovery
import Federlet.Rollback

/-! Which manifests come to be cached, over sequences of operations. An introduction
applies the local policy to what it caches; a refresh looks at signature, dates,
revision and keys only. -/

namespace Federlet

open Coop

def Call.caches (c : Call) (manifest : Manifest) : Prop :=
  match c.op with
  | .cachePut manifest' => manifest' = manifest
  | .cacheReplace manifests => manifest ∈ manifests
  | _ => False

/-- The call caches one manifest that its origin may cache, or none. -/
def Puts (ok : Origin → Manifest → Prop) (c : Call) : Prop :=
  match c.op with
  | .cachePut manifest => ok c.origin manifest
  | .cacheReplace _ => False
  | _ => True

theorem Puts.caches {ok : Origin → Manifest → Prop} {c : Call} {manifest : Manifest} (h : Puts ok c)
    (hcaches : c.caches manifest) : ok c.origin manifest := by
  obtain ⟨o, op⟩ := c
  cases op
  case cachePut m =>
    obtain rfl : m = manifest := hcaches
    exact h
  case cacheReplace manifests => exact h.elim
  all_goals exact hcaches.elim

theorem Call.quiet.puts {ok : Origin → Manifest → Prop} {c : Call} (h : c.quiet) : Puts ok c := by
  obtain ⟨o, op⟩ := c
  cases op
  case cachePut | cacheReplace => exact h.elim
  all_goals trivial

theorem puts_tableUpsert {ok : Origin → Manifest → Prop} (o : Origin) (rec : MemberRecord) :
    Puts ok ⟨o, .tableUpsert rec⟩ := trivial

section Operations

variable {sem : Sem Call Resp NodeState} {background : NodeState → NodeState → Prop} {P : Platform}
  {node : FederationNode} {callbacks : Callbacks} {ok : Origin → Manifest → Prop}

/-- What caches only what it may, from any state. -/
def PutSections (sem : Sem Call Resp NodeState) (background : NodeState → NodeState → Prop)
    (ok : Origin → Manifest → Prop) : Sections :=
  fun _ t => ∀ s, Task.after sem background (fun ev => Puts ok ev.eff) t s (fun _ _ => True)

theorem puts_of_makes {α : Type} {t : Py α}
    (h : Makes (Puts ok) (PutSections sem background ok) t) :
    PutSections sem background ok _ t.run := by
  intro s
  refine Task.after_mono (fun _ _ _ => trivial)
    (Task.Composed.after (I := fun _ => True) ?_ ?_ ?_ h trivial)
  · exact fun _ _ _ _ => trivial
  · exact fun c s r s' hc _ _ => ⟨trivial, hc, trivial⟩
  · exact fun _ t s ht _ => ht s

theorem puts_of_locked {α : Type} {t body : Py α} (hbody : t = locked body)
    (h : Makes (Puts ok) (PutSections sem background ok) body) :
    PutSections sem background ok _ t.run := by
  intro s
  rw [hbody, Task.run_locked, Task.after_withLock]
  exact puts_of_makes h s

theorem puts_of_routine {α : Type} {t : Py α} {Q : α → Prop}
    (hanswers : ∀ c s r s', sem c s r s' → Answered callbacks c r)
    (h : Routine Call.quiet callbacks (PutSections sem background ok) Q t) :
    PutSections sem background ok _ t.run := by
  intro s
  refine Task.after_mono (fun _ _ _ => trivial)
    (Task.Composed.after (I := fun _ => True) ?_ ?_ ?_ h trivial)
  · exact fun _ _ _ _ => trivial
  · exact fun c s r s' hc _ hsem => ⟨hanswers c s r s' hsem, hc.puts, trivial⟩
  · exact fun _ t s ht _ => ht s

theorem rememberManifest_puts {o : Origin} {manifest : Manifest} (h : ok o manifest) :
    PutSections sem background ok _ (node.rememberManifest o manifest).run :=
  puts_of_makes (Makes.rememberManifest h trivial)

theorem forgetManifest_puts (o : Origin) (nodeId : String) :
    PutSections sem background ok _ (node.forgetManifest o nodeId).run :=
  puts_of_makes (Makes.forgetManifest trivial trivial)

theorem recordPeer_puts {o : Origin} {manifest : Manifest} (h : ok o manifest) (url : String) :
    PutSections sem background ok _ (node.recordPeer o manifest url).run := by
  obtain ⟨body, hbody, hmakes⟩ := FederationNode.recordPeer_parts trivial trivial
    (fun rec _ => puts_tableUpsert o rec) (rememberManifest_puts h)
  exact puts_of_locked hbody hmakes

theorem rememberDiscovered_puts {manifest : Manifest} (h : ok .discovery manifest) :
    PutSections sem background ok _ (locked (node.rememberManifest .discovery manifest)).run :=
  puts_of_locked rfl (Makes.rememberManifest h trivial)

theorem upsertDiscovered_puts (rec : MemberRecord) :
    PutSections sem background ok _ (MembershipTable.upsert .discovery rec).run :=
  puts_of_makes (Makes.call (c := ⟨.discovery, .tableUpsert rec⟩) trivial _)

theorem applyRevocationNotice_puts (notice : RevocationNotice) (keys : Dict JWK)
    (authorize : RevocationNotice → Bool) :
    PutSections sem background ok _ (node.applyRevocationNotice P notice keys authorize).run := by
  obtain ⟨body, hbody, hmakes⟩ := FederationNode.applyRevocationNotice_parts trivial trivial
    (fun rec _ => puts_tableUpsert .revocation rec)
    (forgetManifest_puts .revocation notice.revokedNodeId)
  exact puts_of_locked hbody hmakes

theorem putSections (hintroduced : ∀ o manifest, o ≠ .refresh →
    Admitted P callbacks node.admissionPolicy manifest →
      ok o manifest) (hrefreshed : ∀ manifest, Checked P manifest → ok .refresh manifest) :
    NodeSections P node callbacks (PutSections sem background ok) where
  record := by
    intro o manifest url ho hadmitted
    exact recordPeer_puts (hintroduced o manifest (by rcases ho with rfl | rfl <;> simp) hadmitted)
      url
  discovered := fun rec _ => upsertDiscovered_puts rec
  remember := fun manifest hadmitted => rememberDiscovered_puts
    (hintroduced .discovery manifest (by simp) hadmitted)
  apply := by
    intro nodeId decision hfits
    obtain ⟨body, hbody, hmakes⟩ := FederationNode.applyRefreshDecision_parts trivial trivial
      (fun rec _ => puts_tableUpsert .refresh rec)
      (fun manifest haction hm =>
        rememberManifest_puts (hrefreshed manifest (hfits haction manifest hm).2))
      (forgetManifest_puts .refresh nodeId)
    exact puts_of_locked hbody hmakes
  revoke := applyRevocationNotice_puts

theorem NodeOp.puts (hanswers : ∀ c s r s', sem c s r s' → Answered callbacks c r)
    (h : NodeSections P node callbacks (PutSections sem background ok)) (op : NodeOp) :
    PutSections sem background ok _ (op.run P node).run :=
  puts_of_routine hanswers (op.routine h)

theorem Sequence.puts {s s' : NodeState} {ops : List (LifecycleOp × Except Exc Unit)} {tr : Trace}
    (h : Sequence P node s ops tr s') (hops : ∀ x ∈ ops, x.1 ≠ .hydrate)
    (hhost : ∀ ev ∈ tr, CallbackAnswers callbacks ev.eff ev.resp)
    (hsections : ∀ sem, NodeSections P node callbacks (PutSections sem Passes ok)) :
    ∀ ev ∈ tr, Puts ok ev.eff := by
  induction h with
  | nil s => simp
  | @cons s s₁ s₂ s' op r tr tr' ops hidle hrun hrest ih =>
    obtain ⟨hop, hothers⟩ := List.forall_mem_cons.mp hops
    obtain ⟨hhead, htail⟩ := List.forall_mem_append.mp hhost
    cases op with
    | hydrate => exact absurd rfl hop
    | operation op =>
      have hanswers : ∀ c s r s', Does c s r s' ∧ CallbackAnswers callbacks c r →
          Answered callbacks c r :=
        fun c s r s' hsem => hsem.1.answered hsem.2
      have hafter := op.puts hanswers (hsections _) s₁
      exact List.forall_mem_append.mpr ⟨((hrun.restrict hhead).of_after hafter).2, ih hothers htail⟩

end Operations

section Admitting

variable {P : Platform} {answer : HostCallback → Manifest → Except Exc (Bool × String)}
  {policy : AdmissionPolicy} {manifest : Manifest} {s : NodeState}

def telling (answer : HostCallback → Manifest → Except Exc (Bool × String)) : Callbacks :=
  fun callback manifest r => r = answer callback manifest

def hostWorld (answer : HostCallback → Manifest → Except Exc (Bool × String)) : Env :=
  { silentWorld with hostCallback := answer }

/-- `admit_manifest(manifest, policy)` would accept now. -/
def WouldAdmit (P : Platform) (answer : HostCallback → Manifest → Except Exc (Bool × String))
    (policy : AdmissionPolicy) (manifest : Manifest) (s : NodeState) : Prop :=
  ∃ decision, ((admitManifest P .admission manifest policy 300).run.eval (hostWorld answer).handle
    s).1 = .ok decision ∧
    decision.accepted = true

/-- What the policy asks of a manifest apart from its signature and its dates. -/
structure Suits (P : Platform) (answer : HostCallback → Manifest → Except Exc (Bool × String))
    (policy : AdmissionPolicy) (manifest : Manifest) : Prop where
  claims : policyReason policy manifest = none
  authMethods : ∀ method ∈ manifest.authMethods, ∀ verifier,
    policy.authMethodVerifiers.lookup method = some verifier → ∃ reason, answer verifier manifest =
      .ok (true, reason)
  endpoint : checkEndpoint P manifest.endpoint policy = .ok none
  evidence : ∀ verifier, policy.evidenceVerifier = some verifier →
    ∃ reason, answer verifier manifest = .ok (true, reason)

/-- The dates of the manifest leave room for the time, by the default tolerance. -/
def InBounds (manifest : Manifest) (now : DateTime) : Prop :=
  ∃ reason, (TimeDelta.ofSeconds 300 >>= boundsVerdict manifest.issuedAt manifest.expiresAt now) =
    .ok (true, reason)

theorem Admitted.suits (h : Admitted P (telling answer) policy manifest) :
    Suits P answer policy manifest := by
  refine ⟨h.claims, ?_, h.endpoint, ?_⟩
  · intro method hmethod verifier hverifier
    obtain ⟨reason, hreason⟩ := h.authMethods method hmethod verifier hverifier
    exact ⟨reason, hreason.symm⟩
  · intro verifier hverifier
    obtain ⟨reason, hreason⟩ := h.evidence verifier hverifier
    exact ⟨reason, hreason.symm⟩

theorem checkManifestAt_iff_inBounds (h : Checked P manifest) (now : DateTime) :
    (∃ reason, checkManifestAt P manifest now 300 = .ok (true, reason)) ↔
      InBounds manifest now := by
  obtain ⟨now', skew, reason, hchecked⟩ := h
  obtain ⟨signature, jwk, hs, hk, hv⟩ := signed_of_checkManifestAt hchecked
  rw [InBounds, checkManifestAt_of_verifies hs hk hv]

theorem verifyAuthMethods_eval (methods : List String) :
    ∃ r, (verifyAuthMethods .admission policy manifest methods).run.eval
      (hostWorld answer).handle s = (r, s) ∧
      (r = .ok none ↔ ∀ method ∈ methods, ∀ verifier, policy.authMethodVerifiers.lookup method =
        some verifier →
        ∃ reason, answer verifier manifest = .ok (true, reason)) := by
  induction methods with
  | nil => exact ⟨.ok none, rfl, by simp⟩
  | cons method methods ih =>
    obtain ⟨r, hr, hiff⟩ := ih
    rw [verifyAuthMethods]
    simp only [List.forall_mem_cons]
    cases hverifier : policy.authMethodVerifiers.lookup method with
    | none =>
      refine ⟨r, hr, hiff.trans (iff_and_self.mpr fun _ => ?_)⟩
      rintro _ ⟨⟩
    | some verifier =>
      have hcall : (hostCallback .admission verifier manifest).run.eval
          (hostWorld answer).handle s = (answer verifier manifest, s) := rfl
      have hone :
          (∀ verifier', some verifier = some verifier' → ∃ reason, answer verifier' manifest =
            .ok (true, reason)) ↔
          ∃ reason, answer verifier manifest = .ok (true, reason) := by simp
      rw [hone]
      simp only [Task.eval_run_bind, hcall]
      cases hanswer : answer verifier manifest with
      | error e => exact ⟨.error e, rfl, by simp⟩
      | ok told =>
        obtain ⟨ok, reason⟩ := told
        cases ok with
        | false => exact ⟨.ok (some reason), rfl, by simp⟩
        | true => exact ⟨r, hr, by simp [hiff]⟩

/-- What `admit_manifest` comes to: the check of signature and dates, then the policy. -/
theorem wouldAdmit_iff : WouldAdmit P answer policy manifest s ↔
    (∃ reason, checkManifestAt P manifest s.clock 300 = .ok (true, reason)) ∧
    Suits P answer policy manifest := by
  have hcheck : (checkManifest P .admission manifest 300).run.eval (hostWorld answer).handle s =
      (checkManifestAt P manifest s.clock 300, s) := rfl
  obtain ⟨methods, hmethods, hverified⟩ :=
    @verifyAuthMethods_eval answer policy manifest s manifest.authMethods
  rw [WouldAdmit, admitManifest]
  simp only [Task.eval_run_bind, hcheck]
  have hfails : ∀ {p : Prop}, ¬ p → ∀ reason : String,
      (∃ decision : AdmissionDecision, (.ok ⟨false, reason⟩ : Except Exc AdmissionDecision) =
        .ok decision ∧
        decision.accepted = true) ↔ p := by
    intro p hp reason
    refine iff_of_false ?_ hp
    rintro ⟨_, ⟨⟩, ⟨⟩⟩
  have hraises : ∀ {p : Prop}, ¬ p → ∀ e : Exc,
      (∃ decision : AdmissionDecision, (.error e : Except Exc AdmissionDecision) = .ok decision ∧
        decision.accepted = true) ↔ p := by
    intro p hp e
    refine iff_of_false ?_ hp
    rintro ⟨_, ⟨⟩, _⟩
  cases hchecked : checkManifestAt P manifest s.clock 300 with
  | error e => exact hraises (by simp) e
  | ok told =>
  obtain ⟨valid, reason⟩ := told
  cases valid with
  | false => exact hfails (by simp) reason
  | true =>
  simp only [Task.andThen_ok, Bool.not_true, Bool.false_eq_true, ↓reduceIte]
  cases hclaims : policyReason policy manifest with
  | some reason => exact hfails (fun h => by simp [h.2.claims] at hclaims) reason
  | none =>
  simp only [Task.eval_run_bind, hmethods]
  cases methods with
  | error e => exact hraises (fun h => by simpa using hverified.mpr h.2.authMethods) e
  | ok refused =>
  cases refused with
  | some reason => exact hfails (fun h => by simpa using hverified.mpr h.2.authMethods) reason
  | none =>
  have hmethods := hverified.mp rfl
  simp only [Task.andThen_ok, Task.eval_run_bind, raising, Task.run_lift, Task.eval_done]
  cases hendpoint : checkEndpoint P manifest.endpoint policy with
  | error e => exact hraises (fun h => by simp [h.2.endpoint] at hendpoint) e
  | ok refused =>
  cases refused with
  | some reason => exact hfails (fun h => by simp [h.2.endpoint] at hendpoint) reason
  | none =>
  simp only [Task.andThen_ok]
  cases hevidence : policy.evidenceVerifier with
  | none =>
    refine iff_of_true ⟨_, rfl, rfl⟩ ⟨⟨reason, rfl⟩, hclaims, hmethods, hendpoint, ?_⟩
    rw [hevidence]
    rintro _ ⟨⟩
  | some verifier =>
    have hcall : (hostCallback .admission verifier manifest).run.eval (hostWorld answer).handle s =
        (answer verifier manifest, s) := rfl
    simp only [Task.eval_run_bind, hcall]
    have hneeds : Suits P answer policy manifest → ∃ reason, answer verifier manifest =
        .ok (true, reason) :=
      fun h => h.evidence verifier hevidence
    cases hanswer : answer verifier manifest with
    | error e => exact hraises (fun h => by simpa [hanswer] using hneeds h.2) e
    | ok told =>
      obtain ⟨supports, reason'⟩ := told
      cases supports with
      | false => exact hfails (fun h => by simpa [hanswer] using hneeds h.2) reason'
      | true =>
        refine iff_of_true ⟨_, rfl, rfl⟩ ⟨⟨reason, rfl⟩, hclaims, hmethods, hendpoint, ?_⟩
        intro verifier' hverifier'
        obtain rfl : verifier = verifier' := Option.some.inj (hevidence.symm.trans hverifier')
        exact ⟨reason', hanswer⟩

end Admitting

/-- All that is cached would be admitted at that moment exactly if it is within its dates
and what refreshes cache suits the policy. -/
theorem writes_admissible_iff (P : Platform) (node : FederationNode)
    (answer : HostCallback → Manifest → Except Exc (Bool × String)) {s s' : NodeState}
    {ops : List (LifecycleOp × Except Exc Unit)} {tr : Trace} (hrun : Sequence P node s ops tr s')
    (hops : ∀ x ∈ ops, x.1 ≠ .hydrate)
    (hhost : ∀ ev ∈ tr, CallbackAnswers (telling answer) ev.eff ev.resp) :
    (∀ ev ∈ tr, ∀ manifest, ev.eff.caches manifest →
      WouldAdmit P answer node.admissionPolicy manifest ev.pre) ↔
    ∀ ev ∈ tr, ∀ manifest, ev.eff.caches manifest → InBounds manifest ev.pre.clock ∧
      (ev.eff.origin = .refresh → Suits P answer node.admissionPolicy manifest) := by
  have hputs : ∀ ev ∈ tr, Puts (fun o manifest => Checked P manifest ∧
      (o ≠ .refresh → Suits P answer node.admissionPolicy manifest)) ev.eff :=
    hrun.puts hops hhost fun _ =>
      putSections (fun o manifest _ hadmitted => ⟨hadmitted.checked, fun _ => hadmitted.suits⟩)
        fun manifest hchecked => ⟨hchecked, fun hne => absurd rfl hne⟩
  refine forall₂_congr fun ev hev => forall₂_congr fun manifest hcaches => ?_
  obtain ⟨hchecked, hintroduced⟩ := (hputs ev hev).caches hcaches
  rw [wouldAdmit_iff, checkManifestAt_iff_inBounds hchecked]
  by_cases ho : ev.eff.origin = .refresh
  · simp [ho]
  · simp [ho, hintroduced ho]

theorem playOps_hosted {P : Platform} {node : FederationNode} {env : Env} {ops : List LifecycleOp}
    {s : NodeState} {x : List (LifecycleOp × Except Exc Unit) × Trace × NodeState}
    (h : playOps P node env ops s = x) :
    ∀ ev ∈ x.2.1, CallbackAnswers (telling env.hostCallback) ev.eff ev.resp := by
  subst h
  induction ops generalizing s with
  | nil => simp [playOps]
  | cons op ops ih =>
    have hanswers : ∀ c s, CallbackAnswers (telling env.hostCallback) c (env.handle c s).1 := by
      rintro ⟨o, op⟩ s
      cases op
      case hostCallback => rfl
      all_goals trivial
    have hrun : Task.Runs (fun c _ r _ => CallbackAnswers (telling env.hostCallback) c r) Passes
        (op.run P node).run s _ _ _ := Task.runs_trace env.handle Passes.refl hanswers _ s
    exact List.forall_mem_append.mpr ⟨hrun.sem_of_mem, ih⟩

/-- `beta` with endpoints under `alpha.example` only. -/
def confined : FederationNode :=
  { beta with admissionPolicy :=
    { beta.admissionPolicy with allowedEndpointDomains := ["alpha.example"] } }

def movingPlatform : Platform := knowsDocuments [alphaText, movedText, bumpedText]
    [movedAlpha, bumpedAlpha] []

def servesAlpha (served : Manifest) : Env := serves [("https://alpha.example/manifest", served)] []

def movingOps : List LifecycleOp := [.operation admitAlpha, .operation refreshAlpha]

def admitAndRefresh (served : Manifest) :
    List (LifecycleOp × Except Exc Unit) × Trace × NodeState :=
  playOps movingPlatform confined (servesAlpha served) movingOps emptyNode

theorem admitAndRefresh_eq (served : Manifest) :
    playOps movingPlatform confined (servesAlpha served) movingOps emptyNode =
      admitAndRefresh served := rfl

theorem admitAndRefresh_hosted (served : Manifest) :
    ∀ ev ∈ (admitAndRefresh served).2.1, CallbackAnswers (telling silentWorld.hostCallback)
      ev.eff ev.resp :=
  fun ev hev => (playOps_hosted (admitAndRefresh_eq served) ev hev :)

def Call.cachesAt (c : Call) (endpoint : String) : Bool :=
  match c.op with
  | .cachePut manifest => manifest.endpoint == endpoint
  | _ => false

theorem caches_of_cachesAt {c : Call} {endpoint : String} (h : c.cachesAt endpoint = true) :
    ∃ manifest, c.caches manifest ∧ manifest.endpoint = endpoint := by
  obtain ⟨o, op⟩ := c
  cases op
  case cachePut manifest => exact ⟨manifest, rfl, eq_of_beq h⟩
  all_goals cases h

/-- `alpha`, admitted under its own domain, moves out of it with the next refresh. -/
theorem refresh_leaves_policy :
    ∃ ops tr s', Sequence movingPlatform confined emptyNode ops tr s' ∧ Empty confined emptyNode ∧
      ops.map Prod.fst = movingOps ∧
      (∀ ev ∈ tr, CallbackAnswers (telling silentWorld.hostCallback) ev.eff ev.resp) ∧
      ∃ ev ∈ tr, ∃ manifest, ev.eff.caches manifest ∧
        ¬ WouldAdmit movingPlatform silentWorld.hostCallback confined.admissionPolicy
          manifest ev.pre := by
  have hmoves : (admitAndRefresh movedAlpha).2.1.any
      (fun ev => ev.eff.cachesAt "https://moved.example") = true := by
    decide +kernel
  obtain ⟨ev, hev, hcaches⟩ := List.any_eq_true.mp hmoves
  obtain ⟨manifest, hmanifest, hendpoint⟩ := caches_of_cachesAt hcaches
  obtain ⟨hops, hrun, _⟩ := playOps_told (fun _ _ => rfl) (admitAndRefresh_eq movedAlpha)
  refine ⟨_, _, _, hrun, emptyNode_empty _, hops, admitAndRefresh_hosted movedAlpha, ev,
    hev, manifest, hmanifest, fun hadmits => ?_⟩
  have hsuits := (wouldAdmit_iff.mp hadmits).2.endpoint
  have hdenied : checkEndpoint movingPlatform "https://moved.example" confined.admissionPolicy =
      .ok (some "endpoint_domain_denied") := by decide +kernel
  rw [hendpoint, hdenied] at hsuits
  cases hsuits

/-- What is cached is within its dates and meets the claims and the endpoint of the policy. -/
def keepsPolicy (P : Platform) (policy : AdmissionPolicy) (ev : Event Call Resp NodeState) : Bool :=
  match ev.eff.op with
  | .cachePut manifest =>
    (((TimeDelta.ofSeconds 300 >>= boundsVerdict manifest.issuedAt manifest.expiresAt
      ev.pre.clock).toOption.map Prod.fst) ==
      some true) && decide (policyReason policy manifest = none) && decide
      (checkEndpoint P manifest.endpoint policy = .ok none)
  | .cacheReplace _ => false
  | _ => true

theorem keepsPolicy_caches {P : Platform}
    {answer : HostCallback → Manifest → Except Exc (Bool × String)} {policy : AdmissionPolicy}
    (hmethods : policy.authMethodVerifiers.entries = [])
    (hevidence : policy.evidenceVerifier = none) {ev : Event Call Resp NodeState}
    (h : keepsPolicy P policy ev = true) {manifest : Manifest} (hcaches : ev.eff.caches manifest) :
    InBounds manifest ev.pre.clock ∧ Suits P answer policy manifest := by
  obtain ⟨s, ⟨o, op⟩, r, s'⟩ := ev
  cases op
  case cachePut m =>
    obtain rfl : m = manifest := hcaches
    simp only [keepsPolicy, Bool.and_eq_true, beq_iff_eq, decide_eq_true_eq] at h
    obtain ⟨⟨hbounds, hclaims⟩, hendpoint⟩ := h
    obtain ⟨⟨_, reason⟩, htold, rfl⟩ := Option.map_eq_some_iff.mp hbounds
    refine ⟨⟨reason, eq_ok_of_toOption htold⟩, hclaims, ?_, hendpoint, by simp [hevidence]⟩
    intro method _ verifier hverifier
    have hmem := Keyed.mem_of_get (Option.map_eq_some_iff.mp hverifier).choose_spec.1
    rw [hmethods] at hmem
    cases hmem
  case cacheReplace => cases h
  all_goals exact hcaches.elim

/-- `alpha` only bumps its revision, and all that is cached would be admitted. -/
theorem bump_keeps_policy : (admitAndRefresh bumpedAlpha).1.map Prod.fst = movingOps ∧
    ∀ ev ∈ (admitAndRefresh bumpedAlpha).2.1, ∀ manifest, ev.eff.caches manifest →
      WouldAdmit movingPlatform silentWorld.hostCallback confined.admissionPolicy manifest ev.pre :=
        by
  obtain ⟨hops, hrun, _⟩ := playOps_told (fun _ _ => rfl) (admitAndRefresh_eq bumpedAlpha)
  have hkeeps : (admitAndRefresh bumpedAlpha).2.1.all
      (keepsPolicy movingPlatform confined.admissionPolicy) = true := by
    decide +kernel
  have hno : ∀ x ∈ (admitAndRefresh bumpedAlpha).1, x.1 ≠ .hydrate := by
    intro x hx
    have hmem := List.mem_map_of_mem (f := Prod.fst) hx
    rw [hops] at hmem
    rcases List.mem_pair.mp hmem with h | h <;> simp [h]
  refine ⟨hops, (writes_admissible_iff movingPlatform confined silentWorld.hostCallback hrun hno
    (admitAndRefresh_hosted bumpedAlpha)).mpr ?_⟩
  intro ev hev manifest hcaches
  obtain ⟨hbounds, hsuits⟩ := keepsPolicy_caches rfl rfl (List.all_eq_true.mp hkeeps ev hev) hcaches
  exact ⟨hbounds, fun _ => hsuits⟩

end Federlet
