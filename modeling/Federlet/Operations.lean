import Federlet.Continuity
import Federlet.Node

/-! What the operations of a node are made of: calls that only read, and the few
sections that write. Each operation is taken apart once, with what it has
established by the time it reaches a section. -/

namespace Federlet

open Coop

/-- What the host's callbacks may answer. -/
abbrev Callbacks := HostCallback → Manifest → Except Exc (Bool × String) → Prop

def CallbackAnswers (callbacks : Callbacks) (c : Call) : Resp c → Prop :=
  match c with
  | ⟨_, .hostCallback callback manifest⟩ => callbacks callback manifest
  | _ => fun _ => True

/-- What is concluded from an answer: a callback's own, and that the table and the
cache file what they hold under its node, each node once. -/
def Answered (callbacks : Callbacks) (c : Call) : Resp c → Prop :=
  match c with
  | ⟨_, .hostCallback callback manifest⟩ => callbacks callback manifest
  | ⟨_, .tableGet nodeId⟩ => fun r => ∀ rec, r = .ok (some rec) → rec.nodeId = nodeId
  | ⟨_, .tableValues⟩ =>
    fun r => ∀ records, r = .ok records → (records.map MemberRecord.nodeId).Nodup
  | ⟨_, .cacheGet nodeId⟩ => fun r => ∀ manifest, r = some manifest → manifest.nodeId = nodeId
  | _ => fun _ => True

theorem Does.answered {callbacks : Callbacks} {c : Call} {s s' : NodeState} {r : Resp c}
    (h : Does c s r s') (hcall : CallbackAnswers callbacks c r) : Answered callbacks c r := by
  obtain ⟨o, op⟩ := c
  cases op
  case hostCallback callback manifest => exact hcall
  case cacheGet nodeId =>
    obtain ⟨rfl, _⟩ := h
    exact fun manifest hm => Keyed.key_of_get hm
  case tableGet nodeId =>
    rintro rec rfl
    rcases h with ⟨e, he, _⟩ | ⟨hrec, _⟩
    · cases he
    · exact Keyed.key_of_get (Except.ok.inj hrec).symm
  case tableValues =>
    rintro records rfl
    rcases h with ⟨e, he, _⟩ | ⟨hrecords, _⟩
    · cases he
    · exact Except.ok.inj hrecords ▸ s.membershipTable.nodup
  all_goals trivial

/-- The calls that write neither the cache nor the manifest store. -/
def Call.sparesManifests (c : Call) : Prop :=
  match c.op with
  | .cachePut _ | .cachePop _ | .cacheReplace _ | .storeUpsert _ | .storeDelete _ => False
  | _ => True

theorem Does.manifests {c : Call} {s s' : NodeState} {r : Resp c} (hc : c.sparesManifests)
    (h : Does c s r s') :
    s'.peerManifests = s.peerManifests ∧ s'.manifestStore = s.manifestStore := by
  obtain ⟨o, op⟩ := c
  by_cases hq : Call.quiet ⟨o, op⟩
  · rw [h.eq_of_quiet hq]
    exact ⟨rfl, rfl⟩
  cases op
  case tableUpsert | nonceSet =>
    rcases h with ⟨e, _, rfl⟩ | ⟨_, rfl⟩ <;> exact ⟨rfl, rfl⟩
  all_goals first | exact hc.elim | exact absurd trivial hq

theorem Outside.manifests {s s' : NodeState} (h : Outside s s') :
    s'.peerManifests = s.peerManifests ∧ s'.manifestStore = s.manifestStore := by
  rcases h with ⟨t, _, rfl⟩ | ⟨n, rfl⟩ <;> exact ⟨rfl, rfl⟩

/-- Callbacks that may answer anything. -/
def anyCallback : Callbacks := fun _ _ _ => True

theorem callbackAnswers_any (c : Call) (r : Resp c) : CallbackAnswers anyCallback c r := by
  obtain ⟨o, op⟩ := c
  cases op <;> trivial

abbrev Sections := (γ : Type) → Task Call Resp γ → Prop

/-- The calls that ask the clock, the network and the host, and no store. -/
def Call.outward (c : Call) : Prop :=
  match c.op with
  | .utcNow | .getaddrinfo _ | .httpGet _ | .httpRequest _ _ _ _ | .hostCallback _ _ => True
  | _ => False

def Call.offline (c : Call) : Prop :=
  match c.op with
  | .utcNow | .getaddrinfo _ | .hostCallback _ _ => True
  | _ => False

theorem Call.offline.outward {c : Call} (h : c.offline) : c.outward := by
  obtain ⟨o, op⟩ := c
  cases op <;> first | exact h.elim | trivial

theorem Call.outward.quiet {c : Call} (h : c.outward) : c.quiet := by
  obtain ⟨o, op⟩ := c
  cases op <;> first | exact h.elim | trivial

/-- A coroutine that makes only the given calls outside the given sections and
whose result, if it returns one, satisfies `Q`. -/
def Routine (calls : Call → Prop) (callbacks : Callbacks) (sections : Sections) {α : Type}
    (Q : α → Prop) (t : Py α) : Prop :=
  Task.Composed calls (Answered callbacks) sections (fun r => ∀ a, r = .ok a → Q a) t.run

namespace Routine

variable {calls : Call → Prop} {callbacks : Callbacks} {sections : Sections} {α β : Type}

theorem pure {Q : α → Prop} {a : α} (h : Q a) :
    Routine calls callbacks sections Q (Pure.pure a : Py α) :=
  .done fun _ hb => Except.ok.inj hb ▸ h

theorem throw {Q : α → Prop} (e : Exc) :
    Routine calls callbacks sections Q (MonadExcept.throw e : Py α) :=
  .done fun _ hb => nomatch hb

theorem raising {x : Except Exc α} :
    Routine calls callbacks sections (fun a => x = .ok a) (Federlet.raising x) :=
  .done fun _ hb => hb

theorem bind {P : α → Prop} {Q : β → Prop} {t : Py α} {f : α → Py β}
    (ht : Routine calls callbacks sections P t)
    (hf : ∀ a, P a → Routine calls callbacks sections Q (f a)) :
    Routine calls callbacks sections Q (t >>= f) :=
  Task.composed_run_bind ht (fun a ha => hf a (ha a rfl)) (fun _ _ _ hb => nomatch hb)

theorem mono {P Q : α → Prop} {t : Py α} (h : Routine calls callbacks sections P t)
    (hPQ : ∀ a, P a → Q a) :
    Routine calls callbacks sections Q t :=
  Task.Composed.mono h fun _ hr a ha => hPQ a (hr a ha)

theorem attempt {P : α → Prop} {t : Py α} (h : Routine calls callbacks sections P t) :
    Routine calls callbacks sections (fun r => ∀ a, r = .ok a → P a) (Task.Raising.attempt t) := by
  refine Task.Composed.mono (Task.composed_attempt h) ?_
  rintro _ ⟨x, rfl, hx⟩ r hr
  exact Except.ok.inj hr ▸ hx

theorem of_section {t : Py α} (h : sections _ t.run) :
    Routine calls callbacks sections (fun _ => True) t :=
  (Task.Composed.of_section h).mono fun _ _ _ _ => trivial

theorem call {c : Call} (hc : calls c) (g : Resp c → Except Exc α) :
    Routine calls callbacks sections (fun a => ∃ r, Answered callbacks c r ∧ g r = .ok a)
      (ExceptT.mk (.call c fun r => .done (g r))) :=
  Task.Composed.call hc fun r hr => .done fun _ ha => ⟨r, hr, ha⟩

theorem read {c : Call} (hc : calls c) (g : Resp c → Except Exc α) :
    Routine calls callbacks sections (fun _ => True) (ExceptT.mk (.call c fun r => .done (g r))) :=
  (call hc g).mono fun _ _ => trivial

theorem quiet {Q : α → Prop} {t : Py α} (h : Routine Call.outward callbacks sections Q t) :
    Routine Call.quiet callbacks sections Q t :=
  Task.Composed.widen (fun _ hc => hc.quiet) h

theorem outward {Q : α → Prop} {t : Py α} (h : Routine Call.offline callbacks sections Q t) :
    Routine Call.outward callbacks sections Q t :=
  Task.Composed.widen (fun _ hc => hc.outward) h

end Routine

def Checked (P : Platform) (manifest : Manifest) : Prop :=
  ∃ now skew reason, checkManifestAt P manifest now skew = .ok (true, reason)

/-- The manifest passed `admit_manifest`: what that says at any later time. -/
structure Admitted (P : Platform) (callbacks : Callbacks) (policy : AdmissionPolicy)
    (manifest : Manifest) :
    Prop where
  checked : Checked P manifest
  claims : policyReason policy manifest = none
  authMethods : ∀ method ∈ manifest.authMethods, ∀ verifier,
    policy.authMethodVerifiers.lookup method = some verifier → ∃ reason, callbacks verifier manifest
      (.ok (true, reason))
  endpoint : checkEndpoint P manifest.endpoint policy = .ok none
  evidence : ∀ verifier, policy.evidenceVerifier = some verifier →
    ∃ reason, callbacks verifier manifest (.ok (true, reason))

section

variable {P : Platform} {callbacks : Callbacks} {sections : Sections}

theorem utcNow_routine (o : Origin) :
    Routine Call.offline callbacks sections (fun _ => True) (utcNow o) :=
  Routine.read (c := ⟨o, .utcNow⟩) trivial _

theorem checkManifest_routine (o : Origin) (manifest : Manifest) (skew : Int) :
    Routine Call.offline callbacks sections (fun r => r.1 = true → Checked P manifest)
      (checkManifest P o manifest skew) := by
  refine (utcNow_routine o).bind fun now _ => ?_
  refine Routine.raising.mono ?_
  rintro ⟨ok, reason⟩ h rfl
  exact ⟨now, skew, reason, h⟩

theorem assertPublicHost_routine (o : Origin) (url : String) (allowPrivate : Bool) :
    Routine Call.offline callbacks sections (fun _ => True)
      (assertPublicHost P o url allowPrivate) := by
  refine Routine.raising.bind fun parsed _ => ?_
  dsimp only
  split
  · exact Routine.throw _
  split
  · exact Routine.pure trivial
  refine Routine.bind (Routine.read (c := ⟨o, .getaddrinfo _⟩) trivial _) fun addresses _ => ?_
  exact Routine.raising.mono fun _ _ => trivial

theorem fetched_routine (o : Origin) (r : Response) (skew : Int) :
    Routine Call.offline callbacks sections (Checked P) (do
      raising r.raiseForStatus
      let body ← raising r.json
      let manifest ← raising (P.validateManifest body)
      let (ok, reason) ← checkManifest P o manifest skew
      if !ok then throw (.manifestVerificationError reason)
      return manifest) := by
  refine Routine.raising.bind fun _ _ => Routine.raising.bind fun body _ => ?_
  refine Routine.raising.bind fun manifest _ => ?_
  refine (checkManifest_routine o manifest skew).bind ?_
  rintro ⟨ok, reason⟩ hok
  cases ok with
  | false => exact Routine.throw _
  | true => exact Routine.pure (hok rfl)

theorem fetchManifest_routine (client : FederationClient) (o : Origin) (url : String) (skew : Int) :
    Routine Call.outward callbacks sections (Checked P) (fetchManifest P client o url skew) := by
  refine (assertPublicHost_routine o url _).outward.bind fun _ _ => ?_
  refine Routine.bind (Routine.read (c := ⟨o, .httpGet url⟩) trivial _) fun r _ => ?_
  exact (fetched_routine o r skew).outward

theorem hostCallback_routine (o : Origin) (callback : HostCallback) (manifest : Manifest) :
    Routine Call.offline callbacks sections (fun r => callbacks callback manifest (.ok r))
      (hostCallback o callback manifest) := by
  refine (Routine.call (c := ⟨o, .hostCallback callback manifest⟩) trivial _).mono ?_
  rintro a ⟨r, hr, rfl⟩
  exact hr

theorem verifyAuthMethods_routine (o : Origin) (policy : AdmissionPolicy) (manifest : Manifest)
    (methods : List String) :
    Routine Call.offline callbacks sections (fun r => r = none → ∀ method ∈ methods, ∀ verifier,
      policy.authMethodVerifiers.lookup method = some verifier →
        ∃ reason, callbacks verifier manifest (.ok (true, reason)))
      (verifyAuthMethods o policy manifest methods) := by
  induction methods with
  | nil => exact Routine.pure fun _ => by simp
  | cons method rest ih =>
    rw [verifyAuthMethods]
    split
    · rename_i hnone
      refine ih.mono fun r hr he => List.forall_mem_cons.mpr ⟨?_, hr he⟩
      intro verifier hv
      simp [hnone] at hv
    · rename_i verifier hverifier
      refine (hostCallback_routine o verifier manifest).bind ?_
      rintro ⟨ok, reason⟩ hcall
      cases ok with
      | false => exact Routine.pure fun he => nomatch he
      | true =>
        refine ih.mono fun r hr he => List.forall_mem_cons.mpr ⟨?_, hr he⟩
        intro verifier' hv
        obtain rfl : verifier = verifier' := Option.some.inj (hverifier.symm.trans hv)
        exact ⟨reason, hcall⟩

theorem admitManifest_routine (o : Origin) (manifest : Manifest) (policy : AdmissionPolicy)
    (skew : Int) :
    Routine Call.offline callbacks sections
      (fun d => d.accepted = true → Admitted P callbacks policy manifest)
      (admitManifest P o manifest policy skew) := by
  refine (checkManifest_routine o manifest skew).bind ?_
  rintro ⟨ok, reason⟩ hchecked
  cases ok with
  | false => exact Routine.pure fun he => nomatch he
  | true =>
    simp only [Bool.not_true, Bool.false_eq_true, ↓reduceIte]
    cases hclaims : policyReason policy manifest with
    | some reason => exact Routine.pure fun he => nomatch he
    | none =>
      refine (verifyAuthMethods_routine o policy manifest _).bind fun r hmethods => ?_
      cases r with
      | some reason => exact Routine.pure fun he => nomatch he
      | none =>
        refine Routine.raising.bind fun r hendpoint => ?_
        cases r with
        | some reason => exact Routine.pure fun he => nomatch he
        | none =>
          have hchecks := hchecked rfl
          have hcalls := hmethods rfl
          cases hevidence : policy.evidenceVerifier with
          | none =>
            exact Routine.pure fun _ => ⟨hchecks, hclaims, hcalls, hendpoint, by simp [hevidence]⟩
          | some verifier =>
            refine (hostCallback_routine o verifier manifest).bind ?_
            rintro ⟨ok, reason⟩ hcall
            cases ok with
            | false => exact Routine.pure fun he => nomatch he
            | true =>
              refine Routine.pure fun _ => ⟨hchecks, hclaims, hcalls, hendpoint, ?_⟩
              intro verifier' hv
              obtain rfl : verifier = verifier' := Option.some.inj (hevidence.symm.trans hv)
              exact ⟨reason, hcall⟩

/-- What a continuing decision on a refreshed manifest has established. -/
structure Continued (P : Platform) (o : Origin) (policy : Option KeyContinuityPolicy)
    (current manifest : Manifest) :
    Prop where
  checked : Checked P manifest
  sameNode : manifest.nodeId = current.nodeId
  revision : current.revision ≤ manifest.revision
  continuity : (policy.getD {}).evidenceVerifier = none → Continues P o current manifest policy

/-- A refresh decision that keeps the peer brings a manifest that continues its
current one. -/
def Keeps (P : Platform) (o : Origin) (policy : Option KeyContinuityPolicy) (current : Manifest)
    (decision : ManifestRefreshDecision) : Prop :=
  decision.action = .accept ∨ decision.action = .unchanged →
    ∀ manifest, decision.manifest = some manifest → Continued P o policy current manifest

theorem sameNode_of_continuityByKeys {current refreshed : Manifest} {policy : KeyContinuityPolicy}
    {r : Option KeyContinuityDecision} (h : continuityByKeys P current refreshed policy = .ok r)
    (hr : ∀ d, r = some d → d.action = .accept) : refreshed.nodeId = current.nodeId := by
  by_contra hne
  rw [continuityByKeys, if_pos fun he => hne he.symm] at h
  cases h
  exact absurd (hr _ rfl) (by simp)

theorem checkKeyContinuity_routine (o : Origin) (current refreshed : Manifest)
    (policy : Option KeyContinuityPolicy) :
    Routine Call.offline callbacks sections
      (fun d => d.action = .accept → refreshed.nodeId = current.nodeId ∧
      ((policy.getD {}).evidenceVerifier = none → Continues P o current refreshed policy))
      (checkKeyContinuity P o current refreshed policy) := by
  by_cases hevidence : (policy.getD {}).evidenceVerifier = none
  · have hrun := @checkKeyContinuity_run P o current refreshed policy hevidence
    rw [Routine, hrun]
    refine .done ?_
    rintro ⟨action, reason⟩ hd rfl
    have hcont : Continues P o current refreshed policy := ⟨reason, by rw [hrun, hd]⟩
    exact ⟨((continues_iff hevidence).mp hcont).1.symm, fun _ => hcont⟩
  · refine Routine.raising.bind fun r hr => ?_
    have hnode := sameNode_of_continuityByKeys hr
    cases r with
    | some decision =>
      refine Routine.pure fun haccept => ⟨hnode ?_, fun hn => absurd hn hevidence⟩
      rintro _ ⟨⟩
      exact haccept
    | none =>
      have hsame : refreshed.nodeId = current.nodeId := hnode fun _ h => nomatch h
      refine Routine.mono (P := fun _ => True) ?_ fun d _ _ =>
        ⟨hsame, fun hn => absurd hn hevidence⟩
      dsimp only
      split
      · refine (hostCallback_routine o _ refreshed).bind fun r _ => ?_
        split
        · exact Routine.pure trivial
        split
        · exact Routine.pure trivial
        · exact Routine.pure trivial
      · exact Routine.pure trivial

theorem refreshFailure_manifest {oldRevision : Int} {exc : Exc} {d : ManifestRefreshDecision}
    (h : refreshFailure oldRevision exc = .ok d) : d.manifest = none := by
  simp only [refreshFailure] at h
  repeat' split at h
  all_goals cases h <;> rfl

theorem refreshPeerManifest_routine (client : FederationClient) (current : Manifest) (url : String)
    (policy : Option KeyContinuityPolicy) (skew : Int) :
    Routine Call.outward callbacks sections (Keeps P (.fetch current.nodeId) policy current)
      (refreshPeerManifest P client current url policy skew) := by
  refine (fetchManifest_routine client _ url skew).attempt.bind ?_
  rintro (exc | refreshed) hchecked
  · refine Routine.raising.mono fun d hd _ manifest hm => ?_
    simp [refreshFailure_manifest hd] at hm
  · dsimp only
    by_cases hrollback : refreshed.revision < current.revision
    · rw [if_pos hrollback]
      refine Routine.pure fun hkeep => ?_
      simp at hkeep
    · rw [if_neg hrollback]
      refine (checkKeyContinuity_routine _ current refreshed policy).outward.bind
        fun continuity hcont => ?_
      refine Routine.pure fun hkeep manifest hm => ?_
      by_cases haccept : continuity.action = .accept
      · obtain ⟨hnode, hcontinues⟩ := hcont haccept
        obtain rfl : refreshed = manifest := by
          simp only [continuityDecision, haccept, ne_eq, not_true_eq_false, ↓reduceIte] at hm
          split at hm <;> exact Option.some.inj hm
        exact ⟨hchecked refreshed rfl, hnode, Int.not_lt.mp hrollback, hcontinues⟩
      · simp only [continuityDecision, ne_eq, haccept, not_false_eq_true, ↓reduceIte] at hkeep
        cases hc : continuity.action <;> simp [hc, KeyContinuityAction.toRefresh] at hkeep haccept

theorem eligiblePeers_routine {calls : Call → Prop} {o : Origin} (hnow : calls ⟨o, .utcNow⟩)
    (hvalues : calls ⟨o, .tableValues⟩) :
    Routine calls callbacks sections (fun records => (records.map MemberRecord.nodeId).Nodup)
      (eligiblePeers o) := by
  refine Routine.bind (Routine.read (c := ⟨o, .utcNow⟩) hnow _) fun now _ => ?_
  refine Routine.bind (Routine.call (c := ⟨o, .tableValues⟩) hvalues _) ?_
  rintro records ⟨r, hnodup, hr⟩
  exact Routine.pure ((hnodup records hr).sublist (List.filter_sublist.map _))

theorem send_routine (o : Origin) (target method url : String) (since : Option String) :
    Routine Call.outward callbacks sections (fun _ => True) (send o target method url since) := by
  refine Routine.bind (Routine.read (c := ⟨o, .httpRequest _ _ _ _⟩) trivial _) fun r _ => ?_
  exact Routine.raising.bind fun _ _ => Routine.pure trivial

theorem introduce_routine (o : Origin) (peer : Manifest) :
    Routine Call.outward callbacks sections (fun _ => True) (introduce P o peer) := by
  refine (send_routine o _ _ _ _).bind fun r _ => Routine.raising.bind fun body _ => ?_
  refine Routine.raising.bind fun resp _ => Routine.raising.bind fun verified _ => ?_
  split
  · exact Routine.throw _
  · exact Routine.pure trivial

theorem getMembers_routine (o : Origin) (peer : Manifest) (since : Option String) :
    Routine Call.outward callbacks sections (fun _ => True) (getMembers P o peer since) := by
  refine (send_routine o _ _ _ _).bind fun r _ => Routine.raising.bind fun body _ => ?_
  refine Routine.raising.bind fun resp _ => Routine.raising.bind fun verified _ => ?_
  split
  · exact Routine.throw _
  · exact Routine.pure trivial

/-- Every accepted outcome carries an admitted manifest. -/
def DiscoveryRefreshReport.Admits (P : Platform) (callbacks : Callbacks) (policy : AdmissionPolicy)
    (report : DiscoveryRefreshReport) : Prop :=
  ∀ o ∈ report.accepted, ∀ manifest, o.manifest = some manifest →
    Admitted P callbacks policy manifest

theorem DiscoveryRefreshReport.Admits.accept {policy : AdmissionPolicy}
    {report : DiscoveryRefreshReport} (h : report.Admits P callbacks policy) {o : DiscoveryOutcome}
    (ho : ∀ manifest, o.manifest = some manifest → Admitted P callbacks policy manifest) :
    (report.accept o).Admits P callbacks policy := by
  intro o' ho'
  rcases List.mem_append.mp ho' with hmem | hmem
  · exact h o' hmem
  · rw [List.mem_singleton.mp hmem]
    exact ho

section Discovery

variable {client : FederationClient} {policy : AdmissionPolicy} {skew : Int}
  (hupsert : ∀ rec : MemberRecord, rec.Fresh → rec.nodeId ≠ client.nodeId →
    sections _ (MembershipTable.upsert .discovery rec).run)

include hupsert

theorem processRef_routine (ref : MemberRef) (source : String) {outcomes : DiscoveryRefreshReport}
    (hin : outcomes.Admits P callbacks policy) :
    Routine Call.quiet callbacks sections (fun r => r.Admits P callbacks policy)
      (processRef P client policy skew ref source outcomes) := by
  refine (fetchManifest_routine client _ _ skew).quiet.attempt.bind ?_
  rintro (exc | manifest) _
  · exact Routine.pure hin
  · dsimp only
    split
    · exact Routine.pure hin
    split
    · exact Routine.pure hin
    rename_i hself
    refine (admitManifest_routine _ manifest policy skew).outward.quiet.bind
      fun decision hadmitted => ?_
    cases hd : decision.accepted with
    | false => exact Routine.pure hin
    | true =>
      simp only [Bool.not_true, Bool.false_eq_true, ↓reduceIte]
      refine (utcNow_routine _).outward.quiet.bind fun now _ => ?_
      refine (Routine.of_section (hupsert _ ⟨rfl, rfl, rfl⟩ hself)).bind fun _ _ =>
        Routine.pure (hin.accept ?_)
      rintro _ ⟨⟩
      exact hadmitted hd

theorem processRefs_routine (cap : Int) (source : String) (refs : List MemberRef) (index : Nat)
    {round : DiscoveryRound} (hin : round.outcomes.Admits P callbacks policy) :
    Routine Call.quiet callbacks sections (fun r => r.outcomes.Admits P callbacks policy)
      (processRefs P client policy skew cap source refs index round) := by
  induction refs generalizing index round with
  | nil => exact Routine.pure hin
  | cons ref refs ih =>
    rw [processRefs]
    split
    · exact ih _ hin
    split
    · exact ih _ hin
    refine Routine.bind (Routine.read (c := ⟨.discovery, .tableGet ref.nodeId⟩) trivial _)
      fun known _ => ?_
    cases known with
    | some _ => exact ih _ hin
    | none =>
      dsimp only
      split
      · exact ih _ hin
      refine (processRef_routine hupsert ref source hin).bind fun outcomes hout => ?_
      exact ih _ hout

theorem processMembers_routine (ref : Nat) (cap : Int) (since : Option String)
    (records : List MemberRecord) {round : DiscoveryRound}
    (hin : round.outcomes.Admits P callbacks policy) :
    Routine Call.quiet callbacks sections (fun r => r.outcomes.Admits P callbacks policy)
      (processMembers P client policy skew ref cap since records round) := by
  induction records generalizing round with
  | nil => exact Routine.pure hin
  | cons rec records ih =>
    rw [processMembers]
    refine Routine.bind (Routine.read (c := ⟨.discovery, .cacheGetAt ref rec.nodeId⟩) trivial _)
      fun peer _ => ?_
    cases peer with
    | none => exact ih hin
    | some peerManifest =>
      refine (getMembers_routine _ peerManifest since).quiet.attempt.bind ?_
      rintro (exc | members) _
      · exact ih hin
      · exact (processRefs_routine hupsert cap _ _ 0 hin).bind fun round hout => ih hout

theorem refreshDiscoveredMembers_routine (ref : Nat) (cap : Int) (since : Option String) :
    Routine Call.quiet callbacks sections (fun r => r.Admits P callbacks policy)
      (refreshDiscoveredMembers P client policy skew ref cap since) := by
  refine (eligiblePeers_routine trivial trivial).bind fun records _ => ?_
  have hempty : ({} : DiscoveryRound).outcomes.Admits P callbacks policy :=
    fun o ho => absurd ho List.not_mem_nil
  exact (processMembers_routine hupsert ref cap since records hempty).bind fun round hr =>
    Routine.pure hr

end Discovery

def SeedBootstrapReport.Admits (P : Platform) (callbacks : Callbacks) (policy : AdmissionPolicy)
    (report : SeedBootstrapReport) : Prop :=
  ∀ o ∈ report.accepted, ∀ manifest, o.seedManifest = some manifest →
    Admitted P callbacks policy manifest

theorem bootstrapSeed_routine (client : FederationClient) (policy : AdmissionPolicy) (skew : Int)
    (url : String) {report : SeedBootstrapReport} (hin : report.Admits P callbacks policy) :
    Routine Call.outward callbacks sections (fun r => r.Admits P callbacks policy)
      (bootstrapSeed P client policy skew url report) := by
  refine (fetchManifest_routine client _ url skew).attempt.bind ?_
  rintro (exc | manifest) _
  · exact Routine.pure hin
  · refine (admitManifest_routine _ manifest policy skew).outward.bind fun decision hadmitted => ?_
    cases hd : decision.accepted with
    | false => exact Routine.pure hin
    | true =>
      simp only [Bool.not_true, Bool.false_eq_true, ↓reduceIte]
      refine (introduce_routine _ manifest).attempt.bind ?_
      rintro (exc | response) _
      · exact Routine.pure hin
      · dsimp only
        split
        · refine Routine.pure fun o ho m hm => ?_
          rcases List.mem_append.mp ho with hmem | hmem
          · exact hin o hmem m hm
          · rw [List.mem_singleton.mp hmem] at hm
            exact Option.some.inj hm ▸ hadmitted hd
        · exact Routine.pure hin

theorem bootstrapFromSeeds_routine (client : FederationClient)
    (policy : AdmissionPolicy) (skew : Int) (urls : List String) {report : SeedBootstrapReport}
    (hin : report.Admits P callbacks policy) :
    Routine Call.outward callbacks sections (fun r => r.Admits P callbacks policy)
      (Federlet.bootstrapFromSeeds P client policy skew urls report) := by
  induction urls generalizing report with
  | nil => exact Routine.pure hin
  | cons url urls ih =>
    exact (bootstrapSeed_routine client policy skew url hin).bind fun r hr => ih hr

theorem gatherRefreshes_routine (client : FederationClient)
    (policy : Option KeyContinuityPolicy) (skew : Int) (targets : List (Manifest × String)) :
    Routine Call.outward callbacks sections
      (fun rs => ∀ r ∈ rs, ∀ d, r = .ok d → ∃ current ∈ targets.map Prod.fst,
      d.1 = current.nodeId ∧ Keeps P (.fetch current.nodeId) policy current d.2)
      (gatherRefreshes P client policy skew targets) := by
  induction targets with
  | nil => exact Routine.pure (by simp)
  | cons target targets ih =>
    obtain ⟨peer, url⟩ := target
    refine (refreshPeerManifest_routine client peer url policy skew).attempt.bind fun one hone => ?_
    refine ih.bind fun others hothers => Routine.pure ?_
    intro r hr d hd
    rcases List.mem_cons.mp hr with rfl | hmem
    · cases one with
      | error e => cases hd
      | ok decision =>
        cases hd
        exact ⟨peer, List.mem_cons_self, rfl, hone decision rfl⟩
    · obtain ⟨current, hc, h⟩ := hothers r hmem d hd
      exact ⟨current, List.mem_cons_of_mem _ hc, h⟩

theorem mem_of_gathered {α : Type} {rs : List (Except Exc α)} {as : List α}
    (h : gathered rs = .ok as) :
    ∀ a ∈ as, .ok a ∈ rs := by
  induction rs generalizing as with
  | nil =>
    cases h
    simp
  | cons r rs ih =>
    cases r with
    | error e => cases h
    | ok a =>
      cases hg : gathered rs with
      | error e => simp [gathered, hg, bind, Except.bind] at h
      | ok others =>
        simp only [gathered, hg, bind, Except.bind, Pure.pure, Except.pure, Except.ok.injEq] at h
        subst h
        intro b hb
        rcases List.mem_cons.mp hb with rfl | hmem
        · exact List.mem_cons_self
        · exact List.mem_cons_of_mem _ (ih hg b hmem)

theorem refreshAllManifests_routine (client : FederationClient)
    (policy : Option KeyContinuityPolicy) (skew : Int) (targets : List (Manifest × String)) :
    Routine Call.outward callbacks sections (fun ds => ∀ d ∈ ds, ∃ current ∈ targets.map Prod.fst,
      d.1 = current.nodeId ∧ Keeps P (.fetch current.nodeId) policy current d.2)
      (refreshAllManifests P client targets policy skew) := by
  refine (gatherRefreshes_routine client policy skew targets).bind fun rs hrs => ?_
  refine Routine.raising.mono fun ds hds d hd => ?_
  exact hrs _ (mem_of_gathered hds d hd) d rfl

end

/-- A decision on a node that keeps it brings that node's own verified manifest. -/
def FitsNode (P : Platform) (nodeId : String) (decision : ManifestRefreshDecision) : Prop :=
  decision.action = .accept ∨ decision.action = .unchanged →
    ∀ manifest, decision.manifest = some manifest → manifest.nodeId = nodeId ∧ Checked P manifest

theorem Keeps.fitsNode {P : Platform} {o : Origin} {policy : Option KeyContinuityPolicy}
    {current : Manifest} {decision : ManifestRefreshDecision}
    (h : Keeps P o policy current decision) :
    FitsNode P current.nodeId decision := by
  intro hkeep manifest hm
  have hcont := h hkeep manifest hm
  exact ⟨hcont.sameNode, hcont.checked⟩

theorem fitsNode_unknownPeer (P : Platform) (nodeId : String) :
    FitsNode P nodeId FederationNode.unknownPeer := by
  intro hkeep
  simp [FederationNode.unknownPeer] at hkeep

namespace FederationNode

section

variable {P : Platform} {node : FederationNode} {callbacks : Callbacks} {sections : Sections}

theorem admitPeer_routine (manifest : Manifest) (url : Option String) (skew : Int)
    (hrecord : ∀ url, Admitted P callbacks node.admissionPolicy manifest →
      sections _ (node.recordPeer .admission manifest url).run) :
    Routine Call.quiet callbacks sections (fun _ => True) (node.admitPeer P manifest url skew) := by
  refine (admitManifest_routine _ manifest _ skew).outward.quiet.bind fun decision hadmitted => ?_
  cases hd : decision.accepted with
  | false => exact Routine.pure trivial
  | true =>
    simp only [↓reduceIte]
    split
    · exact (Routine.of_section (hrecord _ (hadmitted hd))).bind fun _ _ => Routine.pure trivial
    · exact Routine.pure trivial

theorem bootstrapFromSeeds_routine (urls : List String) (skew : Int)
    (hrecord : ∀ manifest url, Admitted P callbacks node.admissionPolicy manifest →
      sections _ (node.recordPeer .bootstrap manifest url).run) :
    Routine Call.quiet callbacks sections (fun _ => True) (node.bootstrapFromSeeds P urls skew) :=
  by
  have hseeds : ∀ outcomes : List SeedBootstrapOutcome, (∀ o ∈ outcomes, ∀ manifest,
      o.seedManifest = some manifest → Admitted P callbacks node.admissionPolicy manifest) →
      Routine Call.quiet callbacks sections (fun _ => True) (node.recordSeeds outcomes) := by
    intro outcomes
    induction outcomes with
    | nil => exact fun _ => Routine.pure trivial
    | cons outcome rest ih =>
      intro hall
      obtain ⟨hout, hrest⟩ := List.forall_mem_cons.mp hall
      rw [recordSeeds]
      split
      · rename_i manifest hm
        exact (Routine.of_section (hrecord _ _ (hout manifest hm))).bind fun _ _ => ih hrest
      · exact ih hrest
  have hempty : ({} : SeedBootstrapReport).Admits P callbacks node.admissionPolicy :=
    fun o ho => absurd ho List.not_mem_nil
  refine (Federlet.bootstrapFromSeeds_routine node.client _ skew urls hempty).quiet.bind
    fun report hr => ?_
  exact (hseeds _ hr).bind fun _ _ => Routine.pure trivial

theorem discover_routine (skew cap : Int) (since : Option String)
    (hupsert : ∀ rec : MemberRecord, rec.Fresh → rec.nodeId ≠ node.nodeId →
      sections _ (MembershipTable.upsert .discovery rec).run)
    (hremember : ∀ manifest, Admitted P callbacks node.admissionPolicy manifest →
      sections _ (locked (node.rememberManifest .discovery manifest)).run) :
    Routine Call.quiet callbacks sections (fun _ => True) (node.discover P skew cap since) := by
  have houtcomes : ∀ outcomes : List DiscoveryOutcome, (∀ o ∈ outcomes, ∀ manifest,
      o.manifest = some manifest → Admitted P callbacks node.admissionPolicy manifest) →
      Routine Call.quiet callbacks sections (fun _ => True) (node.rememberDiscovered outcomes) := by
    intro outcomes
    induction outcomes with
    | nil => exact fun _ => Routine.pure trivial
    | cons outcome rest ih =>
      intro hall
      obtain ⟨hout, hrest⟩ := List.forall_mem_cons.mp hall
      rw [rememberDiscovered]
      split
      · rename_i manifest hm
        exact (Routine.of_section (hremember _ (hout manifest hm))).bind fun _ _ => ih hrest
      · exact ih hrest
  refine Routine.bind (Routine.read (c := ⟨.discovery, .cacheRef⟩) trivial _) fun ref _ => ?_
  refine (refreshDiscoveredMembers_routine hupsert ref cap since).bind fun report hr => ?_
  exact (houtcomes _ hr).bind fun _ _ => Routine.pure trivial

theorem cacheGet_routine (o : Origin) (nodeId : String) :
    Routine Call.quiet callbacks sections
      (fun r => ∀ manifest, r = some manifest → manifest.nodeId = nodeId)
      (PeerManifests.get o nodeId) := by
  refine (Routine.call (c := ⟨o, .cacheGet nodeId⟩) trivial _).mono ?_
  rintro a ⟨r, hr, he⟩
  exact Except.ok.inj he ▸ hr

theorem refreshPeer_routine (nodeId : String) (policy : Option KeyContinuityPolicy) (skew : Int)
    (happly : ∀ nodeId decision, FitsNode P nodeId decision →
      sections _ (node.applyRefreshDecision nodeId decision).run) :
    Routine Call.quiet callbacks sections (fun _ => True) (node.refreshPeer P nodeId policy skew) :=
  by
  refine Routine.bind (Routine.read (c := ⟨.refresh, .tableGet nodeId⟩) trivial _) fun rec? _ => ?_
  refine (cacheGet_routine .refresh nodeId).bind fun manifest? hnode => ?_
  split
  · rename_i rec manifest
    refine (refreshPeerManifest_routine node.client manifest _ policy skew).quiet.bind
      fun decision hkeeps => ?_
    have hfits := hkeeps.fitsNode
    rw [hnode manifest rfl] at hfits
    exact (Routine.of_section (happly nodeId decision hfits)).bind fun _ _ => Routine.pure trivial
  · exact Routine.pure trivial

theorem refreshTargets_routine (records : List MemberRecord)
    (happly : ∀ nodeId decision, FitsNode P nodeId decision →
      sections _ (node.applyRefreshDecision nodeId decision).run) :
    Routine Call.quiet callbacks sections (fun r => ∀ d ∈ r.2, d.2 = unknownPeer)
      (node.refreshTargets records) := by
  induction records with
  | nil => exact Routine.pure (by simp)
  | cons rec records ih =>
    refine Routine.bind (Routine.read (c := ⟨.refresh, .cacheGet rec.nodeId⟩) trivial _)
      fun manifest? _ => ?_
    cases manifest? with
    | none =>
      refine (Routine.of_section (happly rec.nodeId _ (fitsNode_unknownPeer P _))).bind fun _ _ =>
        ?_
      refine ih.bind ?_
      rintro ⟨targets, decisions⟩ hd
      exact Routine.pure (List.forall_mem_cons.mpr ⟨rfl, hd⟩)
    | some manifest =>
      refine ih.bind ?_
      rintro ⟨targets, decisions⟩ hd
      exact Routine.pure hd

theorem applyRefreshDecisions_routine (decisions : List (String × ManifestRefreshDecision))
    (happly : ∀ d ∈ decisions, sections _ (node.applyRefreshDecision d.1 d.2).run) :
    Routine Call.quiet callbacks sections (fun _ => True) (node.applyRefreshDecisions decisions) :=
  by
  induction decisions with
  | nil => exact Routine.pure trivial
  | cons d rest ih =>
    obtain ⟨hd, hrest⟩ := List.forall_mem_cons.mp happly
    exact (Routine.of_section hd).bind fun _ _ => ih hrest

theorem refreshAll_routine (policy : Option KeyContinuityPolicy) (skew : Int)
    (happly : ∀ nodeId decision, FitsNode P nodeId decision →
      sections _ (node.applyRefreshDecision nodeId decision).run) :
    Routine Call.quiet callbacks sections (fun _ => True) (node.refreshAll P policy skew) := by
  refine (eligiblePeers_routine trivial trivial).bind fun records _ => ?_
  refine (refreshTargets_routine records happly).bind ?_
  rintro ⟨targets, unknown⟩ hunknown
  refine (refreshAllManifests_routine node.client policy skew targets).quiet.bind
    fun refreshed hrefreshed => ?_
  refine Routine.bind (applyRefreshDecisions_routine _ ?_) fun _ _ => Routine.pure trivial
  intro d hd
  refine happly _ _ ?_
  rcases List.mem_append.mp (Keyed.mem_of_mem_ofList hd) with hmem | hmem
  · rw [hunknown d hmem]
    exact fitsNode_unknownPeer P _
  · obtain ⟨current, _, hnode, hkeeps⟩ := hrefreshed d hmem
    rw [hnode]
    exact hkeeps.fitsNode

end

end FederationNode

/-- A coroutine that makes only the given calls outside the given sections. -/
def Makes (calls : Call → Prop) (sections : Sections) {α : Type} (t : Py α) : Prop :=
  Task.Composed calls (fun _ _ => True) sections (fun _ => True) t.run

namespace Makes

variable {calls : Call → Prop} {sections : Sections} {α β : Type}

theorem pure (a : α) : Makes calls sections (Pure.pure a : Py α) := .done trivial

theorem raising (x : Except Exc α) : Makes calls sections (Federlet.raising x) := .done trivial

theorem call {c : Call} (hc : calls c) (g : Resp c → Except Exc α) :
    Makes calls sections (ExceptT.mk (.call c fun r => .done (g r))) :=
  Task.Composed.call hc fun _ _ => .done trivial

theorem of_section {t : Py α} (h : sections _ t.run) :
    Makes calls sections t := Task.Composed.of_section h

theorem bind {t : Py α} {f : α → Py β} (ht : Makes calls sections t)
    (hf : ∀ a, Makes calls sections (f a)) :
    Makes calls sections (t >>= f) :=
  Task.composed_run_bind ht (fun a _ => hf a) (fun _ _ => trivial)

theorem rememberManifest {node : FederationNode} {o : Origin} {manifest : Manifest}
    (hput : calls ⟨o, .cachePut manifest⟩) (hstore : calls ⟨o, .storeUpsert manifest⟩) :
    Makes calls sections (node.rememberManifest o manifest) := by
  refine (call (c := ⟨o, .cachePut manifest⟩) hput _).bind fun _ => ?_
  split
  · exact call (c := ⟨o, .storeUpsert manifest⟩) hstore _
  · exact pure ()

theorem forgetManifest {node : FederationNode} {o : Origin} {nodeId : String}
    (hpop : calls ⟨o, .cachePop nodeId⟩) (hstore : calls ⟨o, .storeDelete nodeId⟩) :
    Makes calls sections (node.forgetManifest o nodeId) := by
  refine (call (c := ⟨o, .cachePop nodeId⟩) hpop _).bind fun _ => ?_
  split
  · exact call (c := ⟨o, .storeDelete nodeId⟩) hstore _
  · exact pure ()

end Makes

namespace FederationNode

section Parts

variable {P : Platform} {node : FederationNode} {calls : Call → Prop} {sections : Sections}

theorem recordPeer_parts {o : Origin} {manifest : Manifest} {url : String}
    (hget : calls ⟨o, .tableGet manifest.nodeId⟩) (hnow : calls ⟨o, .utcNow⟩)
    (hupsert : ∀ rec : MemberRecord, rec.state = .active → calls ⟨o, .tableUpsert rec⟩)
    (hremember : sections _ (node.rememberManifest o manifest).run) :
    ∃ body, node.recordPeer o manifest url = locked body ∧ Makes calls sections body := by
  refine ⟨_, rfl, ?_⟩
  refine (Makes.call (c := ⟨o, .tableGet manifest.nodeId⟩) hget _).bind fun existing => ?_
  dsimp only
  split
  · exact Makes.pure ()
  · refine (Makes.of_section hremember).bind fun _ => ?_
    refine (Makes.call (c := ⟨o, .utcNow⟩) hnow _).bind fun now => ?_
    exact Makes.call (c := ⟨o, .tableUpsert _⟩) (hupsert _ rfl) _

theorem refreshWrite_makes {f : DateTime → MemberRecord} (hnow : calls ⟨.refresh, .utcNow⟩)
    (hupsert : ∀ now, calls ⟨.refresh, .tableUpsert (f now)⟩) :
    Makes calls sections (do let now ← utcNow .refresh; MembershipTable.upsert .refresh (f now)) :=
  by
  refine (Makes.call (c := ⟨.refresh, .utcNow⟩) hnow _).bind fun now => ?_
  exact Makes.call (c := ⟨.refresh, .tableUpsert (f now)⟩) (hupsert now) _

theorem applyRefreshDecision_parts {nodeId : String} {decision : ManifestRefreshDecision}
    (hget : calls ⟨.refresh, .tableGet nodeId⟩) (hnow : calls ⟨.refresh, .utcNow⟩)
    (hupsert : ∀ rec : MemberRecord, rec.state ≠ .revoked → calls ⟨.refresh, .tableUpsert rec⟩)
    (hremember : ∀ manifest, decision.action = .accept ∨ decision.action = .unchanged →
      decision.manifest = some manifest → sections _ (node.rememberManifest .refresh manifest).run)
    (hforget : sections _ (node.forgetManifest .refresh nodeId).run) :
    ∃ body, node.applyRefreshDecision nodeId decision = locked body ∧
      Makes calls sections body := by
  refine ⟨_, rfl, ?_⟩
  refine (Makes.call (c := ⟨.refresh, .tableGet nodeId⟩) hget _).bind fun rec? => ?_
  cases haction : decision.action
  case accept | unchanged =>
    dsimp only
    split
    · rename_i manifest hm
      refine (Makes.of_section (hremember manifest (by simp [haction]) hm)).bind fun _ => ?_
      split
      · exact refreshWrite_makes hnow fun now => hupsert _ (by simp)
      · exact Makes.pure ()
    · exact Makes.pure ()
  case quarantine =>
    dsimp only
    split
    · exact refreshWrite_makes hnow fun now => hupsert _ (by simp)
    · exact Makes.pure ()
  case reject =>
    dsimp only
    split
    · exact (refreshWrite_makes hnow fun now => hupsert _ (by simp)).bind fun _ =>
        Makes.of_section hforget
    · exact Makes.of_section hforget

theorem applyRevocationNotice_parts {notice : RevocationNotice} {keys : Dict JWK}
    {authorize : RevocationNotice → Bool}
    (hget : calls ⟨.revocation, .tableGet notice.revokedNodeId⟩)
    (hnow : calls ⟨.revocation, .utcNow⟩) (hupsert : ∀ rec : MemberRecord, rec.state = .revoked →
      calls ⟨.revocation, .tableUpsert rec⟩)
    (hforget : sections _ (node.forgetManifest .revocation notice.revokedNodeId).run) :
    ∃ body, node.applyRevocationNotice P notice keys authorize = locked body ∧
      Makes calls sections body := by
  refine ⟨_, rfl, Makes.bind ?_ fun state => ?_⟩
  · refine (Makes.call (c := ⟨.revocation, .tableGet notice.revokedNodeId⟩) hget _).bind
      fun rec? => ?_
    split
    · exact Makes.pure _
    split
    · exact Makes.pure _
    split
    · exact Makes.pure _
    split
    · exact Makes.pure _
    split
    · exact Makes.pure _
    refine (Makes.raising _).bind fun verified => ?_
    split
    · exact Makes.pure _
    refine (Makes.call (c := ⟨.revocation, .utcNow⟩) hnow _).bind fun now => ?_
    refine Makes.bind ?_ fun _ => Makes.pure _
    exact Makes.call (c := ⟨.revocation, .tableUpsert _⟩) (hupsert _ rfl) _
  · split
    · exact (Makes.of_section hforget).bind fun _ => Makes.pure _
    · exact Makes.pure _

end Parts

end FederationNode

/-- The operations whose runs are considered. -/
inductive NodeOp where
  | admitPeer (manifest : Manifest) (manifestUrl : Option String) (maxSkewSeconds : Int)
  | bootstrapFromSeeds (seedManifestUrls : List String) (maxSkewSeconds : Int)
  | discover (maxSkewSeconds perPeerCap : Int) (since : Option String)
  | refreshPeer (nodeId : String) (keyContinuityPolicy : Option KeyContinuityPolicy)
    (maxSkewSeconds : Int)
  | refreshAll (keyContinuityPolicy : Option KeyContinuityPolicy) (maxSkewSeconds : Int)
  | applyRevocationNotice (notice : RevocationNotice) (trustedIssuerKeys : Dict JWK)
      (authorize : RevocationNotice → Bool)

def NodeOp.run (P : Platform) (node : FederationNode) : NodeOp → Py Unit
  | .admitPeer manifest url skew => do let _ ← node.admitPeer P manifest url skew
  | .bootstrapFromSeeds urls skew => do let _ ← node.bootstrapFromSeeds P urls skew
  | .discover skew cap since => do let _ ← node.discover P skew cap since
  | .refreshPeer nodeId policy skew => do let _ ← node.refreshPeer P nodeId policy skew
  | .refreshAll policy skew => do let _ ← node.refreshAll P policy skew
  | .applyRevocationNotice notice keys authorize => do
    let _ ← node.applyRevocationNotice P notice keys authorize

structure NodeSections (P : Platform) (node : FederationNode) (callbacks : Callbacks)
    (sections : Sections) :
    Prop where
  record : ∀ o manifest url, o = .admission ∨ o = .bootstrap →
    Admitted P callbacks node.admissionPolicy manifest →
    sections _ (node.recordPeer o manifest url).run
  discovered : ∀ rec : MemberRecord, rec.state = .active →
    sections _ (MembershipTable.upsert .discovery rec).run
  remember : ∀ manifest, Admitted P callbacks node.admissionPolicy manifest →
    sections _ (locked (node.rememberManifest .discovery manifest)).run
  apply : ∀ nodeId decision, FitsNode P nodeId decision →
    sections _ (node.applyRefreshDecision nodeId decision).run
  revoke : ∀ notice keys authorize,
    sections _ (node.applyRevocationNotice P notice keys authorize).run

abbrev NodePool := Pool Call Resp (Except Exc Unit) NodeState

def NodeStep (sem : Sem Call Resp NodeState) (P : Platform) (node : FederationNode) :
    NodePool → Act Call Resp → NodePool → Prop :=
  Pool.Step sem Outside (fun t => ∃ op : NodeOp, t = (op.run P node).run)

theorem NodeOp.routine {P : Platform} {node : FederationNode} {callbacks : Callbacks}
    {sections : Sections} (h : NodeSections P node callbacks sections) (op : NodeOp) :
    Routine Call.quiet callbacks sections (fun _ => True) (op.run P node) := by
  cases op with
  | admitPeer manifest url skew =>
    exact (FederationNode.admitPeer_routine manifest url skew fun url => h.record _ manifest url
      (.inl rfl)).bind fun _ _ => Routine.pure trivial
  | bootstrapFromSeeds urls skew =>
    exact (FederationNode.bootstrapFromSeeds_routine urls skew fun m url =>
      h.record _ m url (.inr rfl)).bind fun _ _ => Routine.pure trivial
  | discover skew cap since =>
    exact (FederationNode.discover_routine skew cap since
      (fun rec hfresh _ => h.discovered rec hfresh.active) h.remember).bind
      fun _ _ => Routine.pure trivial
  | refreshPeer nodeId policy skew =>
    exact (FederationNode.refreshPeer_routine nodeId policy skew h.apply).bind fun _ _ =>
      Routine.pure trivial
  | refreshAll policy skew =>
    exact (FederationNode.refreshAll_routine policy skew h.apply).bind fun _ _ =>
      Routine.pure trivial
  | applyRevocationNotice notice keys authorize =>
    exact (Routine.of_section (h.revoke notice keys authorize)).bind fun _ _ => Routine.pure trivial

/-- Operations respect a discipline that their sections and all reads respect. -/
theorem NodeOp.safe {P : Platform} {node : FederationNode} {d : Discipline Call Resp NodeState}
    (hsections : NodeSections P node anyCallback (fun _ t => d.Safe t))
    (hquiet : ∀ c s r s', c.quiet → d.sem c s r s' → Does c s r s' ∧ d.guar c s r s')
    (op : NodeOp) :
    d.Safe (op.run P node).run := by
  have hcall : ∀ c s r s', c.quiet → d.sem c s r s' →
      Answered anyCallback c r ∧ d.Open s s' ∧ d.guar c s r s' := by
    intro c s r s' hq hs
    obtain ⟨hdoes, hg⟩ := hquiet c s r s' hq hs
    obtain rfl := hdoes.eq_of_quiet hq
    exact ⟨hdoes.answered (callbackAnswers_any c r), ⟨d.rely_refl _, id⟩, hg⟩
  have hsafe := Discipline.safe_of_composed hcall (fun _ _ h => h) (op.routine hsections)
  exact Discipline.wp_mono (fun _ _ h => h.2) hsafe

end Federlet
