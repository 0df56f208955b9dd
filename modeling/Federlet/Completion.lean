import Federlet.Freshness
import Federlet.Hints
import Federlet.Notices

/-! Rounds of introduction, over whatever the URLs of the federation serve. Fetches are
guarded and admission is not: an endpoint no URL parser takes ends the round. -/

namespace Federlet

open Coop

/-- The two operations that go and look for peers. -/
inductive RoundOp where
  | bootstrapFromSeeds (seedManifestUrls : List String)
  | discover (perPeerCap : Int) (since : Option String)

def RoundOp.run (P : Platform) (node : FederationNode) (maxSkewSeconds : Int) : RoundOp → Py Unit
  | .bootstrapFromSeeds urls => do let _ ← node.bootstrapFromSeeds P urls maxSkewSeconds
  | .discover cap since => do let _ ← node.discover P maxSkewSeconds cap since

def ActiveCached (s : NodeState) : Prop :=
  ∀ n rec, s.membershipTable.get n = some rec → rec.state = .active → Cached n s

/-- Callbacks that do not raise. -/
def answering : Callbacks := fun _ _ r => ∃ answer, r = .ok answer

/-- A page that parses to a manifest parses to one of those the URL serves. -/
def ServesContents (P : Platform) (contents : String → Manifest → Prop) (c : Call) :
    Resp c → Prop :=
  match c with
  | ⟨_, .httpGet url⟩ => fun r => ∀ response body manifest, r = .ok response →
      response.json = .ok body →
      P.validateManifest body = .ok manifest → contents url manifest
  | _ => fun _ => True

/-- Stores and callbacks that do not raise, and a network that serves the given manifests. -/
def Offering (P : Platform) (contents : String → Manifest → Prop) : Sem Call Resp NodeState :=
  fun c s r s' => Reliable c s r s' ∧ CallbackAnswers answering c r ∧ ServesContents P contents c r

/-- The manifest can be fetched from the URL, is found valid and passes the policy up to
its endpoint, which no URL parser takes. -/
structure Derails (P : Platform) (node : FederationNode) (skew : Int) (url : String)
    (manifest : Manifest) : Prop where
  reachable : ∃ parsed, urlsplit P url = .ok parsed ∧ parsed.hostname P ≠ ""
  parses : ∃ body, P.validateManifest body = .ok manifest
  valid : ∃ now reason, checkManifestAt P manifest now skew = .ok (true, reason)
  claims : policyReason node.admissionPolicy manifest = none
  endpoint : ∃ e, checkEndpoint P manifest.endpoint node.admissionPolicy = .error e

theorem narrows_offering (P : Platform) (contents : String → Manifest → Prop) :
    Narrows (Offering P contents) Passes :=
  ⟨fun _ _ _ _ h => h.1.1, fun _ _ h => h⟩

theorem checkManifestAt_judges {P : Platform} {manifest : Manifest} {now : DateTime} {skew : Int}
    {reason : String} (h : checkManifestAt P manifest now skew = .ok (true, reason))
    (now' : DateTime) :
    ∃ verdict, checkManifestAt P manifest now' skew = .ok verdict := by
  obtain ⟨signature, jwk, hs, hk, hv⟩ := signed_of_checkManifestAt h
  rw [checkManifestAt_of_verifies hs hk hv] at h ⊢
  cases hd : TimeDelta.ofSeconds skew with
  | error e =>
    rw [hd] at h
    cases h
  | ok delta =>
    rw [hd] at h
    have hjudged : boundsVerdict manifest.issuedAt manifest.expiresAt now delta =
        .ok (true, reason) := h
    show ∃ verdict, boundsVerdict manifest.issuedAt manifest.expiresAt now' delta = .ok verdict
    have hlower : lowerVerdict manifest.issuedAt now delta = .ok (true, reason) →
        ∃ verdict, lowerVerdict manifest.issuedAt now' delta = .ok verdict := by
      intro h
      cases hi : manifest.issuedAt with
      | none => exact ⟨_, rfl⟩
      | some issuedAt =>
        cases hsub : issuedAt.sub delta with
        | error e => simp [lowerVerdict, hi, hsub, bind, Except.bind] at h
        | ok bound => simp [lowerVerdict, hsub, bind, Except.bind, pure, Except.pure]
    cases he : manifest.expiresAt with
    | none =>
      rw [he] at hjudged
      exact hlower hjudged
    | some expiresAt =>
      cases hadd : expiresAt.add delta with
      | error e => simp [boundsVerdict, he, hadd, bind, Except.bind] at hjudged
      | ok bound =>
        simp only [boundsVerdict, he, hadd, bind, Except.bind, pure, Except.pure] at hjudged ⊢
        have hsince : lowerVerdict manifest.issuedAt now delta = .ok (true, reason) := by
          by_cases hlate : bound.instant < now.instant
          · simp [hlate] at hjudged
          · simpa [hlate] using hjudged
        by_cases hlate : bound.instant < now'.instant
        · exact ⟨_, if_pos hlate⟩
        · simpa only [hlate, ↓reduceIte] using hlower hsince

section Returns

variable {sem : Sem Call Resp NodeState} {background : NodeState → NodeState → Prop} {P : Platform}
  {node : FederationNode} {s s' : NodeState}

theorem ActiveCached.of_passes (h : ActiveCached s) (hs : Passes s s') : ActiveCached s' := by
  obtain ⟨t, _, rfl⟩ := hs
  exact h

theorem ActiveCached.record {manifest : Manifest} {rec : MemberRecord} (h : ActiveCached s)
    (hsame : rec.nodeId = manifest.nodeId) :
    ActiveCached ((s.remember node manifest).file rec) := by
  intro n rec' hrec' hactive
  have hcached : Cached n ((s.remember node manifest).file rec) ↔
      Cached n (s.remember node manifest) := Iff.rfl
  rw [hcached, cached_remember]
  by_cases hn : manifest.nodeId = n
  · exact .inl hn
  · have hget : s.membershipTable.get n = some rec' :=
      (Keyed.get_upsert_ne s.membershipTable (hsame.trans_ne hn)).symm.trans hrec'
    exact .inr (h n rec' hget hactive)

theorem recordPeer_activeCached (henv : Narrows sem background) (h : ActiveCached s) (o : Origin)
    (manifest : Manifest) (url : String) :
    Task.Returns sem background (node.recordPeer o manifest url) s fun _ _ s' =>
      ActiveCached s' := by
  refine Task.Returns.locked
    (Task.Returns.bind (Task.Returns.mono (returns_tableGet henv o _ s) ?_))
  rintro _ existing s₁ ⟨_, hs₁, _⟩
  have h₁ := h.of_passes hs₁
  dsimp only
  split
  · exact Task.Returns.pure h₁
  · refine Task.Returns.bind (Task.Returns.mono (rememberManifest_returns henv o manifest s₁) ?_)
    intro _ _ s₂ hs₂
    refine Task.Returns.mono (returns_stamp henv o _ s₂) ?_
    rintro _ _ s₃ ⟨now, hs₃⟩
    exact (h₁.record rfl).of_passes ((hs₂.2.map (timeless_file _)).trans hs₃)

theorem recordSeeds_activeCached (henv : Narrows sem background) (h : ActiveCached s)
    (outcomes : List SeedBootstrapOutcome) :
    Task.Returns sem background (node.recordSeeds outcomes) s fun _ _ s' => ActiveCached s' := by
  induction outcomes generalizing s with
  | nil => exact Task.Returns.pure h
  | cons outcome rest ih =>
    rw [FederationNode.recordSeeds]
    split
    · refine Task.Returns.bind (Task.Returns.mono (recordPeer_activeCached henv h _ _ _) ?_)
      exact fun _ _ s₁ h₁ => ih h₁
    · exact ih h

theorem discover_activeCached (henv : Narrows sem background) (h : ActiveCached s) (skew cap : Int)
    (since : Option String) :
    Task.Returns sem background (node.discover P skew cap since) s fun _ _ s' =>
      ActiveCached s' := by
  refine Task.Returns.mono (discover_returns henv skew cap since s) ?_
  rintro _ report s' ⟨visits, tr, s₁, hround, _, hs'⟩
  refine ActiveCached.of_passes ?_ hs'
  intro n rec hrec hactive
  rw [rememberAll_table] at hrec
  rw [cached_rememberAll, hround.manifests]
  obtain ⟨hmem, rfl⟩ := Keyed.get_eq_some_iff.mp hrec
  rw [hround.entries] at hmem
  rcases List.mem_append.mp hmem with hold | hnew
  · have hcached := h rec.nodeId rec (Keyed.get_of_mem hold) hactive
    obtain ⟨t, _, hs₁⟩ := hround.leaves
    rw [hs₁]
    exact .inl hcached
  · exact .inr (List.mem_map_of_mem hnew)

theorem RoundOp.activeCached (henv : Narrows sem background) (h : ActiveCached s) (skew : Int)
    (op : RoundOp) :
    Task.Returns sem background (op.run P node skew) s fun _ _ s' => ActiveCached s' := by
  cases op with
  | bootstrapFromSeeds urls =>
    have hnone : ({} : SeedBootstrapReport).Admits P anyCallback node.admissionPolicy := by
      simp [SeedBootstrapReport.Admits]
    refine Task.Returns.bind (Task.Returns.bind (Task.Returns.mono
      (returns_outward henv (Federlet.bootstrapFromSeeds_routine node.client _ skew urls hnone))
      ?_))
    rintro _ report s₁ ⟨hs₁, _⟩
    refine Task.Returns.bind
      (Task.Returns.mono (recordSeeds_activeCached henv (h.of_passes hs₁) _) ?_)
    exact fun _ _ s₂ h₂ => Task.Returns.pure (Task.Returns.pure h₂)
  | discover cap since =>
    refine Task.Returns.bind (Task.Returns.mono (discover_activeCached henv h skew cap since) ?_)
    exact fun _ _ s₁ h₁ => Task.Returns.pure h₁

end Returns

section Finishing

variable {P : Platform} {node : FederationNode} {contents : String → Manifest → Prop} {skew : Int}

structure Fetched (P : Platform) (contents : String → Manifest → Prop) (skew : Int) (url : String)
    (manifest : Manifest) :
    Prop where
  served : contents url manifest
  reachable : ∃ parsed, urlsplit P url = .ok parsed ∧ parsed.hostname P ≠ ""
  parses : ∃ body, P.validateManifest body = .ok manifest
  valid : ∃ now reason, checkManifestAt P manifest now skew = .ok (true, reason)

theorem finishes_attempt {sem : Sem Call Resp NodeState} {background : NodeState → NodeState → Prop}
    {α : Type} {t : Py α} {Q : α → Prop}
    (h : ∀ s, Task.Returns sem background t s fun _ a _ => Q a) :
    Task.Finishes sem background (Task.Raising.attempt t) (fun r => ∀ a, r = .ok a → Q a) := by
  refine fun s => Task.Yields.bind (Task.Yields.mono (h s) ?_)
  exact fun _ r _ hq => Task.Yields.done ⟨r, rfl, hq⟩

theorem finishes_call {c : Call} {α : Type} {g : Resp c → Except Exc α}
    (hg : ∀ s r s', Offering P contents c s r s' → ∃ a, g r = .ok a) :
    Task.Finishes (Offering P contents) Passes (ExceptT.mk (.call c fun r => .done (g r)))
      (fun _ => True) := by
  refine Task.Finishes.call fun s r s' hsem => ?_
  obtain ⟨a, ha⟩ := hg s r s' hsem
  exact ⟨a, ha, trivial⟩

theorem ok_of_not_error {α : Type} {r : Except Exc α} (h : ¬ ∃ e, r = .error e) :
    ∃ a, r = .ok a := by
  cases r with
  | ok a => exact ⟨a, rfl⟩
  | error e => exact absurd ⟨e, rfl⟩ h

theorem utcNow_finishes (o : Origin) :
    Task.Finishes (Offering P contents) Passes (utcNow o) (fun _ => True) :=
  finishes_call (c := ⟨o, .utcNow⟩) fun _ r _ _ => ⟨r, rfl⟩

theorem tableGet_finishes (o : Origin) (n : String) :
    Task.Finishes (Offering P contents) Passes (MembershipTable.get o n) (fun _ => True) :=
  finishes_call (c := ⟨o, .tableGet n⟩) fun _ _ _ h => ok_of_not_error h.1.2

theorem tableUpsert_finishes (o : Origin) (rec : MemberRecord) :
    Task.Finishes (Offering P contents) Passes (MembershipTable.upsert o rec) (fun _ => True) :=
  finishes_call (c := ⟨o, .tableUpsert rec⟩) fun _ _ _ h => ok_of_not_error h.1.2

theorem rememberManifest_finishes (o : Origin) (manifest : Manifest) :
    Task.Finishes (Offering P contents) Passes (node.rememberManifest o manifest)
      (fun _ => True) := by
  refine (finishes_call (c := ⟨o, .cachePut manifest⟩) fun _ r _ _ => ⟨r, rfl⟩).bind fun _ _ => ?_
  split
  · exact finishes_call (c := ⟨o, .storeUpsert manifest⟩) fun _ _ _ h => ok_of_not_error h.1.2
  · exact Task.Finishes.pure trivial

theorem hostCallback_finishes (o : Origin) (callback : HostCallback) (manifest : Manifest) :
    Task.Finishes (Offering P contents) Passes (hostCallback o callback manifest) (fun _ => True) :=
  finishes_call (c := ⟨o, .hostCallback callback manifest⟩) fun _ _ _ h => h.2.1

theorem verifyAuthMethods_finishes (o : Origin) (policy : AdmissionPolicy) (manifest : Manifest)
    (methods : List String) :
    Task.Finishes (Offering P contents) Passes (verifyAuthMethods o policy manifest methods)
      (fun _ => True) := by
  induction methods with
  | nil => exact Task.Finishes.pure trivial
  | cons method rest ih =>
    rw [verifyAuthMethods]
    split
    · exact ih
    · refine (hostCallback_finishes o _ manifest).bind ?_
      rintro ⟨ok, reason⟩ _
      cases ok with
      | false => exact Task.Finishes.pure trivial
      | true => exact ih

/-- A manifest found valid once is admitted or not, unless its endpoint cannot be read. -/
theorem admitManifest_finishes (o : Origin) {policy : AdmissionPolicy} {manifest : Manifest}
    (hvalid : ∃ now reason, checkManifestAt P manifest now skew = .ok (true, reason))
    (hendpoint : policyReason policy manifest = none → ∃ verdict, checkEndpoint P manifest.endpoint
      policy = .ok verdict) :
    Task.Finishes (Offering P contents) Passes (admitManifest P o manifest policy skew)
      (fun _ => True) := by
  obtain ⟨now, reason, hcheck⟩ := hvalid
  have hjudges : Task.Finishes (Offering P contents) Passes (checkManifest P o manifest skew)
      (fun _ => True) := by
    refine (utcNow_finishes o).bind fun now' _ => ?_
    obtain ⟨verdict, hverdict⟩ := checkManifestAt_judges hcheck now'
    exact Task.Finishes.lift ⟨verdict, hverdict, trivial⟩
  refine hjudges.bind ?_
  rintro ⟨ok, reason⟩ _
  cases ok with
  | false => exact Task.Finishes.pure trivial
  | true =>
  simp only [Bool.not_true, Bool.false_eq_true, ↓reduceIte]
  cases hclaims : policyReason policy manifest with
  | some reason => exact Task.Finishes.pure trivial
  | none =>
    refine (verifyAuthMethods_finishes o policy manifest _).bind fun refusal _ => ?_
    cases refusal with
    | some reason => exact Task.Finishes.pure trivial
    | none =>
      obtain ⟨verdict, hverdict⟩ := hendpoint hclaims
      refine Task.Finishes.bind (P := fun _ => True)
        (Task.Finishes.lift ⟨verdict, hverdict, trivial⟩) fun refusal _ => ?_
      cases refusal with
      | some reason => exact Task.Finishes.pure trivial
      | none =>
        dsimp only
        split
        · refine (hostCallback_finishes o _ manifest).bind ?_
          rintro ⟨ok, reason⟩ _
          cases ok with
          | false => exact Task.Finishes.pure trivial
          | true => exact Task.Finishes.pure trivial
        · exact Task.Finishes.pure trivial

theorem fetchManifest_fetches (client : FederationClient) (o : Origin) (url : String)
    (s : NodeState) :
    Task.Returns (Offering P contents) Passes (fetchManifest P client o url skew) s fun _ m _ =>
      Fetched P contents skew url m := by
  have hhost : Task.Returns (Offering P contents) Passes
      (assertPublicHost P o url client.allowPrivate) s fun _ _ _ =>
      ∃ parsed, urlsplit P url = .ok parsed ∧ parsed.hostname P ≠ "" := by
    refine Task.Returns.bind (Task.Returns.lift fun parsed hparsed => ?_)
    dsimp only
    split
    · exact Task.Returns.throw
    rename_i hname
    have hreachable : ∃ parsed, urlsplit P url = .ok parsed ∧ parsed.hostname P ≠ "" :=
      ⟨parsed, hparsed, hname⟩
    split
    · exact Task.Returns.pure hreachable
    refine Task.Returns.bind (Task.Returns.call fun _ _ _ _ _ _ _ => ?_)
    exact Task.Returns.lift fun _ _ => hreachable
  refine Task.Returns.bind (Task.Returns.mono hhost ?_)
  rintro _ _ s₁ hreachable
  refine Task.Returns.bind (Task.Returns.call (e := (⟨o, .httpGet url⟩ : Call)) ?_)
  rintro s₂ _ r s₃ hsem response rfl
  have hserves := hsem.2.2
  refine Task.Returns.bind (Task.Returns.lift fun _ _ => ?_)
  refine Task.Returns.bind (Task.Returns.lift fun body hbody => ?_)
  refine Task.Returns.bind (Task.Returns.lift fun manifest hmanifest => ?_)
  have hcontents : contents url manifest := hserves response body manifest rfl hbody hmanifest
  refine Task.Returns.bind (Task.Returns.bind (Task.Returns.call (e := (⟨o, .utcNow⟩ : Call)) ?_))
  rintro s₄ _ now s₅ _ _ ⟨⟩
  refine Task.Returns.lift fun verdict hverdict => ?_
  obtain ⟨ok, reason⟩ := verdict
  cases ok with
  | false => exact Task.Returns.throw
  | true =>
    exact Task.Returns.pure ⟨hcontents, hreachable, ⟨body, hmanifest⟩, ⟨_, reason, hverdict⟩⟩

section Rounds

variable (hgood : ∀ url manifest, contents url manifest → ¬ Derails P node skew url manifest)

include hgood

theorem Fetched.admits {url : String} {manifest : Manifest}
    (h : Fetched P contents skew url manifest) (o : Origin) :
    Task.Finishes (Offering P contents) Passes
      (admitManifest P o manifest node.admissionPolicy skew) (fun _ => True) := by
  refine admitManifest_finishes o h.valid fun hclaims => ?_
  cases hendpoint : checkEndpoint P manifest.endpoint node.admissionPolicy with
  | ok verdict => exact ⟨verdict, rfl⟩
  | error e =>
    exact absurd ⟨h.reachable, h.parses, h.valid, hclaims, e, hendpoint⟩
      (hgood url manifest h.served)

theorem processRef_finishes (ref : MemberRef) (source : String)
    (outcomes : DiscoveryRefreshReport) :
    Task.Finishes (Offering P contents) Passes
      (processRef P node.client node.admissionPolicy skew ref source outcomes) (fun _ => True) := by
  refine (finishes_attempt (fetchManifest_fetches node.client .discovery ref.manifestUrl)).bind
    fun fetched hfetched => ?_
  cases fetched with
  | error exc => exact Task.Finishes.pure trivial
  | ok manifest =>
    dsimp only
    split
    · exact Task.Finishes.pure trivial
    split
    · exact Task.Finishes.pure trivial
    refine ((hfetched manifest rfl).admits hgood .discovery).bind fun decision _ => ?_
    split
    · exact Task.Finishes.pure trivial
    refine (utcNow_finishes .discovery).bind fun now _ => ?_
    exact (tableUpsert_finishes .discovery _).bind fun _ _ => Task.Finishes.pure trivial

theorem processRefs_finishes (cap : Int) (source : String) (refs : List MemberRef) (index : Nat)
    (round : DiscoveryRound) :
    Task.Finishes (Offering P contents) Passes
      (processRefs P node.client node.admissionPolicy skew cap source refs index round)
      (fun _ => True) := by
  induction refs generalizing index round with
  | nil => exact Task.Finishes.pure trivial
  | cons ref refs ih =>
    rw [processRefs]
    dsimp only
    split
    · exact ih _ _
    split
    · exact ih _ _
    refine (tableGet_finishes .discovery ref.nodeId).bind fun existing _ => ?_
    cases existing with
    | some rec => exact ih _ _
    | none =>
      dsimp only
      split
      · exact ih _ _
      · exact (processRef_finishes hgood ref source _).bind fun _ _ => ih _ _

theorem processMembers_finishes (ref : Nat) (cap : Int) (since : Option String)
    (records : List MemberRecord) (round : DiscoveryRound) :
    Task.Finishes (Offering P contents) Passes
      (processMembers P node.client node.admissionPolicy skew ref cap since records round)
      (fun _ => True) := by
  induction records generalizing round with
  | nil => exact Task.Finishes.pure trivial
  | cons rec records ih =>
    rw [processMembers]
    refine (finishes_call (c := ⟨.discovery, .cacheGetAt ref rec.nodeId⟩) fun _ r _ _ =>
      ⟨r, rfl⟩).bind fun peer? _ => ?_
    cases peer? with
    | none => exact ih _
    | some peer =>
      have hasked : ∀ s, Task.Returns (Offering P contents) Passes
          (getMembers P .discovery peer since) s fun _ _ _ => True :=
            fun s => Task.Yields.mono (fun _ _ _ _ => trivial) fun _ _ _ _ _ _ => trivial
      refine (finishes_attempt hasked).bind fun answer _ => ?_
      cases answer with
      | error exc => exact ih _
      | ok members =>
        exact (processRefs_finishes hgood cap peer.nodeId members.members 0 round).bind
          fun round _ => ih round

theorem bootstrapSeed_finishes (url : String) (report : SeedBootstrapReport) :
    Task.Finishes (Offering P contents) Passes
      (bootstrapSeed P node.client node.admissionPolicy skew url report) (fun _ => True) := by
  refine (finishes_attempt (fetchManifest_fetches node.client .bootstrap url)).bind
    fun fetched hfetched => ?_
  cases fetched with
  | error exc => exact Task.Finishes.pure trivial
  | ok manifest =>
    refine ((hfetched manifest rfl).admits hgood .bootstrap).bind fun decision _ => ?_
    split
    · exact Task.Finishes.pure trivial
    have hasked : ∀ s, Task.Returns (Offering P contents) Passes (introduce P .bootstrap manifest) s
        fun _ _ _ => True := fun s => Task.Yields.mono (fun _ _ _ _ => trivial)
        fun _ _ _ _ _ _ => trivial
    refine (finishes_attempt hasked).bind fun answer _ => ?_
    cases answer with
    | error exc => exact Task.Finishes.pure trivial
    | ok response =>
      dsimp only
      split
      · exact Task.Finishes.pure trivial
      · exact Task.Finishes.pure trivial

theorem bootstrapFromSeeds_finishes (urls : List String) (report : SeedBootstrapReport) :
    Task.Finishes (Offering P contents) Passes
      (Federlet.bootstrapFromSeeds P node.client node.admissionPolicy skew urls report)
      (fun _ => True) := by
  induction urls generalizing report with
  | nil => exact Task.Finishes.pure trivial
  | cons url urls ih =>
    exact (bootstrapSeed_finishes hgood url report).bind fun report _ => ih report

end Rounds

theorem recordPeer_finishes (o : Origin) (manifest : Manifest) (url : String) :
    Task.Finishes (Offering P contents) Passes (node.recordPeer o manifest url)
      (fun _ => True) := by
  refine Task.Finishes.locked ((tableGet_finishes o manifest.nodeId).bind fun existing _ => ?_)
  dsimp only
  split
  · exact Task.Finishes.pure trivial
  · refine (rememberManifest_finishes o manifest).bind fun _ _ => (utcNow_finishes o).bind
      fun now _ => ?_
    exact tableUpsert_finishes o _

theorem recordSeeds_finishes (outcomes : List SeedBootstrapOutcome) :
    Task.Finishes (Offering P contents) Passes (node.recordSeeds outcomes) (fun _ => True) := by
  induction outcomes with
  | nil => exact Task.Finishes.pure trivial
  | cons outcome outcomes ih =>
    rw [FederationNode.recordSeeds]
    split
    · exact (recordPeer_finishes .bootstrap _ _).bind fun _ _ => ih
    · exact ih

theorem rememberDiscovered_finishes (outcomes : List DiscoveryOutcome) :
    Task.Finishes (Offering P contents) Passes (node.rememberDiscovered outcomes)
      (fun _ => True) := by
  induction outcomes with
  | nil => exact Task.Finishes.pure trivial
  | cons outcome outcomes ih =>
    rw [FederationNode.rememberDiscovered]
    split
    · exact (Task.Finishes.locked (rememberManifest_finishes .discovery _)).bind fun _ _ => ih
    · exact ih

theorem RoundOp.finishes
    (hgood : ∀ url manifest, contents url manifest → ¬ Derails P node skew url manifest)
    (op : RoundOp) : Task.Finishes (Offering P contents) Passes (op.run P node skew)
    (fun _ => True) := by
  cases op with
  | bootstrapFromSeeds urls =>
    refine Task.Finishes.bind (P := fun _ => True) ?_ fun _ _ => Task.Finishes.pure trivial
    refine (bootstrapFromSeeds_finishes hgood urls {}).bind fun report _ => ?_
    exact (recordSeeds_finishes report.accepted).bind fun _ _ => Task.Finishes.pure trivial
  | discover cap since =>
    refine Task.Finishes.bind (P := fun _ => True) ?_ fun _ _ => Task.Finishes.pure trivial
    refine (finishes_call (c := ⟨.discovery, .cacheRef⟩) fun _ r _ _ => ⟨r, rfl⟩).bind
      fun ref _ => ?_
    refine Task.Finishes.bind (P := fun _ => True) ?_ fun report _ => ?_
    · refine Task.Finishes.bind (P := fun _ => True) ?_ fun records _ => ?_
      · refine (utcNow_finishes .discovery).bind fun now _ => ?_
        refine (finishes_call (c := ⟨.discovery, .tableValues⟩) fun _ _ _ h =>
          ok_of_not_error h.1.2).bind fun _ _ => ?_
        exact Task.Finishes.pure trivial
      · exact (processMembers_finishes hgood ref cap since records {}).bind fun _ _ =>
          Task.Finishes.pure trivial
    · exact (rememberDiscovered_finishes report.accepted).bind fun _ _ => Task.Finishes.pure trivial

end Finishing

section Derailing

variable {P : Platform} {node : FederationNode} {skew : Int} {url : String}
  {manifest : Manifest} {body : Json}

def pageWorld (url : String) (body : Json) : Env where
  getaddrinfo _ _ := .ok []
  httpGet _ u := if u = url then .ok ⟨.ok (), .ok body⟩ else .error .timeoutError
  httpRequest _ _ _ _ _ := .error .timeoutError
  hostCallback _ _ := .ok (true, "ok")

theorem pageWorld_offers {contents : String → Manifest → Prop} (hcontents : contents url manifest)
    (hbody : P.validateManifest body = .ok manifest) (c : Call) (s : NodeState) :
    Offering P contents c s ((pageWorld url body).handle c s).1
      ((pageWorld url body).handle c s).2 := by
  refine ⟨Env.reliable (fun _ _ => rfl) c s, ?_, ?_⟩
  · obtain ⟨o, op⟩ := c
    cases op
    case hostCallback => exact ⟨_, rfl⟩
    all_goals trivial
  · obtain ⟨o, op⟩ := c
    cases op
    case httpGet u =>
      intro response body' manifest' hresponse hjson hvalid
      simp only [pageWorld, Env.handle] at hresponse
      split_ifs at hresponse with hu
      cases hresponse
      cases hjson
      obtain rfl : manifest = manifest' := Except.ok.inj (hbody.symm.trans hvalid)
      exact hu ▸ hcontents
    all_goals trivial

theorem fetchManifest_page {client : FederationClient} {s : NodeState} {reason : String}
    (hreachable : ∃ parsed, urlsplit P url = .ok parsed ∧ parsed.hostname P ≠ "")
    (hbody : P.validateManifest body = .ok manifest)
    (hcheck : checkManifestAt P manifest s.clock skew = .ok (true, reason)) (o : Origin) :
    (fetchManifest P client o url skew).run.eval (pageWorld url body).handle s =
      (.ok manifest, s) := by
  obtain ⟨parsed, hparsed, hname⟩ := hreachable
  have hhost : (assertPublicHost P o url client.allowPrivate).run.eval (pageWorld url body).handle
      s = (.ok (), s) := by
    rw [assertPublicHost, Task.eval_run_bind, raising, Task.run_lift, Task.eval_done, hparsed,
      Task.andThen_ok]
    dsimp only
    rw [if_neg hname]
    split
    · rfl
    · rfl
  have hget : (httpGet o url).run.eval (pageWorld url body).handle s =
      (.ok ⟨.ok (), .ok body⟩, s) := by
    show ((if url = url then _ else _ : Except Exc Response), s) = _
    rw [if_pos rfl]
  have hverdict : (checkManifest P o manifest skew).run.eval (pageWorld url body).handle s =
      (.ok (true, reason), s) :=
    congrArg (fun r => (r, s)) hcheck
  rw [fetchManifest, Task.eval_run_bind, hhost, Task.andThen_ok, Task.eval_run_bind, hget,
    Task.andThen_ok]
  simp only [Task.eval_run_bind, raising, Task.run_lift, Task.eval_done, Task.andThen_ok,
    hbody, hverdict]
  rfl

theorem verifyAuthMethods_page (o : Origin) (policy : AdmissionPolicy) (methods : List String)
    (s : NodeState) :
    (verifyAuthMethods o policy manifest methods).run.eval (pageWorld url body).handle s =
      (.ok none, s) := by
  induction methods with
  | nil => rfl
  | cons method methods ih =>
    rw [verifyAuthMethods]
    split
    · exact ih
    · rw [Task.eval_run_bind]
      exact ih

theorem admitManifest_page {policy : AdmissionPolicy} {s : NodeState} {reason : String} {e : Exc}
    (hcheck : checkManifestAt P manifest s.clock skew = .ok (true, reason))
    (hclaims : policyReason policy manifest = none)
    (hendpoint : checkEndpoint P manifest.endpoint policy = .error e) (o : Origin) :
    (admitManifest P o manifest policy skew).run.eval (pageWorld url body).handle s =
      (.error e, s) := by
  have hverdict : (checkManifest P o manifest skew).run.eval (pageWorld url body).handle s =
      (.ok (true, reason), s) :=
    congrArg (fun r => (r, s)) hcheck
  have hmethods := @verifyAuthMethods_page url manifest body o policy manifest.authMethods s
  rw [admitManifest, Task.eval_run_bind, hverdict, Task.andThen_ok]
  simp only [Bool.not_true, Bool.false_eq_true, ↓reduceIte, hclaims]
  rw [Task.eval_run_bind, hmethods, Task.andThen_ok]
  simp only [Task.eval_run_bind, raising, Task.run_lift, Task.eval_done, hendpoint]
  rfl

theorem Derails.raises (h : Derails P node skew url manifest) :
    ∃ body s e, P.validateManifest body = .ok manifest ∧ ActiveCached s ∧
      (((RoundOp.bootstrapFromSeeds [url]).run P node skew).run.eval (pageWorld url body).handle
        s).1 = .error e := by
  obtain ⟨hreachable, ⟨body, hbody⟩, ⟨now, reason, hcheck⟩, hclaims, e, hendpoint⟩ := h
  have hempty : ActiveCached { emptyNode with clock := now } := by
    intro n rec hrec
    cases hrec
  refine ⟨body, { emptyNode with clock := now }, e, hbody, hempty, ?_⟩
  have hfetch := @fetchManifest_page P skew url manifest body node.client
    { emptyNode with clock := now } reason hreachable hbody hcheck .bootstrap
  have hadmit := @admitManifest_page P skew url manifest body node.admissionPolicy
    { emptyNode with clock := now } reason e hcheck hclaims hendpoint .bootstrap
  have hseed : (bootstrapSeed P node.client node.admissionPolicy skew url {}).run.eval
      (pageWorld url body).handle { emptyNode with clock := now } =
      (.error e, { emptyNode with clock := now }) := by
    rw [bootstrapSeed, Task.eval_run_bind, Task.run_attempt, Task.eval_bind, hfetch, Task.eval_done,
      Task.andThen_ok]
    dsimp only
    rw [Task.eval_run_bind, hadmit]
    rfl
  rw [RoundOp.run, Task.eval_run_bind, FederationNode.bootstrapFromSeeds, Task.eval_run_bind,
    Federlet.bootstrapFromSeeds, Task.eval_run_bind, hseed]
  rfl

end Derailing

/-- Rounds return, and leave every active record with its manifest, whatever is served,
exactly if no manifest is served that passes everything before its endpoint, which
cannot be read. -/
theorem rounds_complete_iff (P : Platform) (node : FederationNode)
    (contents : String → Manifest → Prop) (skew : Int) :
    (∀ (op : RoundOp) s tr r s', ActiveCached s → Task.Runs (Offering P contents) Passes
      (op.run P node skew).run s tr r s' →
      (∃ a, r = .ok a) ∧ ActiveCached s') ↔
    ∀ url manifest, contents url manifest → ¬ Derails P node skew url manifest := by
  constructor
  · intro h url manifest hcontents hderails
    obtain ⟨body, s, e, hbody, hs, heval⟩ := hderails.raises
    have hrun := Task.runs_trace (pageWorld url body).handle Passes.refl
      (pageWorld_offers hcontents hbody) ((RoundOp.bootstrapFromSeeds [url]).run P node skew).run s
    obtain ⟨⟨_, hok⟩, _⟩ := h _ s _ _ _ hs hrun
    rw [heval] at hok
    cases hok
  · intro hgood op s tr r s' hs hrun
    obtain ⟨a, rfl, _⟩ := op.finishes hgood s tr r s' hrun
    exact ⟨⟨a, rfl⟩, op.activeCached (narrows_offering P contents) hs skew tr _ s' hrun a rfl⟩

/-- Signed and valid, with an endpoint no URL parser takes. -/
def bracketedManifest : Manifest :=
  { malloryManifest with
    endpoint := "https://[mallory"
    signature :=
      some { keyId := "k1", sig :=
        "1cAT1rv0uY3uNv7xQMCFvs28vUksGxpsc7YsV6cMXxwDsRe4DS03guGPlt36Va13OufS2PeBX62E2Gavy6mWAw" } }

def bracketedText : JWK × String × List String :=
  (malloryKey,
   "1cAT1rv0uY3uNv7xQMCFvs28vUksGxpsc7YsV6cMXxwDsRe4DS03guGPlt36Va13OufS2PeBX62E2Gavy6mWAw",
    ["\x7b\"auth_methods\":[\"signed_http\"],", "\"endpoint\":\"https:",
     "//[mallory\",\"expires_at\":", "\"2026-02-01T00:00:", "00Z\",\"extensions\":",
     "\x7b\x7d,\"federations\":[\"fed\"],", "\"membership\":\x7b\"introduce_url\":",
     "\"https://mallory.example/", "introduce\",\"members_url\":", "\"https://mallory.example/",
     "members\"\x7d,\"node_id\":", "\"mallory\",\"org_id\":", "\"evil\",\"protocol_versions\":",
     "[\"1\"],\"public_keys\":", "[\x7b\"alg\":\"EdDSA\",\"key_id\":", "\"k1\",\"public_jwk\":",
     "\x7b\"alg\":\"EdDSA\",\"crv\":", "\"Ed25519\",\"kty\":\"OKP\",",
     "\"x\":\"PUAXw-hDiVqStwqnTRt-vJyYLM8ux", "JaMwM1V8Sr0Zgw\"\x7d,\"use\":",
     "\"sig\"\x7d],\"revision\":", "1\x7d"])

def pairMembers : MembersResponse :=
  { sourceNodeId := "alpha"
    members := [{ nodeId := "gamma", manifestUrl := "https://gamma.example/manifest" },
                { nodeId := "mallory", manifestUrl := "https://mallory.example/manifest" }]
    signature := some { keyId := "k1", sig :=
      "bgBC08PAoJEfEl0_yqTwrvTA3buzkZFVDNLzUOtKoQLLeuzor_YhPoN6AwbytQhZ5Gq6_Xhb-3FbO8AboCtVBQ" } }

def pairText : JWK × String × List String :=
  (alphaKey,
   "bgBC08PAoJEfEl0_yqTwrvTA3buzkZFVDNLzUOtKoQLLeuzor_YhPoN6AwbytQhZ5Gq6_Xhb-3FbO8AboCtVBQ",
    ["\x7b\"members\":[\x7b\"disclosure\":", "\"federation\",\"manifest_url\":",
     "\"https://gamma.example/", "manifest\",\"node_id\":", "\"gamma\"\x7d,\x7b\"disclosure\":",
     "\"federation\",\"manifest_url\":", "\"https://mallory.example/", "manifest\",\"node_id\":",
     "\"mallory\"\x7d],\"source_node_id\":", "\"alpha\"\x7d"])

def bracketedPlatform : Platform :=
  knowsDocuments [gammaText, bracketedText, pairText]
    [gammaManifest, bracketedManifest] [pairMembers]

def bracketedWorld : Env :=
  serves [("https://gamma.example/manifest", gammaManifest),
    ("https://mallory.example/manifest", bracketedManifest)]
    [("https://alpha.example/members", pairMembers)]

def bracketedRound : Py Unit := (RoundOp.discover 100 none).run bracketedPlatform beta 300

/-- Whether a round that has raised leaves the node active and unknown. -/
def strands (n : String) (outcome : Except Exc Unit × NodeState) : Bool :=
  match outcome with
  | (.error _, s) => decide ((s.membershipTable.get n).map MemberRecord.state = some .active) &&
      (s.peerManifests.get n).isNone
  | (.ok _, _) => false

theorem not_activeCached_of_strands {n : String} {outcome : Except Exc Unit × NodeState}
    (h : strands n outcome = true) : (∃ e, outcome.1 = .error e) ∧ ¬ ActiveCached outcome.2 := by
  obtain ⟨r, s⟩ := outcome
  cases r with
  | ok a => cases h
  | error e =>
    rw [strands, Bool.and_eq_true, decide_eq_true_iff, Option.isNone_iff_eq_none] at h
    obtain ⟨hstate, hnone⟩ := h
    refine ⟨⟨e, rfl⟩, fun hcached => ?_⟩
    obtain ⟨rec, hrec, hactive⟩ := Option.map_eq_some_iff.mp hstate
    obtain ⟨manifest, hmanifest⟩ := hcached n rec hrec hactive
    rw [hnone] at hmanifest
    cases hmanifest

theorem bracketedWorld_offers (c : Call) (s : NodeState) :
    Offering bracketedPlatform (fun _ _ => True) c s (bracketedWorld.handle c s).1
      (bracketedWorld.handle c s).2 := by
  refine ⟨Env.reliable (fun _ _ => rfl) c s, ?_, ?_⟩
  · obtain ⟨o, op⟩ := c
    cases op
    case hostCallback => exact ⟨_, rfl⟩
    all_goals trivial
  · obtain ⟨o, op⟩ := c
    cases op
    case httpGet => exact fun _ _ _ _ _ _ => trivial
    all_goals trivial

theorem bracketedRound_strands :
    strands "gamma" (bracketedRound.run.eval bracketedWorld.handle knowingAlpha) = true :=
  by decide +kernel

theorem knowingAlpha_activeCached : ActiveCached knowingAlpha := by
  intro n rec hrec _
  obtain ⟨hmem, rfl⟩ := Keyed.get_eq_some_iff.mp hrec
  obtain rfl : rec = alphaRecord := List.mem_singleton.mp hmem
  exact ⟨alphaManifest, rfl⟩

/-- `alpha` lists `gamma` and then `mallory`: the round raises at `mallory`, and `gamma` is
left active and unknown. -/
theorem bracketed_host_strands :
    ActiveCached knowingAlpha ∧
    ∃ tr e s', Task.Runs (Offering bracketedPlatform fun _ _ => True) Passes
      ((RoundOp.discover 100 none).run bracketedPlatform beta 300).run knowingAlpha tr
      (.error e) s' ∧
      ¬ ActiveCached s' := by
  have hrun := Task.runs_trace bracketedWorld.handle Passes.refl bracketedWorld_offers
    bracketedRound.run knowingAlpha
  obtain ⟨⟨e, he⟩, hafter⟩ := not_activeCached_of_strands bracketedRound_strands
  rw [he] at hrun
  exact ⟨knowingAlpha_activeCached, _, e, _, hrun, hafter⟩

end Federlet
