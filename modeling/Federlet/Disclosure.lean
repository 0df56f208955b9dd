import Federlet.OwnRecord

/-! What a node tells of its members, and to whom. -/

namespace Federlet

open Coop

structure DisclosurePolicy where
  default : String := "federation"
  denied : List String := []
  requesterDisclosure : Dict String := Keyed.empty

/-- A `datetime` as a caller may hand it over. -/
inductive Stamp where
  | naive
  | aware (d : DateTime)

inductive SinceCursor where
  | text (s : String)
  | stamp (d : Stamp)

/-- `parse_since_cursor`; `fromisoformat` is given the text as it stands, and
strips it and rewrites its `Z` first. -/
def parseSinceCursor (fromisoformat : String → Except Exc Stamp) (since : SinceCursor) :
    Except Exc DateTime := do
  let stamp ← match since with
    | .stamp d => .ok d
    | .text s =>
      match fromisoformat s with
      | .ok d => .ok d
      | .error exc => if exc.isValueError then .error .valueError else .error exc
  match stamp with
  | .naive => .error .valueError
  | .aware d => .ok d

def disclosedAfter {T : Type} [LT T] [DecidableLT T] (rec : MemberRecord T) (since : T) : Bool :=
  rec.lastRefresh.all fun t => since < t

/-- The condition of the comprehension in `disclose_members`. -/
def discloses {T : Type} [LE T] [LT T] [DecidableLE T] [DecidableLT T] (policy : DisclosurePolicy)
    (cursor : Option T) (rec : MemberRecord T) (now : T) : Bool :=
  rec.isEligible now && decide (rec.nodeId ∉ policy.denied) && cursor.all (disclosedAfter rec)

def memberRef {T : Type} (disclosure : String) (rec : MemberRecord T) : MemberRef :=
  { nodeId := rec.nodeId, orgId := rec.orgId, manifestUrl := rec.manifestUrl
    manifestRevision := some rec.manifestRevision, disclosure }

def discloseFrom (policy : DisclosurePolicy) (disclosure : String) (cursor : Option DateTime) :
    List MemberRecord → Py (List MemberRef)
  | [] => return []
  | rec :: members => do
    let now ← utcNow .inbound
    let refs ← discloseFrom policy disclosure cursor members
    return if discloses policy cursor rec now then memberRef disclosure rec :: refs else refs

def discloseMembers (fromisoformat : String → Except Exc Stamp) (members : List MemberRecord)
    (requesterNodeId : String) (policy : DisclosurePolicy) (since : Option SinceCursor) :
    Py (List MemberRef) := do
  let disclosure := (policy.requesterDisclosure.lookup requesterNodeId).getD policy.default
  let cursor ← raising (since.mapM (parseSinceCursor fromisoformat))
  discloseFrom policy disclosure cursor members

theorem Passes.clock_le {s s' : NodeState} (h : Passes s s') :
    s.clock.instant ≤ s'.clock.instant := by
  obtain ⟨t, ht, rfl⟩ := h
  exact ht

theorem discloseFrom_returns (policy : DisclosurePolicy) (disclosure : String)
    (cursor : Option DateTime) (members : List MemberRecord) (s : NodeState) :
    Task.Returns Does Passes (discloseFrom policy disclosure cursor members) s
      fun _ refs s' => Passes s s' ∧
      ∀ r ∈ refs, ∃ rec ∈ members, r = memberRef disclosure rec ∧
        ∃ now : DateTime, s.clock.instant ≤ now.instant ∧
        discloses policy cursor rec now = true := by
  induction members generalizing s with
  | nil => exact Task.Returns.pure ⟨Passes.refl s, by simp⟩
  | cons rec members ih =>
    refine Task.Returns.bind (Task.Returns.call (e := (⟨.inbound, .utcNow⟩ : Call)) ?_)
    rintro s₁ hs₁ now s₂ ⟨rfl, rfl⟩ _ ⟨⟩
    have hclock : s.clock.instant ≤ s₂.clock.instant := hs₁.clock_le
    refine Task.Returns.bind (Task.Returns.mono (ih s₂) ?_)
    rintro _ refs s₃ ⟨hs₃, hrefs⟩
    refine Task.Returns.pure ⟨hs₁.trans hs₃, ?_⟩
    have hlater : ∀ r ∈ refs, ∃ rec' ∈ rec :: members, r = memberRef disclosure rec' ∧
        ∃ now : DateTime, s.clock.instant ≤ now.instant ∧
        discloses policy cursor rec' now = true := by
      intro r hr
      obtain ⟨rec', hrec', he, now, hnow, hdiscloses⟩ := hrefs r hr
      exact ⟨rec', List.mem_cons_of_mem _ hrec', he, now, Int.le_trans hclock hnow, hdiscloses⟩
    split
    · rename_i hdiscloses
      exact List.forall_mem_cons.mpr
        ⟨⟨rec, List.mem_cons_self, rfl, s₂.clock, hclock, hdiscloses⟩, hlater⟩
    · exact hlater

theorem discloseMembers_returns (fromisoformat : String → Except Exc Stamp)
    (members : List MemberRecord) (requester : String) (policy : DisclosurePolicy)
    (since : Option SinceCursor) (s : NodeState) :
    Task.Returns Does Passes (discloseMembers fromisoformat members requester policy since) s
      fun _ refs _ =>
      ∀ r ∈ refs, ∃ rec ∈ members, r.nodeId = rec.nodeId ∧
        ∃ now : DateTime, s.clock.instant ≤ now.instant ∧ rec.isEligible now = true := by
  refine Task.Returns.bind (Task.Returns.lift fun cursor _ => ?_)
  refine Task.Returns.mono (discloseFrom_returns policy _ cursor members s) ?_
  rintro _ refs _ ⟨_, hrefs⟩ r hr
  obtain ⟨rec, hrec, rfl, now, hnow, hdiscloses⟩ := hrefs r hr
  simp only [discloses, Bool.and_eq_true] at hdiscloses
  exact ⟨rec, hrec, rfl, now, hnow, hdiscloses.1.1⟩

def remembering (ev : Event Call Resp NodeState) : Option String :=
  match ev.eff.op with
  | .cachePut manifest => some manifest.nodeId
  | _ => none

/-- From the deadline on the node is not eligible, and neither selected nor disclosed. -/
structure OutFrom (fromisoformat : String → Except Exc Stamp) (n : String) (deadline : DateTime)
    (s : NodeState) :
    Prop where
  ineligible : ∀ rec, s.membershipTable.get n = some rec → ∀ now :
    DateTime, deadline.instant ≤ now.instant →
    rec.isEligible now = false
  unselected : ∀ s', Passes s s' → deadline.instant ≤ s'.clock.instant →
    Task.Returns Does Passes selectPeers s' fun _ manifests _ => ∀ manifest ∈ manifests,
      manifest.nodeId ≠ n
  undisclosed : ∀ s', Passes s s' → deadline.instant ≤ s'.clock.instant → ∀ requester policy since,
    Task.Returns Does Passes
      (discloseMembers fromisoformat s'.membershipTable.entries requester policy since) s'
      fun _ refs _ => ∀ r ∈ refs, r.nodeId ≠ n

theorem MemberRecord.ineligible_from {rec : MemberRecord} {deadline now : DateTime}
    (h : rec.acceptedUntil = some deadline) (hnow : deadline.instant ≤ now.instant) :
    rec.isEligible now = false := by
  by_cases hactive : rec.state = .active <;> simp [MemberRecord.isEligible, hactive, h, hnow]

theorem outFrom_of_deadline {fromisoformat : String → Except Exc Stamp} {n : String}
    {deadline : DateTime} {s : NodeState}
    (hs : AllRecords (fun rec => rec.nodeId = n → rec.acceptedUntil = some deadline) s) :
    OutFrom fromisoformat n deadline s := by
  have hout : ∀ rec ∈ s.membershipTable.entries, rec.nodeId = n → ∀ now : DateTime,
      deadline.instant ≤ now.instant → rec.isEligible now = false := by
    intro rec hrec hnode now hnow
    exact MemberRecord.ineligible_from (hs rec.nodeId rec (Keyed.get_of_mem hrec) hnode) hnow
  refine ⟨?_, ?_, ?_⟩
  · intro rec hrec
    exact hout rec (Keyed.mem_of_get hrec) (Keyed.key_of_get hrec)
  · intro s' hs' hclock
    refine Task.Returns.mono (selectPeers_returns s') ?_
    rintro _ manifests _ ⟨_, now, hnow, _, rfl⟩ manifest hm hnode
    obtain ⟨rec, hrec, hget⟩ := List.mem_filterMap.mp hm
    obtain ⟨hmem, heligible⟩ := List.mem_filter.mp hrec
    have hsame : manifest.nodeId = rec.nodeId := Keyed.key_of_get hget
    rw [hs'.table] at hmem
    rw [hout rec hmem (hsame.symm.trans hnode) now (Int.le_trans hclock hnow)] at heligible
    cases heligible
  · intro s' hs' hclock requester policy since
    refine Task.Returns.mono (discloseMembers_returns fromisoformat _ requester policy since s') ?_
    rintro _ refs _ hrefs r hr hnode
    obtain ⟨rec, hmem, hsame, now, hnow, heligible⟩ := hrefs r hr
    rw [hs'.table] at hmem
    rw [hout rec hmem (hsame.symm.trans hnode) now (Int.le_trans hclock hnow)] at heligible
    cases heligible

/-- A deadline set by the host stands throughout any refreshes that do not keep the peer. -/
theorem deadline_stands (P : Platform) (node : FederationNode)
    (fromisoformat : String → Except Exc Stamp) {n : String} {deadline : DateTime}
    {s s' : NodeState} {rec : MemberRecord} (hrec : s.membershipTable.get n = some rec)
    (hdeadline : rec.acceptedUntil = some deadline) {ops : List (LifecycleOp × Except Exc Unit)}
    {tr : Trace} (hrun : Sequence P node s ops tr s') (hrefreshes : ∀ x ∈ ops, x.1.refreshes)
    (hunkept : ∀ ev ∈ tr, remembering ev ≠ some n) :
    OutFrom fromisoformat n deadline s' ∧ ∀ ev ∈ tr, OutFrom fromisoformat n deadline ev.post := by
  have hunkeepable : RefreshRule (Only fun ev => remembering ev ≠ some n)
      (fun rec => rec.nodeId = n → rec.acceptedUntil = some deadline) := by
    refine ⟨fun _ _ _ h => h, ?_⟩
    rintro manifest _ _ _ ⟨_, hother⟩ rec hsame _ _ hnode
    exact absurd (congrArg some (hsame.symm.trans hnode)) hother
  have hs : AllRecords (fun rec => rec.nodeId = n → rec.acceptedUntil = some deadline) s := by
    rintro k rec' hrec' rfl
    have hkey : rec'.nodeId = k := Keyed.key_of_get hrec'
    rw [hkey, hrec'] at hrec
    rwa [Option.some.inj hrec]
  obtain ⟨hend, hevents⟩ := hrun.allRecords (fun ev => remembering ev ≠ some n)
    (fun x hx s hs => x.1.recordsKeep_of_refreshes (narrows_only _) hunkeepable (hrefreshes x hx)
      hs) hs hunkept
  exact ⟨outFrom_of_deadline hend, fun ev hev => outFrom_of_deadline (hevents ev hev)⟩

def tenSecondsOn : DateTime := .utc 63902822410000000 (by decide)

def alphaForTen : MemberRecord :=
  ({ nodeId := "alpha", manifestUrl := "https://alpha.example/manifest" } :
    MemberRecord).admitRecord (some tenSecondsOn) newYear2026

def lendingAlpha : NodeState := { knowingAlpha with membershipTable := Keyed.ofList [alphaForTen] }

def refreshOnce (env : Env) : List (LifecycleOp × Except Exc Unit) × Trace × NodeState :=
  playOps seedPlatform beta env [.operation (.refreshAll none 300)] lendingAlpha

theorem refreshOnce_told {env : Env} (hnow : ∀ o t, env.now o t = t) :
    Sequence seedPlatform beta lendingAlpha (refreshOnce env).1 (refreshOnce env).2.1
      (refreshOnce env).2.2 ∧
      ∀ x ∈ (refreshOnce env).1, x.1.refreshes := by
  obtain ⟨hops, hrun, _⟩ := playOps_told hnow
    (rfl : playOps seedPlatform beta env [.operation (.refreshAll none 300)] lendingAlpha =
      refreshOnce env)
  refine ⟨hrun, fun x hx => ?_⟩
  have hmem : x.1 ∈ [LifecycleOp.operation (.refreshAll none 300)] := hops ▸ List.mem_map_of_mem hx
  rw [List.mem_singleton.mp hmem]
  trivial

theorem refresh_lifts_deadline :
    ∃ ops tr s', lendingAlpha.membershipTable.get "alpha" = some alphaForTen ∧
      alphaForTen.acceptedUntil = some tenSecondsOn ∧
      Sequence seedPlatform beta lendingAlpha ops tr s' ∧
      (∀ x ∈ ops, x.1.refreshes) ∧ ∀ fromisoformat, ¬ OutFrom fromisoformat "alpha"
        tenSecondsOn s' := by
  have heligible : ((refreshOnce seedWorld).2.2.membershipTable.get "alpha").any
      (fun rec => rec.isEligible tenSecondsOn) = true := by decide +kernel
  obtain ⟨hrun, hrefreshes⟩ := @refreshOnce_told seedWorld fun _ _ => rfl
  refine ⟨_, _, _, rfl, rfl, hrun, hrefreshes, fun fromisoformat hout => ?_⟩
  obtain ⟨rec, hrec, hstill⟩ := (Option.any_eq_true _ _).mp heligible
  have hnot := hout.ineligible rec hrec tenSecondsOn (Int.le_refl _)
  rw [hnot] at hstill
  cases hstill

theorem deadline_outlasts_timeout :
    ∃ ops tr s', Sequence seedPlatform beta lendingAlpha ops tr s' ∧
      ∀ fromisoformat, OutFrom fromisoformat "alpha" tenSecondsOn s' := by
  have hunkept :
      ((refreshOnce silentWorld).2.1.all fun ev => decide (remembering ev ≠ some "alpha")) = true :=
        by
    decide +kernel
  obtain ⟨hrun, hrefreshes⟩ := @refreshOnce_told silentWorld fun _ _ => rfl
  refine ⟨_, _, _, hrun, fun fromisoformat => ?_⟩
  exact (deadline_stands seedPlatform beta fromisoformat rfl rfl hrun hrefreshes fun ev hev =>
    of_decide_eq_true (List.all_eq_true.mp hunkept ev hev)).1

end Federlet
