import Federlet.Round
import Federlet.Eviction

/-! What a round of discovery makes of its hints: every hint is accounted for once,
nothing else is touched, and a node gets in exactly through a hint that no earlier
one stands in the way of. -/

namespace Federlet

open Coop

inductive Bucket where
  | accepted
  | rejected
  | skipped
  | failed
  deriving DecidableEq

def DiscoveryRefreshReport.of (report : DiscoveryRefreshReport) : Bucket → List DiscoveryOutcome
  | .accepted => report.accepted
  | .rejected => report.rejected
  | .skipped => report.skipped
  | .failed => report.failed

def Fate.bucket : Fate → Bucket
  | .passed _ | .mismatched _ | .own _ => .skipped
  | .failed _ => .failed
  | .rejected _ _ => .rejected
  | .accepted _ _ => .accepted

/-- The node, the URL and the source an outcome is about. -/
def DiscoveryOutcome.about (o : DiscoveryOutcome) : String × String × String :=
  (o.nodeId, o.manifestUrl, o.sourceNodeId)

def Hint.entry (h : Hint) : Bucket × DiscoveryOutcome := (h.fate.bucket, h.outcome)

theorem Hint.about_outcome (h : Hint) :
    h.outcome.about = (h.ref.nodeId, h.ref.manifestUrl, h.source) := by
  obtain ⟨source, index, ref, fate⟩ := h
  cases fate <;> rfl

namespace Visit

def entries (P : Platform) (v : Visit) : List (Bucket × DiscoveryOutcome) :=
  match v.list P with
  | .error reason =>
    [(.failed, { nodeId := v.record.nodeId, manifestUrl := v.record.manifestUrl,
                 sourceNodeId := v.record.nodeId, reason := reason })]
  | .ok _ => v.hints.map Hint.entry

/-- What a visit owes an outcome for: its record if no list was obtained, else
every reference of the list. -/
def owed (P : Platform) (v : Visit) : List (String × String × String) :=
  match v.list P with
  | .error _ => [(v.record.nodeId, v.record.manifestUrl, v.record.nodeId)]
  | .ok (source, refs) => refs.map fun ref => (ref.nodeId, ref.manifestUrl, source)

end Visit

def inBucket (b : Bucket) (entries : List (Bucket × DiscoveryOutcome)) : List DiscoveryOutcome :=
  (entries.filter fun e => e.1 = b).map Prod.snd

theorem inBucket_append (b : Bucket) (entries entries' : List (Bucket × DiscoveryOutcome)) :
    inBucket b (entries ++ entries') = inBucket b entries ++ inBucket b entries' := by
  simp [inBucket]

theorem of_hint (report : DiscoveryRefreshReport) (h : Hint) (b : Bucket) :
    (Hint.report report h).of b = report.of b ++ inBucket b [h.entry] := by
  obtain ⟨source, index, ref, fate⟩ := h
  cases fate <;> cases b <;>
    simp [Hint.report, DiscoveryRefreshReport.of, inBucket, Hint.entry, Fate.bucket,
      DiscoveryRefreshReport.skip, DiscoveryRefreshReport.fail, DiscoveryRefreshReport.reject,
        DiscoveryRefreshReport.accept]

theorem of_hints (report : DiscoveryRefreshReport) (hints : List Hint) (b : Bucket) :
    (hints.foldl Hint.report report).of b = report.of b ++ inBucket b (hints.map Hint.entry) := by
  induction hints generalizing report with
  | nil => simp [inBucket]
  | cons h hints ih =>
    rw [List.foldl_cons, ih, of_hint, List.append_assoc, ← inBucket_append]
    rfl

theorem of_visit (P : Platform) (report : DiscoveryRefreshReport) (v : Visit) (b : Bucket) :
    (Visit.report P report v).of b = report.of b ++ inBucket b (v.entries P) := by
  rw [Visit.report, Visit.entries]
  cases v.list P with
  | error reason =>
    cases b <;> simp [DiscoveryRefreshReport.fail, DiscoveryRefreshReport.of, inBucket]
  | ok list => exact of_hints report v.hints b

theorem of_visits (P : Platform) (report : DiscoveryRefreshReport) (visits : List Visit)
    (b : Bucket) :
    (visits.foldl (Visit.report P) report).of b = report.of b ++ inBucket b
    (visits.flatMap (Visit.entries P)) := by
  induction visits generalizing report with
  | nil => simp [inBucket]
  | cons v visits ih =>
    rw [List.foldl_cons, ih, of_visit, List.append_assoc, ← inBucket_append, List.flatMap_cons]

theorem Listed.about {source : String} {index : Nat} {refs : List MemberRef} {hints : List Hint}
    (h : Listed source index refs hints) :
    hints.map (fun h => h.outcome.about) = refs.map fun ref =>
      (ref.nodeId, ref.manifestUrl, source) := by
  induction refs generalizing index hints with
  | nil =>
    cases hints with
    | nil => rfl
    | cons h hints => exact h.elim
  | cons ref refs ih =>
    cases hints with
    | nil => exact h.elim
    | cons x hints =>
      obtain ⟨⟨hsource, _, href⟩, hrest⟩ := h
      rw [List.map_cons, List.map_cons, ih hrest, Hint.about_outcome, hsource, href]

theorem Visit.Told.owed {P : Platform} {cached : String → Option Manifest} {v : Visit}
    (h : v.Told P cached) : (v.entries P).map (fun e => e.2.about) = v.owed P := by
  have hlist := h.2
  rw [Visit.entries, Visit.owed]
  cases he : v.list P with
  | error reason => rfl
  | ok list =>
    rw [he] at hlist
    rw [List.map_map]
    exact hlist.about

theorem Listed.indices {source : String} {index : Nat} {refs : List MemberRef} {hints : List Hint}
    (h : Listed source index refs hints) :
    hints.map Hint.index = List.range' index refs.length := by
  induction refs generalizing index hints with
  | nil =>
    cases hints with
    | nil => rfl
    | cons h hints => exact h.elim
  | cons ref refs ih =>
    cases hints with
    | nil => exact h.elim
    | cons x hints =>
      obtain ⟨⟨_, hindex, _⟩, hrest⟩ := h
      rw [List.map_cons, ih hrest, hindex, List.length_cons, List.range'_succ]

theorem Listed.tried_le {source : String} {refs : List MemberRef} {hints : List Hint} {cap : Int}
    (h : Listed source 0 refs hints)
    (hwithin : ∀ x ∈ hints, x.fate.tried = true → (x.index : Int) < cap) :
    (hints.filter fun x => x.fate.tried).length ≤ cap.toNat := by
  have hnodup : ((hints.filter fun x => x.fate.tried).map Hint.index).Nodup := by
    refine List.Nodup.sublist (List.filter_sublist.map _) ?_
    rw [h.indices]
    exact List.nodup_range'
  have hsub : (hints.filter fun x => x.fate.tried).map Hint.index ⊆ List.range cap.toNat := by
    intro n hn
    obtain ⟨x, hx, rfl⟩ := List.mem_map.mp hn
    obtain ⟨hmem, htried⟩ := List.mem_filter.mp hx
    have hlt := hwithin x hmem htried
    exact List.mem_range.mpr (by omega)
  simpa using (List.subperm_of_subset hnodup hsub).length_le

def Hint.gained (h : Hint) : Option MemberRecord :=
  match h.fate with
  | .accepted _ rec => some rec
  | _ => none

section Gains

variable {sem : Sem Call Resp NodeState} {background : NodeState → NodeState → Prop} {P : Platform}
  {client : FederationClient} {policy : AdmissionPolicy} {skew cap : Int}

theorem Fate.Justified.recordOf {ref : MemberRef} {manifest : Manifest} {rec : MemberRecord}
    (h : Fate.Justified sem background P client policy skew ref (.accepted manifest rec)) :
    rec.nodeId = ref.nodeId ∧ rec.manifestUrl = ref.manifestUrl ∧ rec.state = .active ∧
      rec.manifestRevision = manifest.revision := by
  obtain ⟨_, hsame, _, now, rfl⟩ := h
  exact ⟨hsame, rfl, rfl, rfl⟩

theorem entries_of_hints {hints : List Hint} {table : Keyed (@MemberRecord.nodeId DateTime)}
    {round : DiscoveryRound}
    (hjust : ∀ h ∈ hints, h.fate.Justified sem background P client policy skew h.ref)
    (hsifted : Sift.Sifted Hint.labels (fun n => n = client.nodeId) cap (frontOf table round)
      hints) : (hints.foldl Hint.record table).entries = table.entries ++ hints.filterMap
    Hint.gained := by
  induction hints generalizing table round with
  | nil => simp
  | cons h hints ih =>
    obtain ⟨hhead, hrest⟩ := List.forall_mem_cons.mp hjust
    obtain ⟨hopen, hsifted⟩ := hsifted
    by_cases htried : h.fate.tried = true
    · have hfront := @frontOf_next sem background P client policy skew table round
        ⟨round.outcomes, h.ref.nodeId :: round.seenNodeIds, h.ref.manifestUrl ::
          round.seenManifestUrls⟩ h hhead htried
        rfl rfl
      rw [← hfront] at hsifted
      have hunknown := (hopen.mp htried).unknown
      rw [List.foldl_cons, ih hrest hsifted]
      obtain ⟨source, index, ref, fate⟩ := h
      cases fate
      case accepted manifest rec =>
        have hnone : table.get rec.nodeId = none := by
          rw [(Fate.Justified.recordOf hhead).1]
          exact Option.eq_none_iff_forall_ne_some.mpr fun r hr => hunknown ⟨r, hr⟩
        simp only [Hint.record, Keyed.entries_upsert_of_new hnone, List.filterMap_cons, Hint.gained,
          List.append_assoc, List.singleton_append]
      all_goals rfl
    · rw [Sift.Front.next, if_neg (show ¬ Hint.labels.tried h = true from htried)] at hsifted
      rw [List.foldl_cons]
      obtain ⟨source, index, ref, fate⟩ := h
      cases fate
      case passed => exact ih hrest hsifted
      all_goals exact absurd rfl htried

theorem gained_of_hints {hints : List Hint}
    (hjust : ∀ h ∈ hints, h.fate.Justified sem background P client policy skew h.ref) :
    (hints.filterMap Hint.gained).map (fun rec => (rec.nodeId, rec.manifestUrl)) =
      (inBucket .accepted (hints.map Hint.entry)).map fun o => (o.nodeId, o.manifestUrl) := by
  induction hints with
  | nil => rfl
  | cons h hints ih =>
    obtain ⟨hhead, hrest⟩ := List.forall_mem_cons.mp hjust
    have hone : (h.gained.toList).map (fun rec => (rec.nodeId, rec.manifestUrl)) =
        (inBucket .accepted [h.entry]).map fun o => (o.nodeId, o.manifestUrl) := by
      obtain ⟨source, index, ref, fate⟩ := h
      cases fate
      case accepted manifest rec =>
        obtain ⟨hnode, hurl, _, _⟩ := Fate.Justified.recordOf hhead
        simp [Hint.gained, inBucket, Hint.entry, Fate.bucket, Hint.outcome, hnode, hurl]
      all_goals rfl
    have hcons : (h :: hints).filterMap Hint.gained = h.gained.toList ++ hints.filterMap
        Hint.gained := by
      rw [List.filterMap_cons]
      cases h.gained <;> rfl
    rw [hcons, List.map_append, hone, ih hrest, ← List.map_append, ← inBucket_append]
    rfl

theorem inBucket_accepted_entries {cached : String → Option Manifest} {visits : List Visit}
    (htold : ∀ v ∈ visits, v.Told P cached) :
    inBucket .accepted (visits.flatMap (Visit.entries P)) = inBucket .accepted
      ((hintsOf visits).map Hint.entry) := by
  induction visits with
  | nil => rfl
  | cons v visits ih =>
    obtain ⟨hv, hrest⟩ := List.forall_mem_cons.mp htold
    have hcons : hintsOf (v :: visits) = v.hints ++ hintsOf visits := List.flatMap_cons
    rw [List.flatMap_cons, inBucket_append, ih hrest, hcons, List.map_append, inBucket_append]
    refine congrArg (· ++ _) ?_
    have hlist := hv.2
    rw [Visit.entries]
    cases he : v.list P with
    | error reason =>
      rw [he] at hlist
      rw [hlist]
      rfl
    | ok list => rfl

end Gains

/-- A round that accounts for its hints: one visit for every eligible record, and
for every visit the outcomes it owes; the records gained are those of the accepted
references and the rest of the node is as it was; nothing is fetched twice. -/
structure Accounts (P : Platform) (client : FederationClient) (cap : Int) (ref : Nat)
    (s : NodeState) (tr : Trace) (report : DiscoveryRefreshReport) (s' : NodeState)
    (visits : List Visit) : Prop where
  eligible : ∃ now : DateTime, s.clock.instant ≤ now.instant ∧ now.instant ≤ s'.clock.instant ∧
    visits.map Visit.record = s.membershipTable.entries.filter (fun rec => rec.isEligible now)
  visited : ∀ v ∈ visits, v.Told P fun n => if ref = s.cacheRef then s.peerManifests.get n else none
  requests : tr.filterMap asked = visits.filterMap Visit.request
  owed : (visits.flatMap (Visit.entries P)).map (fun e => e.2.about) = visits.flatMap (Visit.owed P)
  reported : ∀ b, report.of b = inBucket b (visits.flatMap (Visit.entries P))
  gained : ∃ gained : List MemberRecord, s'.membershipTable.entries =
    s.membershipTable.entries ++ gained ∧
    gained.map (fun rec => (rec.nodeId, rec.manifestUrl)) = report.accepted.map
      (fun o => (o.nodeId, o.manifestUrl)) ∧
    (gained.map MemberRecord.nodeId).Nodup ∧ ∀ rec ∈ gained, rec.state = .active ∧
    rec.nodeId ≠ client.nodeId
  kept : ∀ n rec, s.membershipTable.get n = some rec → s'.membershipTable.get n = some rec
  untouched : Leaves s'.membershipTable s s'
  fetched : (tr.filterMap fetchedUrl).Sublist (triedUrls (hintsOf visits))
  urlsOnce : (triedUrls (hintsOf visits)).Nodup
  nodesOnce : (((hintsOf visits).filter fun h => h.fate.tried).map fun h => h.ref.nodeId).Nodup
  capped : ∀ v ∈ visits, ((v.hints.filter fun h => h.fate.tried).length : Int) ≤ cap

section Accounting

variable {P : Platform} {client : FederationClient} {policy : AdmissionPolicy} {skew cap : Int}

theorem RoundTold.accounts {sem : Sem Call Resp NodeState}
    {background : NodeState → NodeState → Prop} {ref : Nat} {s s' : NodeState} {tr : Trace}
    {report : DiscoveryRefreshReport} {visits : List Visit} (hcap : 0 ≤ cap)
    (h : RoundTold sem background P client policy skew cap ref s tr report s' visits) :
    Accounts P client cap ref s tr report s' visits := by
  have hreported : ∀ b, report.of b = inBucket b (visits.flatMap (Visit.entries P)) := by
    intro b
    rw [h.report, of_visits]
    cases b <;> rfl
  have hentries : s'.membershipTable.entries = s.membershipTable.entries ++
      (hintsOf visits).filterMap Hint.gained := by
    rw [h.leaves.table, entries_of_hints h.justified h.sifted]
  have haccepted : report.accepted = inBucket .accepted ((hintsOf visits).map Hint.entry) :=
    (hreported .accepted).trans (inBucket_accepted_entries h.visited)
  have hnodup := s'.membershipTable.nodup
  rw [hentries, List.map_append] at hnodup
  refine ⟨h.eligible, h.visited, h.calm.2, ?_, hreported,
    ⟨_, hentries, ?_, hnodup.of_append_right, ?_⟩, ?_, ?_, h.calm.1, h.sifted.places_nodup,
      h.sifted.names_nodup, ?_⟩
  · rw [List.map_flatMap]
    exact List.flatMap_congr fun v hv => (h.visited v hv).owed
  · rw [haccepted, gained_of_hints h.justified]
  · intro rec hrec
    obtain ⟨x, hx, hgained⟩ := List.mem_filterMap.mp hrec
    have hjust := h.justified x hx
    have hopen := fun ht => h.sifted.open_of_tried hx ht
    obtain ⟨source, index, ref, fate⟩ := x
    cases fate
    case accepted manifest rec' =>
      obtain rfl : rec' = rec := Option.some.inj hgained
      obtain ⟨hnode, _, hactive, _⟩ := Fate.Justified.recordOf hjust
      refine ⟨hactive, ?_⟩
      rw [hnode]
      exact (hopen rfl).allowed
    all_goals cases hgained
  · intro n rec hrec
    obtain ⟨hmem, hnode⟩ := Keyed.get_eq_some_iff.mp hrec
    refine Keyed.get_eq_some_iff.mpr ⟨?_, hnode⟩
    rw [hentries]
    exact List.mem_append_left _ hmem
  · rw [h.leaves.table]
    exact h.leaves
  · intro v hv
    have hwithin : ∀ x ∈ v.hints, x.fate.tried = true → (x.index : Int) < cap := fun x hx ht =>
      (h.sifted.open_of_tried (List.mem_flatMap.mpr ⟨v, hv, hx⟩) ht).within
    have hlist := (h.visited v hv).2
    cases he : v.list P with
    | error reason =>
      rw [he] at hlist
      rw [hlist]
      exact hcap
    | ok list =>
      rw [he] at hlist
      have hle := hlist.tried_le hwithin
      omega

/-- Every call that returns accounts for every hint once and touches nothing else. -/
theorem discovery_accounts (hcap : 0 ≤ cap) (ref : Nat) (since : Option String)
    {s s' : NodeState} {tr : Trace} {report : DiscoveryRefreshReport} (hrun : Task.Runs Does Passes
      (refreshDiscoveredMembers P client policy skew ref cap since).run s tr (.ok report) s') :
    ∃ visits, Accounts P client cap ref s tr report s' visits := by
  have henv : Narrows Does Passes := ⟨fun _ _ _ _ h => h, fun _ _ h => h⟩
  obtain ⟨visits, hround⟩ := refreshDiscoveredMembers_returns henv ref since s tr _ s'
    hrun report rfl
  exact ⟨visits, hround.accounts hcap⟩

end Accounting

section Admission

variable (sem : Sem Call Resp NodeState) (background : NodeState → NodeState → Prop) (P : Platform)
  (client : FederationClient) (policy : AdmissionPolicy) (skew cap : Int)

/-- The URL of the reference serves an admissible manifest of the node it names. -/
def ServesAdmissible (ref : MemberRef) : Prop :=
  ∀ r, Fetches sem background P client skew ref.manifestUrl r → ∃ manifest, r = .ok manifest ∧
    manifest.nodeId = ref.nodeId ∧
    ∀ decision, Decides sem background P policy skew manifest decision → decision.accepted = true

/-- No hint tried before this one carries its node or its URL. -/
def Unobstructed (hints : List Hint) (h : Hint) : Prop :=
  ∃ before after, hints = before ++ h :: after ∧
    ∀ x ∈ before, x.fate.tried = true → x.ref.nodeId ≠ h.ref.nodeId ∧
    x.ref.manifestUrl ≠ h.ref.manifestUrl

def Holds (n : String) (s : NodeState) : Prop := ∃ rec, s.membershipTable.get n = some rec ∧
    rec.state = .active

variable {sem background P client policy skew cap}

theorem ServesAdmissible.taken {ref : MemberRef}
    (h : ServesAdmissible sem background P client policy skew ref)
    (hself : ref.nodeId ≠ client.nodeId) {fate : Fate} (htried : fate.tried = true)
    (hjust : fate.Justified sem background P client policy skew ref) : fate.taken = true := by
  cases fate
  case passed reason => cases htried
  case failed reason =>
    obtain ⟨exc, hfetch, _⟩ := hjust
    obtain ⟨manifest, he, _⟩ := h _ hfetch
    cases he
  case mismatched manifest =>
    obtain ⟨m, he, hsame, _⟩ := h _ hjust.1
    cases he
    exact absurd hsame hjust.2
  case own manifest =>
    obtain ⟨m, he, hsame, _⟩ := h _ hjust.1
    cases he
    exact absurd (hsame.symm.trans hjust.2.2) hself
  case rejected manifest reason =>
    obtain ⟨hfetch, _, decision, hdecides, hrefused, _⟩ := hjust
    obtain ⟨m, he, _, haccepts⟩ := h _ hfetch
    cases he
    rw [haccepts decision hdecides] at hrefused
    cases hrefused
  case accepted manifest rec => rfl

section Round

variable {ref : Nat} {s s' : NodeState} {tr : Trace} {report : DiscoveryRefreshReport}
  {visits : List Visit}
  (h : RoundTold sem background P client policy skew cap ref s tr report s' visits)

include h

theorem RoundTold.holds_iff {n : String} (hnew : s.membershipTable.get n = none) :
    Holds n s' ↔ ∃ x ∈ hintsOf visits, x.fate.taken = true ∧ x.ref.nodeId = n := by
  have hentries := entries_of_hints h.justified h.sifted
  rw [← h.leaves.table] at hentries
  constructor
  · rintro ⟨rec, hrec, _⟩
    obtain ⟨hmem, rfl⟩ := Keyed.get_eq_some_iff.mp hrec
    rw [hentries] at hmem
    rcases List.mem_append.mp hmem with hold | hgained
    · exact absurd rfl (Keyed.get_eq_none_iff.mp hnew rec hold)
    · obtain ⟨x, hx, hgain⟩ := List.mem_filterMap.mp hgained
      have hjust := h.justified x hx
      refine ⟨x, hx, ?_⟩
      obtain ⟨source, index, ref, fate⟩ := x
      cases fate
      case accepted manifest rec' =>
        obtain rfl : rec' = rec := Option.some.inj hgain
        exact ⟨rfl, (Fate.Justified.recordOf hjust).1.symm⟩
      all_goals cases hgain
  · rintro ⟨x, hx, htaken, rfl⟩
    have hjust := h.justified x hx
    obtain ⟨source, index, ref, fate⟩ := x
    cases fate
    case accepted manifest rec =>
      obtain ⟨hnode, _, hactive, _⟩ := Fate.Justified.recordOf hjust
      refine ⟨rec, Keyed.get_eq_some_iff.mpr ⟨?_, hnode⟩, hactive⟩
      rw [hentries]
      exact List.mem_append_right _ (List.mem_filterMap.mpr ⟨_, hx, rfl⟩)
    all_goals cases htaken

theorem RoundTold.unobstructed_of_taken {x : Hint} (hx : x ∈ hintsOf visits)
    (htaken : x.fate.taken = true) : (x.index : Int) < cap ∧ Unobstructed (hintsOf visits) x := by
  have htried : x.fate.tried = true := by
    cases hf : x.fate <;> simp [hf, Fate.taken, Fate.tried] at htaken ⊢
  obtain ⟨before, after, hsplit⟩ := List.append_of_mem hx
  have hsifted := h.sifted
  rw [hsplit] at hsifted
  obtain ⟨⟨hwithin, _⟩, hbefore⟩ := hsifted.tried_iff.mp htried
  exact ⟨hwithin, before, after, hsplit, hbefore⟩

theorem RoundTold.holds_of_unobstructed {x : Hint} (hx : Unobstructed (hintsOf visits) x)
    (hwithin : (x.index : Int) < cap) (hself : x.ref.nodeId ≠ client.nodeId)
    (hnew : s.membershipTable.get x.ref.nodeId = none)
    (hgood : ServesAdmissible sem background P client policy skew x.ref) :
    Holds x.ref.nodeId s' := by
  obtain ⟨before, after, hsplit, hbefore⟩ := hx
  have hsifted := h.sifted
  rw [hsplit] at hsifted
  have hmem : x ∈ hintsOf visits := by
    rw [hsplit]
    simp
  have hunknown : ¬ (frontOf s.membershipTable {}).known x.ref.nodeId := by
    rintro ⟨rec, hrec⟩
    rw [hnew] at hrec
    cases hrec
  have htried := hsifted.tried_iff.mpr
    ⟨⟨hwithin, hself, hunknown, List.not_mem_nil, List.not_mem_nil⟩, hbefore⟩
  exact (h.holds_iff hnew).mpr ⟨x, hmem, hgood.taken hself htried (h.justified x hmem), rfl⟩

end Round

/-- A node that is neither the local one nor in the table gets in through every
good hint within the cap that no hint tried earlier in the round stands in the
way of, and through no other kind of hint. -/
theorem hints_admit (henv : Narrows sem background) {ref : Nat} {since : Option String}
    {s s' : NodeState} {tr : Trace} {report : DiscoveryRefreshReport}
    (hrun : Task.Runs sem background
      (refreshDiscoveredMembers P client policy skew ref cap since).run s tr (.ok report) s')
    {n : String} (hself : n ≠ client.nodeId) (hnew : s.membershipTable.get n = none) :
    ∃ visits, RoundTold sem background P client policy skew cap ref s tr report s' visits ∧
      (∀ h, Unobstructed (hintsOf visits) h → h.ref.nodeId = n → (h.index : Int) < cap →
        ServesAdmissible sem background P client policy skew h.ref → Holds n s') ∧
      (Holds n s' → ∃ h, Unobstructed (hintsOf visits) h ∧ h.ref.nodeId = n ∧
        (h.index : Int) < cap ∧
        h.fate.taken = true) := by
  obtain ⟨visits, hround⟩ := refreshDiscoveredMembers_returns henv ref since s tr _ s'
    hrun report rfl
  refine ⟨visits, hround, ?_, fun hholds => ?_⟩
  · rintro h hopen rfl hwithin hgood
    exact hround.holds_of_unobstructed hopen hwithin hself hnew hgood
  · obtain ⟨h, hmem, htaken, hnode⟩ := (hround.holds_iff hnew).mp hholds
    obtain ⟨hwithin, hopen⟩ := hround.unobstructed_of_taken hmem htaken
    exact ⟨h, hopen, hnode, hwithin, htaken⟩

variable (P client policy skew) in
def servesNow (env : Env) (s : NodeState) (ref : MemberRef) : Bool :=
  match ((fetchManifest P client .discovery ref.manifestUrl skew).run.eval env.handle s).1 with
  | .error _ => false
  | .ok manifest =>
    manifest.nodeId == ref.nodeId &&
      match ((admitManifest P .discovery manifest policy skew).run.eval env.handle s).1 with
      | .error _ => false
      | .ok decision => decision.accepted

theorem servesAdmissible_of_servesNow {env : Env} {s : NodeState} {ref : MemberRef}
    (h : servesNow P client policy skew env s ref = true) :
    ServesAdmissible (frozen env s.clock) Eq P client policy skew ref := by
  rintro r ⟨s₁, tr, s₂, hrun⟩
  have hr := eval_of_frozen_runs (fetchManifest_routine client .discovery ref.manifestUrl skew) hrun
  rw [servesNow, hr] at h
  cases r with
  | error e => cases h
  | ok manifest =>
    obtain ⟨hnode, haccepts⟩ := Bool.and_eq_true_iff.mp h
    refine ⟨manifest, rfl, by simpa using hnode, ?_⟩
    rintro decision ⟨s₃, tr', s₄, hdecides⟩
    have hd := eval_of_frozen_runs
      (admitManifest_routine .discovery manifest policy skew).outward hdecides
    rw [hd] at haccepts
    exact haccepts

end Admission

def malloryManifest : Manifest :=
  { nodeId := "mallory", orgId := "evil", federations := ["fed"],
    endpoint := "https://mallory.example"
    protocolVersions := ["1"], revision := 1,
    publicKeys := [{ keyId := "k1", publicJwk := malloryKey }]
    membership := { introduceUrl := "https://mallory.example/introduce"
                    membersUrl := "https://mallory.example/members" }
    expiresAt := alphaManifest.expiresAt
    signature := some { keyId := "k1", sig :=
      "NuX74SodewOxOHRwp8BTDt9OnE1IFQ8KY0g-4msZQUfUVjt7en4F_eSwHQ6YemrPcA0xaepAj1mQLLq57FHBDw" } }

def malloryMembers : MembersResponse :=
  { sourceNodeId := "mallory"
    members := [{ nodeId := "gamma", manifestUrl := "https://mallory.example/gamma" }]
    signature := some { keyId := "k1", sig :=
      "a64onh6OA4klbgEhRQmlSTzrDa2z14rU7D5kmFVEA0u5LCiVmIw6D__438A8mhk0bXEoFeflI_SeOX3QKkE_Ag" } }

def malloryMembersText : JWK × String × List String :=
  (malloryKey,
   "a64onh6OA4klbgEhRQmlSTzrDa2z14rU7D5kmFVEA0u5LCiVmIw6D__438A8mhk0bXEoFeflI_SeOX3QKkE_Ag",
    ["\x7b\"members\":[\x7b\"disclosure\":", "\"federation\",\"manifest_url\":",
    "\"https://mallory.example/", "gamma\",\"node_id\":\"gamma\"\x7d],",
    "\"source_node_id\":\"mallory\"\x7d"])

def rivalPlatform : Platform :=
  knowsDocuments [gammaText, membersText, malloryMembersText] [gammaManifest]
    [alphaMembers, malloryMembers]

def rivalWorld : Env :=
  serves [("https://gamma.example/manifest", gammaManifest)]
    [("https://alpha.example/members", alphaMembers),
      ("https://mallory.example/members", malloryMembers)]

def malloryRecord : MemberRecord :=
  ({ nodeId := "mallory", manifestUrl := "https://mallory.example/manifest" } :
    MemberRecord).admitRecord none newYear2026

def knowingRivals : NodeState :=
  { knowingAlpha with
    membershipTable := Keyed.ofList [malloryRecord, alphaRecord]
    peerManifests := Keyed.ofList [malloryManifest, alphaManifest] }

def gammaRef : MemberRef := { nodeId := "gamma", manifestUrl := "https://gamma.example/manifest" }

def rivalRound (s : NodeState) : Py DiscoveryRefreshReport :=
  refreshDiscoveredMembers rivalPlatform beta.client beta.admissionPolicy 300 s.cacheRef 100 none

def rivalTrace (s : NodeState) : Trace := (rivalRound s).run.trace rivalWorld.handle s

def rivalEnd (s : NodeState) : NodeState := ((rivalRound s).run.eval rivalWorld.handle s).2

def rivalVerdict (s : NodeState) : Option Bool :=
  match (rivalRound s).run.eval rivalWorld.handle s with
  | (.ok _, s') =>
    some ((s'.membershipTable.get "gamma").any fun rec => decide (rec.state = .active))
  | (.error _, _) => none

theorem rivalRound_runs {s : NodeState} {b : Bool} (hs : s.clock = newYear2026)
    (h : rivalVerdict s = some b) :
    ∃ report, Task.Runs (frozen rivalWorld newYear2026) Eq (rivalRound s).run s
      (rivalTrace s) (.ok report) (rivalEnd s) ∧ (Holds "gamma" (rivalEnd s) ↔ b = true) := by
  have hrun : Task.Runs (frozen rivalWorld newYear2026) Eq _ s _ _ _ :=
    frozen_runs (rivalRound s).run hs
  rw [← rivalTrace, ← rivalEnd] at hrun
  rw [rivalVerdict] at h
  cases hr : (rivalRound s).run.eval rivalWorld.handle s with
  | mk r s' =>
    rw [hr] at h hrun
    cases r with
    | error e => cases h
    | ok report =>
      obtain rfl := Option.some.inj h
      refine ⟨report, hrun, ?_⟩
      rw [rivalEnd, hr, Option.any_eq_true, Holds]
      simp

theorem rivalWorld_narrows : Narrows (frozen rivalWorld newYear2026) Eq :=
  narrows_frozen (fun _ _ => rfl) _

theorem rivalWorld_serves :
    ServesAdmissible (frozen rivalWorld newYear2026) Eq rivalPlatform beta.client
      beta.admissionPolicy 300 gammaRef :=
  servesAdmissible_of_servesNow (s := knowingRivals) (by decide +kernel)

theorem rivalVerdict_rivals : rivalVerdict knowingRivals = some false := by decide +kernel

theorem rivalRound_accounts :
    ∃ report visits, Accounts rivalPlatform beta.client 100 knowingRivals.cacheRef
    knowingRivals (rivalTrace knowingRivals) report (rivalEnd knowingRivals) visits := by
  obtain ⟨report, hrun, _⟩ := rivalRound_runs rfl rivalVerdict_rivals
  obtain ⟨visits, h⟩ := discovery_accounts (by decide) _ _ (rivalWorld_narrows.runs hrun)
  exact ⟨report, visits, h⟩

/-- `alpha`'s hint for `gamma` is good, and `gamma` does not get in. -/
theorem bad_hint_suppresses_good :
    Narrows (frozen rivalWorld newYear2026) Eq ∧
    (∃ report, Task.Runs (frozen rivalWorld newYear2026) Eq
      (rivalRound knowingRivals).run knowingRivals (rivalTrace knowingRivals) (.ok report)
      (rivalEnd knowingRivals)) ∧
    alphaRecord ∈ knowingRivals.membershipTable.entries ∧
    alphaRecord.isEligible newYear2026 = true ∧
    knowingRivals.peerManifests.get "alpha" = some alphaManifest ∧
    membersOf rivalPlatform alphaManifest
      (rivalWorld.httpRequest .discovery "alpha" "GET" "https://alpha.example/members" none) =
      .ok alphaMembers ∧
    alphaMembers.members = [gammaRef] ∧
    ServesAdmissible (frozen rivalWorld newYear2026) Eq rivalPlatform beta.client
      beta.admissionPolicy 300 gammaRef ∧
    knowingRivals.membershipTable.get "gamma" = none ∧
    ¬ Holds "gamma" (rivalEnd knowingRivals) := by
  obtain ⟨report, hrun, hholds⟩ := rivalRound_runs rfl rivalVerdict_rivals
  refine ⟨rivalWorld_narrows, ⟨report, hrun⟩, by decide, by decide, rfl, by decide +kernel, rfl,
    rivalWorld_serves, rfl, ?_⟩
  rw [hholds]
  exact Bool.false_ne_true

/-- Without `mallory`, `gamma` gets in. -/
theorem lone_hint_admits : ∃ report visits,
    RoundTold (frozen rivalWorld newYear2026) Eq rivalPlatform beta.client
      beta.admissionPolicy 300 100 knowingAlpha.cacheRef knowingAlpha (rivalTrace knowingAlpha)
      report (rivalEnd knowingAlpha) visits ∧
    ∃ h, Unobstructed (hintsOf visits) h ∧ h.ref.nodeId = "gamma" ∧ (h.index : Int) < 100 ∧
    h.fate.taken = true := by
  have hverdict : rivalVerdict knowingAlpha = some true := by decide +kernel
  obtain ⟨report, hrun, hholds⟩ := rivalRound_runs rfl hverdict
  obtain ⟨visits, htold, _, honly⟩ := hints_admit rivalWorld_narrows hrun (n := "gamma")
    (by decide) rfl
  exact ⟨report, visits, htold, honly (hholds.mpr rfl)⟩

end Federlet
