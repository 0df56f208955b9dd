import Federlet.FanOut
import Federlet.HostRequests

/-! A health probe: two requests to a peer, one after the other, and what their answers say. -/

namespace Federlet

open Coop

structure PeerHealthProbeResult where
  healthy : Bool
  reason : String := "ok"
  suggestedState : PeerState := .active
  protocol : Option ProtocolResponse := none
  health : Option HealthResponse := none
  error : Option String := none

def healthyStatuses : List String := ["ok", "healthy", "pass"]

/-- The peer counts as healthy by what it says of itself. -/
def HealthResponse.Fit (P : Platform) (health : HealthResponse) :
    Prop := P.lower health.status ∈ healthyStatuses

instance (P : Platform) (health : HealthResponse) : Decidable (health.Fit P) :=
  inferInstanceAs (Decidable (_ ∈ healthyStatuses))

section Probe

variable (P : Platform) (V : Scalars) (client : SigningClient) (text : Exc → String)
  (peer : Manifest)

/-- `text` is `str(exc) or exc.__class__.__name__`. -/
def probePeerHealth : Task ClientOp ClientOp.Resp PeerHealthProbeResult :=
  (client.getProtocol P V peer).run.bind fun
    | .error exc =>
      .done { healthy := false, reason := "protocol_probe_failed", suggestedState := .cooldown
              error := some (text exc) }
    | .ok protocol =>
      (client.getHealth P V peer).run.bind fun
        | .error exc =>
          .done { healthy := false, reason := "health_probe_failed", suggestedState := .cooldown
                  protocol := some protocol, error := some (text exc) }
        | .ok health =>
          if ¬ health.Fit P then
            .done { healthy := false, reason := "unhealthy", suggestedState := .cooldown
                    protocol := some protocol, health := some health }
          else .done { healthy := true, protocol := some protocol, health := some health }

end Probe

section Replied

variable {P : Platform} {V : Scalars} {client : SigningClient} {M : Type} [Validated M]
  {prepare : Draw → Except Exc OutgoingRequest} {answers rest : List Answer}

/-- The first request was answered with the model; the rest came after. -/
def Replied (V : Scalars) (m : M) (answers rest : List Answer) : Prop :=
  ∃ draw out body, answers = ⟨.draw, draw⟩ :: ⟨.http out, .ok body⟩ :: rest ∧
    body.raiseForStatus = .ok () ∧
    replyOf V body = .ok m

theorem Replied.unique {m m' : M} {rest' : List Answer} (h : Replied V m answers rest)
    (h' : Replied V m' answers rest') : m' = m ∧ rest' = rest := by
  obtain ⟨draw, out, body, rfl, _, hreply⟩ := h
  obtain ⟨draw', out', body', hsame, _, hreply'⟩ := h'
  obtain ⟨_, htail⟩ := List.cons.inj hsame
  obtain ⟨hanswer, rfl⟩ := List.cons.inj htail
  obtain ⟨hop, hr⟩ := Sigma.mk.inj hanswer
  obtain rfl := ClientOp.http.inj hop
  obtain rfl := Except.ok.inj (eq_of_heq hr)
  exact ⟨Except.ok.inj (hreply'.symm.trans hreply), rfl⟩

theorem Replied.iff {m : M} (h : Replied V m answers rest) {p : M → List Answer → Prop} :
    (∃ m' rest', Replied V m' answers rest' ∧ p m' rest') ↔ p m rest := by
  constructor
  · rintro ⟨m', rest', hm', hp⟩
    obtain ⟨rfl, rfl⟩ := h.unique hm'
    exact hp
  · exact fun hp => ⟨m, rest, h, hp⟩

theorem replied_of_ok {m : M} (h : (oneRequest (replyOf V) prepare).Replays answers (.ok m))
    (rest : List Answer) :
    Replied V m (answers ++ rest) rest := by
  obtain ⟨draw, later, rfl, hlater⟩ := h
  cases hp : prepare draw with
  | error e =>
    simp only [hp] at hlater
    cases hlater.2
  | ok out =>
    simp only [hp] at hlater
    obtain ⟨r, later, rfl, rfl, hjudged⟩ := hlater
    cases r with
    | error e => cases hjudged
    | ok body =>
      cases hstatus : body.raiseForStatus with
      | error e => simp [hstatus, bind, Except.bind] at hjudged
      | ok _ =>
        exact ⟨draw, out, body, rfl, hstatus, by simpa [hstatus, bind, Except.bind] using hjudged⟩

theorem not_replied {e : Exc}
    (h : (oneRequest (replyOf (M := M) V) prepare).Replays answers (.error e)) (m : M) :
    ¬ Replied V m answers rest := by
  rintro ⟨draw, out, body, rfl, hstatus, hreply⟩
  obtain ⟨draw', later, hsame, hlater⟩ := h
  obtain ⟨_, rfl⟩ := List.cons.inj hsame
  cases hp : prepare draw' with
  | error e =>
    simp only [hp] at hlater
    cases hlater.1
  | ok out' =>
    simp only [hp] at hlater
    obtain ⟨r, later, hanswers, _, hjudged⟩ := hlater
    obtain ⟨hanswer, _⟩ := List.cons.inj hanswers
    obtain ⟨hop, hr⟩ := Sigma.mk.inj hanswer
    obtain rfl := ClientOp.http.inj hop
    obtain rfl := eq_of_heq hr
    simp [hstatus, hreply, bind, Except.bind] at hjudged

theorem sent_of_replays {α : Type} {f : Response → Except Exc α} {res : Except Exc α}
    (h : (oneRequest f prepare).Replays answers res) :
    answers.filter Answer.isHttp = [] ∨
      ∃ draw out r, prepare draw = .ok out ∧ answers.filter Answer.isHttp = [⟨.http out, r⟩] := by
  cases oneRequest_answered h with
  | cutBefore _ hsent => exact .inl hsent
  | cutAfter hp _ hsent => exact .inr ⟨_, _, _, hp, hsent⟩
  | unprepared _ _ hsent => exact .inl hsent
  | answered hp _ hsent => exact .inr ⟨_, _, _, hp, hsent⟩

end Replied

section Outcomes

variable {P : Platform} {V : Scalars} {client : SigningClient} {text : Exc → String}
  {peer : Manifest}

/-- A signed request for what stands at the path of the peer. -/
structure Probes (peer : Manifest) (path : String) (out : OutgoingRequest) : Prop where
  url : out.url = rstripSlashes peer.endpoint ++ path
  method : out.method = "GET"
  empty : out.content = [] ∧ out.params = []
  addressee : out.envelope.targetNodeId = peer.nodeId
  signed : out.envelope.signature ≠ none

/-- The result of a probe, by the answers the client was given. -/
structure ProbeTold (P : Platform) (V : Scalars) (peer : Manifest) (answers : List Answer)
    (result : PeerHealthProbeResult) : Prop where
  protocol : ∀ m, result.protocol = some m ↔ ∃ rest, Replied V m answers rest
  health : ∀ m, result.health = some m ↔ ∃ (protocol : ProtocolResponse) (rest : List Answer),
    Replied V protocol answers rest ∧ Replied V m rest []
  healthy : result.healthy = true ↔ ∃ health, result.health = some health ∧ health.Fit P
  suggestedState : result.suggestedState = if result.healthy then .active else .cooldown
  error : result.error = none ↔ ∃ health, result.health = some health
  sent : ∃ first second, answers.filter Answer.isHttp = first ++ second ∧
    (first = [] ∨ ∃ out r, first = [⟨.http out, r⟩] ∧ Probes peer "/protocol" out) ∧
    (second = [] ∨ result.protocol ≠ none ∧ ∃ out r, second = [⟨.http out, r⟩] ∧
      Probes peer "/health" out)

theorem probes_of_prepared {path : String} {draw : Draw} {out : OutgoingRequest}
    (hp : prepareRequest P V client peer.nodeId "GET" (rstripSlashes peer.endpoint ++ path) []
      [] draw = .ok out) :
    Probes peer path out := by
  obtain ⟨_, _, hurl, haddressee, _, _, hsigned⟩ := prepareRequest_envelope hp
  obtain ⟨hmethod, hcontent, hparams⟩ := prepareRequest_parts hp
  exact ⟨hurl, hmethod, ⟨hcontent, hparams⟩, haddressee, hsigned⟩

theorem probe_sent {M : Type} [Validated M] {path : String} {answers : List Answer}
    {res : Except Exc M}
    (h : (oneRequest (replyOf V)
      (prepareRequest P V client peer.nodeId "GET" (rstripSlashes peer.endpoint ++ path) []
        [])).Replays answers res) : answers.filter Answer.isHttp = [] ∨
    ∃ out r, answers.filter Answer.isHttp = [⟨.http out, r⟩] ∧ Probes peer path out := by
  obtain hnone | ⟨draw, out, r, hp, hsent⟩ := sent_of_replays h
  · exact .inl hnone
  · exact .inr ⟨out, r, hsent, probes_of_prepared hp⟩

theorem probe_replays {answers : List Answer} {result : PeerHealthProbeResult}
    (h : (probePeerHealth P V client text peer).Replays answers result) :
    ProbeTold P V peer answers result := by
  obtain ⟨asked, later, protocol, rfl, hprotocol, hlater⟩ := Task.replays_bind h
  rw [SigningClient.getProtocol, send_run] at hprotocol
  have hfirst := probe_sent hprotocol
  cases protocol with
  | error e =>
    obtain ⟨rfl, rfl⟩ := hlater
    rw [List.append_nil]
    have hnot (m : ProtocolResponse) (rest : List Answer) :
        ¬ Replied V m asked rest := not_replied hprotocol m
    refine ⟨fun m => by simp [hnot], fun m => by simp [hnot], by simp, rfl, by simp, ?_⟩
    exact ⟨_, [], (List.append_nil _).symm, hfirst, .inl rfl⟩
  | ok protocol =>
    have htold := replied_of_ok hprotocol later
    obtain ⟨asked', ended, health, rfl, hhealth, hend⟩ := Task.replays_bind hlater
    rw [SigningClient.getHealth, send_run] at hhealth
    have hsecond := probe_sent hhealth
    have hended : ended = [] := by
      cases health with
      | error e => exact hend.1
      | ok health =>
        dsimp only at hend
        split_ifs at hend <;> exact hend.1
    subst hended
    rw [List.append_nil] at htold ⊢
    have hprotocols (m : ProtocolResponse) :
        some protocol = some m ↔ ∃ rest, Replied V m (asked ++ asked') rest := by
      constructor
      · rintro ⟨⟩
        exact ⟨_, htold⟩
      · rintro ⟨rest, hm⟩
        rw [(htold.unique hm).1]
    have hsent : ∃ first second, (asked ++ asked').filter Answer.isHttp = first ++ second ∧
        (first = [] ∨ ∃ out r, first = [⟨.http out, r⟩] ∧ Probes peer "/protocol" out) ∧
        (second = [] ∨ some protocol ≠ none ∧ ∃ out r, second = [⟨.http out, r⟩] ∧
          Probes peer "/health" out) :=
      ⟨_, _, List.filter_append .., hfirst, hsecond.imp_right fun h => ⟨Option.some_ne_none _, h⟩⟩
    cases health with
    | error e =>
      obtain ⟨_, rfl⟩ := hend
      have hnot (m : HealthResponse) (rest : List Answer) :
          ¬ Replied V m asked' rest := not_replied hhealth m
      refine ⟨hprotocols, fun m => ?_, by simp, rfl, by simp, hsent⟩
      rw [htold.iff]
      simp [hnot]
    | ok health =>
      have hanswer := replied_of_ok hhealth []
      rw [List.append_nil] at hanswer
      have hhealths (m : HealthResponse) :
          some health = some m ↔ ∃ (protocol : ProtocolResponse) (rest : List Answer),
          Replied V protocol (asked ++ asked') rest ∧ Replied V m rest [] := by
        rw [htold.iff]
        constructor
        · rintro ⟨⟩
          exact hanswer
        · intro hm
          rw [(hanswer.unique hm).1]
      dsimp only at hend
      split_ifs at hend with hfit
      · obtain ⟨_, rfl⟩ := hend
        exact ⟨hprotocols, hhealths, by simpa using hfit, rfl, by simp, hsent⟩
      · obtain ⟨_, rfl⟩ := hend
        exact ⟨hprotocols, hhealths, by simpa using hfit, rfl, by simp, hsent⟩

/-- In every run of a probe the result is what the answers say. -/
theorem probe_told (P : Platform) (V : Scalars) (client : SigningClient) (text : Exc → String)
    (peer : Manifest) {S : Type} {sem : Sem ClientOp ClientOp.Resp S}
    {background : S → S → Prop} {s s' : S} {tr : List (Event ClientOp ClientOp.Resp S)}
    {result : PeerHealthProbeResult}
    (h : Task.Runs sem background (probePeerHealth P V client text peer) s tr result s') :
    ProbeTold P V peer (tr.map Event.answer) result := probe_replays h.replays

end Outcomes

def probedManifest : Manifest := { hostManifest with endpoint := "https://beta.example/" }

def answeredRequest (draw : Draw) (out : OutgoingRequest) (body : Response) :
    List (Event ClientOp ClientOp.Resp Unit) :=
  [⟨(), .draw, draw, ()⟩, ⟨(), .http out, .ok body, ()⟩]

theorem oneRequest_runs {M : Type} [Validated M] {V : Scalars}
    {prepare : Draw → Except Exc OutgoingRequest} {draw : Draw} {out : OutgoingRequest}
    {body : Response} {m : M} (hp : prepare draw = .ok out) (hstatus : body.raiseForStatus = .ok ())
    (hreply : replyOf V body = .ok m) :
    Task.Runs (fun _ _ _ _ => True) (fun _ _ => True) (oneRequest (replyOf V) prepare) ()
      (answeredRequest draw out body) (.ok m) () := by
  refine .call trivial trivial ?_
  rw [hp]
  refine .call trivial trivial ?_
  have hjudged : (Except.ok body >>= fun r => r.raiseForStatus >>= fun _ => replyOf V r) =
      Except.ok m := by
    simp [hstatus, hreply, bind, Except.bind]
  rw [hjudged]
  exact .done _ _

theorem probe_passes {P : Platform} {V : Scalars} {client : SigningClient} {text : Exc → String}
    {peer : Manifest} {draw draw' : Draw} {out out' : OutgoingRequest} {body body' : Response}
    {protocol : ProtocolResponse} {health : HealthResponse}
    (hout : prepareRequest P V client peer.nodeId "GET"
      (rstripSlashes peer.endpoint ++ "/protocol") [] [] draw = .ok out)
    (hout' : prepareRequest P V client peer.nodeId "GET" (rstripSlashes peer.endpoint ++ "/health")
      [] [] draw' = .ok out')
    (hstatus : body.raiseForStatus = .ok ()) (hstatus' : body'.raiseForStatus = .ok ())
    (hreply : replyOf V body = .ok protocol) (hreply' : replyOf V body' = .ok health)
    (hfit : health.Fit P) :
    Task.Runs (fun _ _ _ _ => True) (fun _ _ => True) (probePeerHealth P V client text peer) ()
      (answeredRequest draw out body ++ (answeredRequest draw' out' body' ++ []))
      { healthy := true, protocol := some protocol, health := some health } () := by
  rw [probePeerHealth, SigningClient.getProtocol, send_run]
  refine (oneRequest_runs hout hstatus hreply).bind ?_
  dsimp only
  rw [SigningClient.getHealth, send_run]
  refine (oneRequest_runs hout' hstatus' hreply').bind ?_
  dsimp only
  rw [if_neg (not_not.mpr hfit)]
  exact .done _ _

theorem beta_passes : ∃ tr result, Task.Runs (fun _ _ _ _ => True) (fun _ _ => True)
    (probePeerHealth signingPlatform strictScalars alphaClient Exc.className probedManifest)
    () tr result () ∧
      result.healthy = true ∧ ∃ health, result.health = some health ∧
      health.Fit signingPlatform := by
  have hsend (url : HttpUrl) (hauthority : url.authority = "beta.example".toList) : ∃ out,
      prepareRequest signingPlatform strictScalars alphaClient "beta" "GET" url.text []
        [] alphaDraw = .ok out := by
    obtain ⟨out, _, hout, _⟩ :=
      alpha_sends "beta" "GET" []
        (url.exists_urlparse (by simp [hauthority]) (by simp [hauthority]) rfl)
    exact ⟨out, hout⟩
  obtain ⟨out, hout⟩ := hsend
    (hostUrl "/protocol".toList (by simp) (by simp [plainChar]) (by simp)) rfl
  obtain ⟨out', hout'⟩ := hsend
    (hostUrl "/health".toList (by simp) (by simp [plainChar]) (by simp)) rfl
  let body : Response := ⟨.ok (), .ok (.obj [])⟩
  let body' : Response := ⟨.ok (), .ok (.obj [("status", .str "PASS")])⟩
  have hrun : Task.Runs (fun _ _ _ _ => True) (fun _ _ => True)
      (probePeerHealth signingPlatform strictScalars alphaClient Exc.className probedManifest) ()
      (answeredRequest alphaDraw out body ++ (answeredRequest alphaDraw out' body' ++ []))
      { healthy := true, protocol := some {}, health := some { status := "PASS" } } () :=
    probe_passes hout hout' rfl rfl rfl rfl (by decide)
  have htold := probe_told signingPlatform strictScalars alphaClient Exc.className
    probedManifest hrun
  exact ⟨_, _, hrun, rfl, htold.healthy.mp rfl⟩

end Federlet
