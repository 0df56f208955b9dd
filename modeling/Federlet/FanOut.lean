import Federlet.Calls
import Federlet.Items
import Federlet.Library.Gather

/-! One operation sent to many peers side by side, each call within its own timer. -/

namespace Federlet

open Coop

structure OperationOutcome where
  nodeId : String
  operationsUrl : String
  reason : String := "ok"
  response : Option OperationResponse := none
  sourceNodeId : Option String := none
  manifestUrl : Option String := none

structure OperationFanOutReport where
  succeeded : List OperationOutcome
  failed : List OperationOutcome

def fanOutFailureReason : Exc → String
  | .responseSignatureError _ => "bad_signature"
  | .validationError => "malformed_response"
  | .jsonDecodeError => "malformed_response"
  | exc => (transportFailureReason exc).getD exc.className

def operationOutcome (peer : Manifest) (operationsUrl reason : String)
    (response : Option OperationResponse) :
    OperationOutcome :=
  { nodeId := peer.nodeId, operationsUrl, reason, response, sourceNodeId := some peer.nodeId
    manifestUrl := peer.manifestUrl }

/-- A call that is cancelled where it waits for HTTP once its timer has run out. -/
def whileWaiting {α : Type} : Task ClientOp ClientOp.Resp (Except Exc α) →
    Task ClientOp ClientOp.Resp (Except Exc α)
  | .done r => .done r
  | .call .draw k => .call .draw fun r => whileWaiting (k r)
  | .call .expired k => .call .expired fun r => whileWaiting (k r)
  | .call (.http out) k =>
    .call .expired fun cut => if cut then .done (.error .timeoutError) else
      .call (.http out) fun r => .call .expired fun cut =>
        if cut then .done (.error .timeoutError) else whileWaiting (k r)
  | .acquire k => .acquire (whileWaiting k)
  | .release k => .release (whileWaiting k)

/-- `wait_for`; a call may be cut off before it has begun. -/
def waitFor {α : Type} (t : Task ClientOp ClientOp.Resp (Except Exc α)) :
    Task ClientOp ClientOp.Resp (Except Exc α) :=
  .call .expired fun cut => if cut then .done (.error .timeoutError) else whileWaiting t

section FanOut

variable (P : Platform) (V : Scalars) (encode : Json → Bytes) (client : SigningClient)

/-- `_call_one`; a timeout of zero is none. -/
def callOne (request : OperationRequest) (timeout : Option ℚ) (target : Manifest × String) :
    Task ClientOp ClientOp.Resp OperationOutcome :=
  let call := (client.sendOperation P V encode target.1 request target.2).run
  (if timeout.any (· ≠ 0) then waitFor call else call).bind fun
    | .ok response => .done (operationOutcome target.1 target.2 "ok" (some response))
    | .error exc => .done (operationOutcome target.1 target.2 (fanOutFailureReason exc) none)

def OperationFanOutReport.ofOutcomes (outcomes : List OperationOutcome) :
    OperationFanOutReport where
  succeeded := outcomes.filter fun o => o.reason = "ok"
  failed := outcomes.filter fun o => o.reason ≠ "ok"

/-- `fan_out_operation`: the calls are gathered, and reported in the order of the targets. -/
def FansOut {S : Type} (sem : Sem ClientOp ClientOp.Resp S) (background : S → S → Prop)
    (request : OperationRequest) (timeout : Option ℚ) (targets : List (Manifest × String)) (s : S)
    (tr : List (Nat × Event ClientOp ClientOp.Resp S)) (outcomes : List OperationOutcome)
    (report : OperationFanOutReport) (s' : S) : Prop :=
  Gathers sem background (targets.map (callOne P V encode client request timeout)) s
    tr outcomes s' ∧
    report = .ofOutcomes outcomes

end FanOut

/-- An answer some call of the client was given. -/
abbrev Answer := (e : ClientOp) × e.Resp

def Answer.isHttp (x : Answer) : Bool :=
  match x.1 with
  | .http _ => true
  | _ => false

/-- The timer was found to have run out. -/
def Answer.cut : Answer := ⟨.expired, true⟩

section Told

variable {α : Type} {f : Response → Except Exc α} {prepare : Draw → Except Exc OutgoingRequest}

/-- How far a request came, by the answers of the call. -/
inductive RequestAnswered (f : Response → Except Exc α)
    (prepare : Draw → Except Exc OutgoingRequest) (answers : List Answer) :
    Except Exc α → Prop where
  | cutBefore (hcut : Answer.cut ∈ answers) (hsent : answers.filter Answer.isHttp = []) :
      RequestAnswered f prepare answers (.error .timeoutError)
  | cutAfter {draw : Draw} {out : OutgoingRequest} {r : Except Exc Response}
      (hp : prepare draw = .ok out) (hcut : Answer.cut ∈ answers)
      (hsent : answers.filter Answer.isHttp = [⟨.http out, r⟩]) :
        RequestAnswered f prepare answers (.error .timeoutError)
  | unprepared {draw : Draw} {e : Exc} (hp : prepare draw = .error e) (hcut : Answer.cut ∉ answers)
      (hsent : answers.filter Answer.isHttp = []) : RequestAnswered f prepare answers (.error e)
  | answered {draw : Draw} {out : OutgoingRequest} {r : Except Exc Response}
      (hp : prepare draw = .ok out) (hcut : Answer.cut ∉ answers)
      (hsent : answers.filter Answer.isHttp = [⟨.http out, r⟩]) :
        RequestAnswered f prepare answers (r >>= fun r => r.raiseForStatus >>= fun _ => f r)

theorem oneRequest_answered {answers : List Answer} {res : Except Exc α}
    (h : (oneRequest f prepare).Replays answers res) : RequestAnswered f prepare answers res := by
  obtain ⟨draw, rest, rfl, hrest⟩ := h
  cases hp : prepare draw with
  | error e =>
    simp only [hp] at hrest
    obtain ⟨rfl, rfl⟩ := hrest
    exact .unprepared hp (by simp [Answer.cut]) rfl
  | ok out =>
    simp only [hp] at hrest
    obtain ⟨r, rest, rfl, rfl, rfl⟩ := hrest
    exact .answered hp (by simp [Answer.cut]) rfl

theorem waitFor_answered {answers : List Answer} {res : Except Exc α}
    (h : (waitFor (oneRequest f prepare)).Replays answers res) :
    RequestAnswered f prepare answers res := by
  obtain ⟨late, rest, rfl, hrest⟩ := h
  cases late with
  | true =>
    obtain ⟨rfl, rfl⟩ := hrest
    exact .cutBefore List.mem_cons_self rfl
  | false =>
    obtain ⟨draw, rest, rfl, hrest⟩ := hrest
    cases hp : prepare draw with
    | error e =>
      simp only [hp] at hrest
      obtain ⟨rfl, rfl⟩ := hrest
      exact .unprepared hp (by simp [Answer.cut]) rfl
    | ok out =>
      simp only [hp] at hrest
      obtain ⟨late, rest, rfl, hrest⟩ := hrest
      cases late with
      | true =>
        obtain ⟨rfl, rfl⟩ := hrest
        exact .cutBefore (by simp [Answer.cut]) rfl
      | false =>
        obtain ⟨r, rest, rfl, hrest⟩ := hrest
        obtain ⟨late, rest, rfl, hrest⟩ := hrest
        cases late with
        | true =>
          obtain ⟨rfl, rfl⟩ := hrest
          exact .cutAfter hp (by simp [Answer.cut]) rfl
        | false =>
          obtain ⟨rfl, rfl⟩ := hrest
          exact .answered hp (by simp [Answer.cut]) rfl

end Told

section Outcomes

variable {P : Platform} {V : Scalars} {encode : Json → Bytes} {client : SigningClient}
  {request : OperationRequest}

theorem prepareRequest_parts {targetNodeId method url : String} {body : Bytes}
    {params : List (String × String)} {draw : Draw} {out : OutgoingRequest}
    (h : prepareRequest P V client targetNodeId method url body params draw = .ok out) :
    out.method = method ∧ out.content = body ∧ out.params = params := by
  cases hp : urlparse P url with
  | error e => simp [prepareRequest, hp, bind, Except.bind] at h
  | ok parsed =>
    cases hs : signedHeaders P V client targetNodeId method (String.ofList parsed.path)
      body draw with
    | error e => simp [prepareRequest, hp, hs, bind, Except.bind] at h
    | ok envelope =>
      simp only [prepareRequest, hp, hs, bind, Except.bind, pure, Except.pure, Except.ok.injEq] at h
      subst h
      exact ⟨rfl, rfl, rfl⟩

theorem sendOperation_run (P : Platform) (V : Scalars) (encode : Json → Bytes)
    (client : SigningClient) (request : OperationRequest) (target : Manifest × String) :
    ∃ kvs, Model.dump request = .ok kvs ∧
    (client.sendOperation P V encode target.1 request target.2).run =
      oneRequest (signedReply P V OperationResponse.signature target.1)
        (prepareRequest P V client target.1.nodeId "POST" target.2 (encode (.obj kvs)) []) :=
  ⟨_, rfl, send_run _ _ _ _ _ _⟩

def outcomeOf (target : Manifest × String) : Except Exc OperationResponse → OperationOutcome
  | .ok response => operationOutcome target.1 target.2 "ok" (some response)
  | .error exc => operationOutcome target.1 target.2 (fanOutFailureReason exc) none

theorem callOne_answered {timeout : Option ℚ} {target : Manifest × String} {answers : List Answer}
    {o : OperationOutcome}
    (h : (callOne P V encode client request timeout target).Replays answers o) :
    ∃ kvs verdict, Model.dump request = .ok kvs ∧ o = outcomeOf target verdict ∧
      RequestAnswered (signedReply P V OperationResponse.signature target.1)
        (prepareRequest P V client target.1.nodeId "POST" target.2 (encode (.obj kvs)) [])
        answers verdict := by
  obtain ⟨kvs, hdump, hrun⟩ := sendOperation_run P V encode client request target
  obtain ⟨l₁, l₂, verdict, rfl, hcall, hend⟩ := Task.replays_bind h
  have hlast : l₂ = [] ∧ o = outcomeOf target verdict := by
    cases verdict <;> exact ⟨hend.1, hend.2.symm⟩
  obtain ⟨rfl, rfl⟩ := hlast
  rw [hrun] at hcall
  rw [List.append_nil]
  refine ⟨kvs, verdict, hdump, rfl, ?_⟩
  split_ifs at hcall
  · exact waitFor_answered hcall
  · exact oneRequest_answered hcall

structure Sends (encode : Json → Bytes) (request : OperationRequest) (target : Manifest × String)
    (out : OutgoingRequest) : Prop where
  url : out.url = target.2
  method : out.method = "POST"
  content : ∃ kvs, Model.dump request = .ok kvs ∧ out.content = encode (.obj kvs)
  addressee : out.envelope.targetNodeId = target.1.nodeId
  signed : out.envelope.signature ≠ none

/-- The outcome of a target, by the answers its own call was given. -/
structure CallTold (P : Platform) (V : Scalars) (encode : Json → Bytes) (request : OperationRequest)
    (target : Manifest × String) (answers : List Answer) (o : OperationOutcome) : Prop where
  names : o = operationOutcome target.1 target.2 o.reason o.response
  sent : answers.filter Answer.isHttp = [] ∨
    ∃ out r, answers.filter Answer.isHttp = [⟨.http out, r⟩] ∧ Sends encode request target out
  response : ∀ resp : OperationResponse, o.response = some resp ↔ Answer.cut ∉ answers ∧
    ∃ out r, ⟨.http out, .ok r⟩ ∈ answers ∧
    r.raiseForStatus = .ok () ∧ replyOf V r = .ok resp ∧
      verifyResponseSignature P target.1 resp.signature resp = .ok true
  reason : if o.response.isSome then o.reason = "ok" else ∃ exc, o.reason = fanOutFailureReason exc
  timeout : Answer.cut ∈ answers → o.reason = "timeout"
  forged : ∀ out r (resp : OperationResponse), Answer.cut ∉ answers → ⟨.http out, .ok r⟩ ∈ answers →
    r.raiseForStatus = .ok () →
    replyOf V r = .ok resp → verifyResponseSignature P target.1 resp.signature resp = .ok false →
      o.reason = "bad_signature"

theorem judged_eq_ok_iff {target : Manifest × String} {r : Except Exc Response}
    {resp : OperationResponse} :
    (r >>= fun r => r.raiseForStatus >>= fun _ => signedReply P V OperationResponse.signature
      target.1 r) = .ok resp ↔
      ∃ body, r = .ok body ∧ body.raiseForStatus = .ok () ∧ replyOf V body = .ok resp ∧
        verifyResponseSignature P target.1 resp.signature resp = .ok true := by
  cases r with
  | error e => simp [bind, Except.bind]
  | ok body =>
    cases hs : body.raiseForStatus <;> simp [bind, Except.bind, hs, signedReply_eq_ok_iff]

theorem signedReply_forged {M : Type} [Model M] [Validated M] {signatureOf : M → Option Signature}
    {peer : Manifest} {r : Response} {resp : M} (hr : replyOf V r = .ok resp)
    (hv : verifyResponseSignature P peer (signatureOf resp) resp = .ok false) :
    signedReply P V signatureOf peer r = .error (.responseSignatureError "bad_signature") := by
  simp only [signedReply, hr, hv, bind, Except.bind]
  rfl

@[simp] theorem outcomeOf_response {target : Manifest × String} {v : Except Exc OperationResponse}
    {resp : OperationResponse} : (outcomeOf target v).response = some resp ↔ v = .ok resp := by
  cases v <;> simp [outcomeOf, operationOutcome]

theorem outcomeOf_names (target : Manifest × String) (v : Except Exc OperationResponse) :
    outcomeOf target v = operationOutcome target.1 target.2 (outcomeOf target v).reason
      (outcomeOf target v).response := by
  cases v <;> rfl

theorem outcomeOf_reason (target : Manifest × String) (v : Except Exc OperationResponse) :
    if (outcomeOf target v).response.isSome then (outcomeOf target v).reason = "ok"
    else ∃ exc, (outcomeOf target v).reason = fanOutFailureReason exc := by
  cases v with
  | ok resp => rfl
  | error e => exact ⟨e, rfl⟩

theorem mem_of_sent {answers : List Answer} {x y : Answer}
    (hsent : answers.filter Answer.isHttp = [x]) (hy : y.isHttp = true) : y ∈ answers ↔ y = x := by
  rw [← List.mem_singleton, ← hsent, List.mem_filter]
  simp [hy]

theorem not_mem_of_unsent {answers : List Answer} {y : Answer}
    (hsent : answers.filter Answer.isHttp = []) (hy : y.isHttp = true) : y ∉ answers := by
  intro h
  have hmem : y ∈ answers.filter Answer.isHttp := List.mem_filter.mpr ⟨h, hy⟩
  simp [hsent] at hmem

theorem sends_of_prepared {target : Manifest × String} {kvs : List (String × Json)} {draw : Draw}
    {out : OutgoingRequest} (hdump : Model.dump request = .ok kvs)
    (hp : prepareRequest P V client target.1.nodeId "POST" target.2 (encode (.obj kvs))
      [] draw = .ok out) :
    Sends encode request target out := by
  obtain ⟨_, _, hurl, haddressee, _, _, hsigned⟩ := prepareRequest_envelope hp
  obtain ⟨hmethod, hcontent, _⟩ := prepareRequest_parts hp
  exact ⟨hurl, hmethod, ⟨kvs, hdump, hcontent⟩, haddressee, hsigned⟩

theorem callOne_told {timeout : Option ℚ} {target : Manifest × String} {answers : List Answer}
    {o : OperationOutcome}
    (h : (callOne P V encode client request timeout target).Replays answers o) :
    CallTold P V encode request target answers o := by
  obtain ⟨kvs, verdict, hdump, rfl, hanswered⟩ := callOne_answered h
  clear h
  refine ⟨outcomeOf_names _ _, ?_, ?_, outcomeOf_reason _ _, ?_, ?_⟩
  · cases hanswered with
    | cutBefore _ hsent => exact .inl hsent
    | cutAfter hp _ hsent => exact .inr ⟨_, _, hsent, sends_of_prepared hdump hp⟩
    | unprepared _ _ hsent => exact .inl hsent
    | answered hp _ hsent => exact .inr ⟨_, _, hsent, sends_of_prepared hdump hp⟩
  · intro resp
    rw [outcomeOf_response]
    cases hanswered with
    | cutBefore hcut _ => simp [hcut]
    | cutAfter _ hcut _ => simp [hcut]
    | unprepared _ hcut hsent =>
      constructor
      · rintro ⟨⟩
      · rintro ⟨-, out, r, hmem, -⟩
        exact absurd hmem (not_mem_of_unsent hsent rfl)
    | answered _ hcut hsent =>
      rw [judged_eq_ok_iff]
      constructor
      · rintro ⟨body, rfl, hjudged⟩
        exact ⟨hcut, _, body, (mem_of_sent hsent rfl).mpr rfl, hjudged⟩
      · rintro ⟨-, out, body, hmem, hjudged⟩
        cases (mem_of_sent hsent rfl).mp hmem
        exact ⟨body, rfl, hjudged⟩
  · intro hcut
    cases hanswered with
    | cutBefore _ _ => rfl
    | cutAfter _ _ _ => rfl
    | unprepared _ h _ => exact absurd hcut h
    | answered _ h _ => exact absurd hcut h
  · intro out body resp hcut hmem hstatus hreply hforged
    cases hanswered with
    | cutBefore h _ => exact absurd h hcut
    | cutAfter _ h _ => exact absurd h hcut
    | unprepared _ _ hsent => exact absurd hmem (not_mem_of_unsent hsent rfl)
    | answered _ _ hsent =>
      cases (mem_of_sent hsent rfl).mp hmem
      have hverdict :
          (body.raiseForStatus >>= fun _ => signedReply P V OperationResponse.signature
            target.1 body) =
          .error (.responseSignatureError "bad_signature") := by
        rw [hstatus]
        exact signedReply_forged hreply hforged
      exact congrArg (fun v => (outcomeOf target v).reason) hverdict

end Outcomes

section Report

variable {P : Platform} {V : Scalars} {encode : Json → Bytes} {client : SigningClient} {S : Type}
  {sem : Sem ClientOp ClientOp.Resp S} {background : S → S → Prop} {request : OperationRequest}
  {timeout : Option ℚ} {targets : List (Manifest × String)} {s s' : S}
  {tr : List (Nat × Event ClientOp ClientOp.Resp S)} {outcomes : List OperationOutcome}
  {report : OperationFanOutReport}

def answersOf {S : Type} (i : Nat)
    (tr : List (Nat × Event ClientOp ClientOp.Resp S)) : List Answer :=
  (eventsOf i tr).map Event.answer

theorem FansOut.told (h : FansOut P V encode client sem background request timeout targets s tr
    outcomes report s') {i : Nat} {target : Manifest × String} (hi : targets[i]? = some target) :
    ∃ o, outcomes[i]? = some o ∧ (callOne P V encode client request timeout target).Replays
      (answersOf i tr) o := by
  have htask : (targets.map (callOne P V encode client request timeout))[i]? =
      some (callOne P V encode client request timeout target) := by simp [hi]
  exact h.1.replays htask

/-- Every target lands in the report once, in its place, with what its own peer answered. -/
theorem fan_out_accounts
    (h : FansOut P V encode client sem background request timeout targets s tr outcomes report s') :
    outcomes.length = targets.length ∧ report.succeeded.Sublist outcomes ∧
      report.failed.Sublist outcomes ∧
      (report.succeeded ++ report.failed).Perm outcomes ∧
      ∀ i target, targets[i]? = some target → ∃ o, outcomes[i]? = some o ∧
        CallTold P V encode request target (answersOf i tr) o := by
  have hlength : outcomes.length = targets.length := by
    have hgathered := h.1.length_eq
    rwa [List.length_map] at hgathered
  have hreport : report = .ofOutcomes outcomes := h.2
  have hperm : (report.succeeded ++ report.failed).Perm outcomes := by
    have hparts := List.filter_append_perm (fun o : OperationOutcome => o.reason = "ok") outcomes
    simpa [hreport, OperationFanOutReport.ofOutcomes] using hparts
  refine ⟨hlength, ?_, ?_, hperm, fun i target hi => ?_⟩
  · rw [hreport]
    exact List.filter_sublist
  · rw [hreport]
    exact List.filter_sublist
  · obtain ⟨o, ho, hreplays⟩ := h.told hi
    exact ⟨o, ho, callOne_told hreplays⟩

def answeringBeta : Manifest := { signerManifest with nodeId := "beta" }

def pingRequest : OperationRequest := { operationId := "o1", operation := "ping" }

def pingTargets : List (Manifest × String) :=
  [(answeringBeta, membersUrl.text), (alphaManifest, "https://alpha.example/operations")]

def lateOutcome : OperationOutcome :=
  operationOutcome alphaManifest "https://alpha.example/operations" "timeout" none

def eventFor (i : Nat) (x : Answer) : Nat × Event ClientOp ClientOp.Resp Unit :=
  (i, ⟨(), x.1, x.2, ()⟩)

def pingTrace (out : OutgoingRequest) (r : Response) :
    List (Nat × Event ClientOp ClientOp.Resp Unit) :=
  [eventFor 1 .cut, eventFor 0 ⟨.expired, false⟩, eventFor 0 ⟨.draw, alphaDraw⟩,
    eventFor 0 ⟨.expired, false⟩, eventFor 0 ⟨.http out, .ok r⟩, eventFor 0 ⟨.expired, false⟩]

def Pings (tr : List (Nat × Event ClientOp ClientOp.Resp Unit))
    (outcomes : List OperationOutcome) : Prop :=
  FansOut signingPlatform strictScalars (fun _ => []) alphaClient (fun _ _ _ _ => True)
    (fun _ _ => True) pingRequest (some 1) pingTargets () tr outcomes (.ofOutcomes outcomes) ()

def timedReply (target : Manifest × String)
    (judge : Except Exc Response → Except Exc OperationResponse) (out : OutgoingRequest) :
    Task ClientOp ClientOp.Resp OperationOutcome :=
  .call .expired fun late => if late then .done (outcomeOf target (.error .timeoutError)) else
    .call (.http out) fun r => .call .expired fun late =>
      .done (outcomeOf target (if late then .error .timeoutError else judge r))

theorem callOne_timed (target : Manifest × String) : ∃ kvs next, Model.dump request = .ok kvs ∧
    callOne P V encode client request (some 1) target =
      (.call .expired fun late => if late then .done (outcomeOf target (.error .timeoutError))
        else .call .draw next) ∧
    ∀ draw out, prepareRequest P V client target.1.nodeId "POST" target.2 (encode (.obj kvs))
      [] draw = .ok out →
      next draw = timedReply target (fun r => r >>= fun r => r.raiseForStatus >>= fun _ =>
        signedReply P V OperationResponse.signature target.1 r) out := by
  obtain ⟨kvs, hd, hrun⟩ := sendOperation_run P V encode client request target
  have hcall : callOne P V encode client request (some 1) target =
      (waitFor (client.sendOperation P V encode target.1 request target.2).run).bind fun v =>
        .done (outcomeOf target v) := by
    rw [callOne, if_pos (by simp)]
    congr 1
    funext v
    cases v <;> rfl
  obtain ⟨next, hone, hnext⟩ := oneRequest_eq
    (signedReply P V OperationResponse.signature target.1)
    (prepareRequest P V client target.1.nodeId "POST" target.2 (encode (.obj kvs)) [])
  rw [hrun, hone] at hcall
  refine ⟨kvs, fun draw => (whileWaiting (next draw)).bind fun v => .done (outcomeOf target v), hd,
    ?_, fun draw out hp => ?_⟩
  · rw [hcall]
    refine congrArg (Task.call _) (funext fun late => ?_)
    cases late <;> rfl
  · dsimp only
    rw [hnext draw out hp]
    refine congrArg (Task.call _) (funext fun late => ?_)
    cases late with
    | true => rfl
    | false =>
      refine congrArg (Task.call _) (funext fun r => congrArg (Task.call _) (funext fun late => ?_))
      cases late <;> rfl

theorem pings_of_reply {out : OutgoingRequest} {r : Response} {resp : OperationResponse}
    (hout : prepareRequest signingPlatform strictScalars alphaClient "beta" "POST" membersUrl.text
      [] [] alphaDraw = .ok out)
    (hstatus : r.raiseForStatus = .ok ())
    (hreply : signedReply signingPlatform strictScalars OperationResponse.signature answeringBeta
      r = .ok resp) :
    Pings (pingTrace out r) [operationOutcome answeringBeta membersUrl.text "ok" (some resp),
      lateOutcome] := by
  obtain ⟨kvs, next, _, htask, hnext⟩ := @callOne_timed signingPlatform strictScalars
    (fun _ => []) alphaClient pingRequest (answeringBeta, membersUrl.text)
  have hjudged : (Except.ok r >>= fun r => r.raiseForStatus >>= fun _ =>
      signedReply signingPlatform strictScalars OperationResponse.signature answeringBeta r) =
        .ok resp := by
    simp only [bind, Except.bind, hstatus, hreply]
  refine ⟨?_, rfl⟩
  rw [pingTargets, List.map_cons, htask]
  refine .call (i := 1) rfl trivial (.call (i := 0) rfl trivial (.call (i := 0) rfl trivial ?_))
  show Gathers _ _ [next alphaDraw, .done lateOutcome] _ _ _ _
  rw [hnext alphaDraw out hout]
  refine .call (i := 0) rfl trivial (.call (i := 0) rfl trivial (.call (i := 0) rfl trivial ?_))
  show Gathers _ _
    [.done (outcomeOf (answeringBeta, membersUrl.text)
      (Except.ok r >>= fun r => r.raiseForStatus >>= fun _ =>
    signedReply signingPlatform strictScalars OperationResponse.signature answeringBeta r)),
      .done lateOutcome] _ _ _ _
  rw [hjudged]
  exact .done [operationOutcome answeringBeta membersUrl.text "ok" (some resp), lateOutcome] ()

def betaAnswer : OperationResponse :=
  { operationId := "o1", sourceNodeId := "beta", items := [itemOf 1] }

theorem betaAnswer_pings : ∃ signed payload received out,
    signOperationResponse signingPlatform strictScalars betaAnswer alphaSigner "k1" = .ok signed ∧
      Model.dump signed = .ok payload ∧
      Pings (pingTrace out { raiseForStatus := .ok (), json := .ok (.obj payload) })
        [operationOutcome answeringBeta membersUrl.text "ok" (some received), lateOutcome] := by
  have hdump : Model.dump betaAnswer = .ok _ := rfl
  obtain ⟨signed, received, hsigned, hsent, _⟩ := settles_operationResponse.verifies
    (fun _ _ => dictDumps_congr) (fun _ => dictDumps_safe) alphaSigner_ideal "k1" hdump
    (by decide +kernel)
  obtain ⟨out, _, hout, _⟩ :=
    alpha_sends "beta" "POST" [] (membersUrl.exists_urlparse (by simp [membersUrl])
    (by simp [membersUrl]) rfl)
  obtain ⟨payload, hpayload⟩ : ∃ payload, Model.dump signed = .ok payload := ⟨_, rfl⟩
  refine ⟨signed, payload, received, out, hsigned, hpayload, pings_of_reply hout rfl ?_⟩
  exact WireType.signedReply_ok (t := .operationResponse) strictScalars_faithful
    (fun _ _ => dictDumps_congr) alphaSigner_ideal hsigned hpayload hsent rfl

/-- Both targets of the fan-out are accounted for, the one that answered and the late one. -/
theorem pings_accounted : ∃ received out r,
    CallTold signingPlatform strictScalars (fun _ => []) pingRequest
        (answeringBeta, membersUrl.text) (answersOf 0 (pingTrace out r))
        (operationOutcome answeringBeta membersUrl.text "ok" (some received)) ∧
      CallTold signingPlatform strictScalars (fun _ => []) pingRequest
        (alphaManifest, "https://alpha.example/operations") (answersOf 1 (pingTrace out r))
        lateOutcome := by
  obtain ⟨_, _, received, out, _, _, hpings⟩ := betaAnswer_pings
  obtain ⟨_, _, _, _, htold⟩ := fan_out_accounts hpings
  obtain ⟨_, ⟨⟩, hanswered⟩ := htold 0 _ rfl
  obtain ⟨_, ⟨⟩, hlate⟩ := htold 1 _ rfl
  exact ⟨received, out, _, hanswered, hlate⟩

theorem verifyResponseSignature_key {M : Type} [Model M] {peer : Manifest}
    {keyId sig : String} {m : M}
    (h : verifyResponseSignature P peer (some { keyId, sig }) m = .ok true) :
    ∃ jwk, findJwk peer.publicKeys keyId = some jwk := by
  cases hk : findJwk peer.publicKeys keyId with
  | some jwk => exact ⟨jwk, rfl⟩
  | none => simp [verifyResponseSignature, hk] at h

/-- A peer that answers in time with a response it signed is reported with that response,
whatever the other targets are, answer or suffer, and no target that does not list the
key is ever reported with it. -/
theorem honest_answer_reported (hV : V.Faithful)
    (hcanon : ∀ a b, a.Same b → P.rfc8785Dumps a = P.rfc8785Dumps b) {key : Ed25519PrivateKey}
    (hkey : key.Ideal P) {keyId : String} {answer signed : OperationResponse}
    (hsigned : signOperationResponse P V answer key keyId = .ok signed)
    {payload : List (String × Json)} (hdump : Model.dump signed = .ok payload)
    (h : FansOut P V encode client sem background request timeout targets s tr outcomes report s')
    {i : Nat} {target : Manifest × String} (hi : targets[i]? = some target)
    (hlisted : findJwk target.1.publicKeys keyId = some (publicJwk key))
    (hintime : Answer.cut ∉ answersOf i tr) {out : OutgoingRequest}
    (hanswered : (⟨.http out, .ok { raiseForStatus := .ok (), json := .ok (.obj payload) }⟩ :
      Answer) ∈ answersOf i tr) :
    ∃ received, overWire V signed = .ok received ∧
      outcomes[i]? = some (operationOutcome target.1 target.2 "ok" (some received)) ∧
      operationOutcome target.1 target.2 "ok" (some received) ∈ report.succeeded ∧
      ∀ (j : Nat) (target' : Manifest × String) (o : OperationOutcome), targets[j]? = some target' →
        outcomes[j]? = some o →
        o.response = some received → ∃ jwk, findJwk target'.1.publicKeys keyId = some jwk := by
  obtain ⟨received, hsent⟩ := settles_operationResponse.exists_hop hdump
  obtain ⟨sig, hsignature⟩ : ∃ sig, received.signature = some { keyId, sig } :=
    WireType.signed_signature (t := .operationResponse) hV hsigned (.single hsent)
  obtain ⟨hreply, hverified⟩ := signedReply_eq_ok_iff.mp
    (WireType.signedReply_ok (t := .operationResponse) hV hcanon hkey hsigned hdump hsent hlisted)
  obtain ⟨o, ho, hreplays⟩ := h.told hi
  have htold := callOne_told hreplays
  have hresponse : o.response = some received := by
    exact (htold.response received).mpr ⟨hintime, out, _, hanswered, rfl, hreply, hverified⟩
  have hreason : o.reason = "ok" := by
    have hcases := htold.reason
    rwa [hresponse, Option.isSome_some, if_pos rfl] at hcases
  have hnames := htold.names
  rw [hreason, hresponse] at hnames
  subst hnames
  refine ⟨received, hsent, ho, ?_, fun j target' o' hj ho' hsame => ?_⟩
  · have hreport : report = .ofOutcomes outcomes := h.2
    rw [hreport, OperationFanOutReport.ofOutcomes, List.mem_filter]
    exact ⟨List.mem_of_getElem? ho, by simp [operationOutcome]⟩
  · obtain ⟨o'', ho'', hreplays'⟩ := h.told hj
    obtain rfl := Option.some.inj (ho'.symm.trans ho'')
    obtain ⟨_, _, _, _, _, _, hother⟩ := ((callOne_told hreplays').response received).mp hsame
    rw [hsignature] at hother
    exact verifyResponseSignature_key hother

theorem betaAnswer_reported : ∃ signed received,
    signOperationResponse signingPlatform strictScalars betaAnswer alphaSigner "k1" = .ok signed ∧
      overWire strictScalars signed = .ok received ∧
      operationOutcome answeringBeta membersUrl.text "ok" (some received) ∈
        (OperationFanOutReport.ofOutcomes
        [operationOutcome answeringBeta membersUrl.text "ok" (some received),
          lateOutcome]).succeeded := by
  obtain ⟨signed, payload, received, out, hsigned, hpayload, hpings⟩ := betaAnswer_pings
  have hanswered :
      (⟨.http out, .ok { raiseForStatus := .ok (), json := .ok (.obj payload) }⟩ : Answer) ∈
      answersOf 0 (pingTrace out { raiseForStatus := .ok (), json := .ok (.obj payload) }) := by
    simp [answersOf, pingTrace, eventFor, eventsOf, Event.answer]
  obtain ⟨_, hsent, ⟨⟩, hreported, _⟩ := honest_answer_reported strictScalars_faithful
    (fun _ _ => dictDumps_congr) alphaSigner_ideal hsigned hpayload hpings (i := 0) rfl rfl
    (by simp [answersOf, pingTrace, eventFor, eventsOf, Event.answer, Answer.cut]) hanswered
  exact ⟨signed, received, hsigned, hsent, hreported⟩

end Report

end Federlet
