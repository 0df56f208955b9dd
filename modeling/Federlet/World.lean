import Mathlib.Data.Int.Order.Basic
import Federlet.Library.Pool
import Federlet.Library.Ledger
import Federlet.Membership
import Federlet.Crypto

/-! The state of one node and every call its coroutines make: the clock, the
membership store, the manifest cache, the manifest store, the nonce cache, DNS,
HTTP and the host's callbacks. A port may raise, and then leaves the state as it
was. The network answers anything. Records are copied in and out of the
membership store; the in-memory table, which hands out its own records, differs
only between a mutation and the upsert that follows it at once. -/

namespace Federlet

open Coop

/-- On whose behalf a call is made. The program carries no such value and the
state ignores it; the network may answer by it, and results can name a call site. -/
inductive Origin where
  | admission
  | bootstrap
  | refresh
  | discovery
  | revocation
  | hydrate
  | inbound
  | fetch (nodeId : String)
  deriving DecidableEq

/-- A host-supplied callback, named by what was registered. -/
abbrev HostCallback := String

/-- An HTTP response: what `raise_for_status()` and `json()` do. -/
structure Response where
  raiseForStatus : Except Exc Unit
  json : Except Exc Json

inductive Op where
  | utcNow
  | tableGet (nodeId : String)
  | tableUpsert (rec : MemberRecord)
  | tableValues
  | cacheRef
  | cacheGet (nodeId : String)
  | cacheGetAt (ref : Nat) (nodeId : String)
  | cachePut (manifest : Manifest)
  | cachePop (nodeId : String)
  | cacheReplace (manifests : List Manifest)
  | cacheIsEmpty
  | storeUpsert (manifest : Manifest)
  | storeDelete (nodeId : String)
  | storeValues
  | getaddrinfo (host : String)
  | httpGet (url : String)
  | httpRequest (targetNodeId method url : String) (since : Option String)
  | hostCallback (callback : HostCallback) (manifest : Manifest)
  | nonceSet (key : String) (expire : Int)

@[reducible] def Op.Resp : Op → Type
  | .utcNow => DateTime
  | .tableGet _ => Except Exc (Option MemberRecord)
  | .tableUpsert _ | .storeUpsert _ | .storeDelete _ => Except Exc Unit
  | .tableValues => Except Exc (List MemberRecord)
  | .cacheRef => Nat
  | .cacheGet _ | .cacheGetAt _ _ => Option Manifest
  | .cachePut _ | .cachePop _ | .cacheReplace _ => Unit
  | .cacheIsEmpty => Bool
  | .storeValues => Except Exc (List Manifest)
  | .getaddrinfo _ => Except Exc (List String)
  | .httpGet _ | .httpRequest _ _ _ _ => Except Exc Response
  | .hostCallback _ _ => Except Exc (Bool × String)
  | .nonceSet _ _ => Except Exc Bool

structure Call where
  origin : Origin
  op : Op

abbrev Resp (c : Call) : Type := c.op.Resp

/-- `cacheRef` names the dictionary object `peer_manifests` refers to: hydration
replaces it, and a coroutine that captured the old one reads an empty dictionary. -/
structure NodeState where
  clock : DateTime
  membershipTable : Keyed (@MemberRecord.nodeId DateTime)
  peerManifests : Keyed Manifest.nodeId
  cacheRef : Nat
  manifestStore : Keyed Manifest.nodeId
  nonces : List (Claim String Int)

namespace NodeState

def stateOf (s : NodeState) (nodeId : String) : Option PeerState :=
  (s.membershipTable.get nodeId).map MemberRecord.state

def revoked (s : NodeState) (nodeId : String) : Prop := s.stateOf nodeId = some .revoked

def nonceSet (s : NodeState) (key : String) (expire : Int) : Bool × NodeState :=
  let now := s.clock.instant
  let (claimed, nonces) := Ledger.claim s.nonces ⟨key, now, now + expire * 1000000⟩
  (claimed, { s with nonces := nonces })

end NodeState

/-- A port call: the exception leaves the state alone. -/
def Port {α : Type} (s : NodeState) (a : α) (t : NodeState) (r : Except Exc α)
    (s' : NodeState) : Prop :=
  (∃ e, r = .error e ∧ s' = s) ∨ (r = .ok a ∧ s' = t)

/-- What each call answers and does. -/
def Does (c : Call) (s : NodeState) : Resp c → NodeState → Prop :=
  match c with
  | ⟨_, .utcNow⟩ => fun r s' => r = s.clock ∧ s' = s
  | ⟨_, .tableGet n⟩ => Port s (s.membershipTable.get n) s
  | ⟨_, .tableUpsert rec⟩ => Port s () { s with membershipTable := s.membershipTable.upsert rec }
  | ⟨_, .tableValues⟩ => Port s s.membershipTable.entries s
  | ⟨_, .cacheRef⟩ => fun r s' => r = s.cacheRef ∧ s' = s
  | ⟨_, .cacheGet n⟩ => fun r s' => r = s.peerManifests.get n ∧ s' = s
  | ⟨_, .cacheGetAt ref n⟩ => fun r s' =>
      r = (if ref = s.cacheRef then s.peerManifests.get n else none) ∧ s' = s
  | ⟨_, .cachePut m⟩ => fun _ s' => s' = { s with peerManifests := s.peerManifests.upsert m }
  | ⟨_, .cachePop n⟩ => fun _ s' => s' = { s with peerManifests := s.peerManifests.erase n }
  | ⟨_, .cacheReplace ms⟩ => fun _ s' =>
      s' = { s with peerManifests := Keyed.ofList ms, cacheRef := s.cacheRef + 1 }
  | ⟨_, .cacheIsEmpty⟩ => fun r s' => r = s.peerManifests.entries.isEmpty ∧ s' = s
  | ⟨_, .storeUpsert m⟩ => Port s () { s with manifestStore := s.manifestStore.upsert m }
  | ⟨_, .storeDelete n⟩ => Port s () { s with manifestStore := s.manifestStore.erase n }
  | ⟨_, .storeValues⟩ => Port s s.manifestStore.entries s
  | ⟨_, .getaddrinfo _⟩ => fun _ s' => s' = s
  | ⟨_, .httpGet _⟩ => fun _ s' => s' = s
  | ⟨_, .httpRequest _ _ _ _⟩ => fun _ s' => s' = s
  | ⟨_, .hostCallback _ _⟩ => fun _ s' => s' = s
  | ⟨_, .nonceSet key expire⟩ => Port s (s.nonceSet key expire).1 (s.nonceSet key expire).2

/-- The calls of the stores and the nonce cache that answered with an exception. -/
def storeRaised (c : Call) : Resp c → Prop :=
  match c with
  | ⟨_, .tableGet _⟩ => fun r => ∃ e, r = .error e
  | ⟨_, .tableUpsert _⟩ => fun r => ∃ e, r = .error e
  | ⟨_, .tableValues⟩ => fun r => ∃ e, r = .error e
  | ⟨_, .storeUpsert _⟩ => fun r => ∃ e, r = .error e
  | ⟨_, .storeDelete _⟩ => fun r => ∃ e, r = .error e
  | ⟨_, .storeValues⟩ => fun r => ∃ e, r = .error e
  | ⟨_, .nonceSet _ _⟩ => fun r => ∃ e, r = .error e
  | _ => fun _ => False

/-- `Does` with stores that never fail. -/
def Reliable : Sem Call Resp NodeState := fun c s r s' => Does c s r s' ∧ ¬ storeRaised c r

/-- The calls that only read. -/
def Call.quiet (c : Call) : Prop :=
  match c.op with
  | .tableUpsert _ | .cachePut _ | .cachePop _ | .cacheReplace _ | .storeUpsert _ | .storeDelete _
  | .nonceSet _ _ => False
  | _ => True

theorem Does.eq_of_quiet {c : Call} {s s' : NodeState} {r : Resp c} (hq : c.quiet)
    (h : Does c s r s') : s' = s := by
  obtain ⟨o, op⟩ := c
  cases op
  case tableUpsert | cachePut | cachePop | cacheReplace | storeUpsert | storeDelete | nonceSet =>
    exact hq.elim
  case tableGet | tableValues | storeValues =>
    rcases h with ⟨e, _, rfl⟩ | ⟨_, rfl⟩ <;> rfl
  case utcNow | cacheRef | cacheGet | cacheGetAt | cacheIsEmpty => exact h.2
  case getaddrinfo | httpGet | httpRequest | hostCallback => exact h

def Passes (s s' : NodeState) : Prop :=
  ∃ t : DateTime, s.clock.instant ≤ t.instant ∧ s' = { s with clock := t }

theorem Passes.refl (s : NodeState) : Passes s s := ⟨s.clock, Int.le_refl _, rfl⟩

theorem Passes.trans {s t u : NodeState} (h : Passes s t) (h' : Passes t u) : Passes s u := by
  obtain ⟨a, ha, rfl⟩ := h
  obtain ⟨b, hb, rfl⟩ := h'
  exact ⟨b, Int.le_trans ha hb, rfl⟩

/-- What happens to a node between the steps of its coroutines: time passes and
an operator may delete a record. -/
def Outside (s s' : NodeState) : Prop :=
  Passes s s' ∨ ∃ n, s' = { s with membershipTable := s.membershipTable.erase n }

/-- An environment that answers by functions: the clock as read at a call site,
DNS, HTTP and the host. The stores do their work and do not fail. -/
structure Env where
  now : Origin → DateTime → DateTime := fun _ clock => clock
  getaddrinfo : Origin → String → Except Exc (List String)
  httpGet : Origin → String → Except Exc Response
  httpRequest : Origin → String → String → String → Option String → Except Exc Response
  hostCallback : HostCallback → Manifest → Except Exc (Bool × String)

def Env.handle (env : Env) (c : Call) (s : NodeState) : Resp c × NodeState :=
  match c with
  | ⟨o, .utcNow⟩ => (env.now o s.clock, s)
  | ⟨_, .tableGet n⟩ => (.ok (s.membershipTable.get n), s)
  | ⟨_, .tableUpsert rec⟩ => (.ok (), { s with membershipTable := s.membershipTable.upsert rec })
  | ⟨_, .tableValues⟩ => (.ok s.membershipTable.entries, s)
  | ⟨_, .cacheRef⟩ => (s.cacheRef, s)
  | ⟨_, .cacheGet n⟩ => (s.peerManifests.get n, s)
  | ⟨_, .cacheGetAt ref n⟩ => (if ref = s.cacheRef then s.peerManifests.get n else none, s)
  | ⟨_, .cachePut m⟩ => ((), { s with peerManifests := s.peerManifests.upsert m })
  | ⟨_, .cachePop n⟩ => ((), { s with peerManifests := s.peerManifests.erase n })
  | ⟨_, .cacheReplace ms⟩ =>
    ((), { s with peerManifests := Keyed.ofList ms, cacheRef := s.cacheRef + 1 })
  | ⟨_, .cacheIsEmpty⟩ => (s.peerManifests.entries.isEmpty, s)
  | ⟨_, .storeUpsert m⟩ => (.ok (), { s with manifestStore := s.manifestStore.upsert m })
  | ⟨_, .storeDelete n⟩ => (.ok (), { s with manifestStore := s.manifestStore.erase n })
  | ⟨_, .storeValues⟩ => (.ok s.manifestStore.entries, s)
  | ⟨o, .getaddrinfo host⟩ => (env.getaddrinfo o host, s)
  | ⟨o, .httpGet url⟩ => (env.httpGet o url, s)
  | ⟨o, .httpRequest target method url since⟩ => (env.httpRequest o target method url since, s)
  | ⟨_, .hostCallback callback m⟩ => (env.hostCallback callback m, s)
  | ⟨_, .nonceSet key expire⟩ => (.ok (s.nonceSet key expire).1, (s.nonceSet key expire).2)

theorem Env.reliable {env : Env} (hnow : ∀ o t, env.now o t = t) (c : Call) (s : NodeState) :
    Reliable c s (env.handle c s).1 (env.handle c s).2 := by
  obtain ⟨o, op⟩ := c
  cases op <;> simp [Reliable, Does, Port, Env.handle, storeRaised, hnow]

abbrev Py (α : Type) := Task.Raising Exc Call Resp α

def raising {α : Type} (x : Except Exc α) : Py α := Task.Raising.lift x

abbrev locked {α : Type} (t : Py α) : Py α := Task.Raising.locked t

def utcNow (o : Origin) : Py DateTime := ExceptT.mk (.call ⟨o, .utcNow⟩ fun r => .done (.ok r))

namespace MembershipTable

def get (o : Origin) (nodeId : String) : Py (Option MemberRecord) :=
  ExceptT.mk (.call ⟨o, .tableGet nodeId⟩ fun r => .done r)

def upsert (o : Origin) (rec : MemberRecord) : Py Unit :=
  ExceptT.mk (.call ⟨o, .tableUpsert rec⟩ fun r => .done r)

def values (o : Origin) : Py (List MemberRecord) :=
  ExceptT.mk (.call ⟨o, .tableValues⟩ fun r => .done r)

end MembershipTable

namespace PeerManifests

def ref (o : Origin) : Py Nat := ExceptT.mk (.call ⟨o, .cacheRef⟩ fun r => .done (.ok r))

def get (o : Origin) (nodeId : String) : Py (Option Manifest) :=
  ExceptT.mk (.call ⟨o, .cacheGet nodeId⟩ fun r => .done (.ok r))

def getAt (o : Origin) (ref : Nat) (nodeId : String) : Py (Option Manifest) :=
  ExceptT.mk (.call ⟨o, .cacheGetAt ref nodeId⟩ fun r => .done (.ok r))

def put (o : Origin) (manifest : Manifest) : Py Unit :=
  ExceptT.mk (.call ⟨o, .cachePut manifest⟩ fun r => .done (.ok r))

def pop (o : Origin) (nodeId : String) : Py Unit :=
  ExceptT.mk (.call ⟨o, .cachePop nodeId⟩ fun r => .done (.ok r))

def replace (o : Origin) (manifests : List Manifest) : Py Unit :=
  ExceptT.mk (.call ⟨o, .cacheReplace manifests⟩ fun r => .done (.ok r))

def isEmpty (o : Origin) : Py Bool := ExceptT.mk (.call ⟨o, .cacheIsEmpty⟩ fun r => .done (.ok r))

end PeerManifests

namespace ManifestStore

def upsert (o : Origin) (manifest : Manifest) : Py Unit :=
  ExceptT.mk (.call ⟨o, .storeUpsert manifest⟩ fun r => .done r)

def delete (o : Origin) (nodeId : String) : Py Unit :=
  ExceptT.mk (.call ⟨o, .storeDelete nodeId⟩ fun r => .done r)

def values (o : Origin) : Py (List Manifest) :=
  ExceptT.mk (.call ⟨o, .storeValues⟩ fun r => .done r)

end ManifestStore

def getaddrinfo (o : Origin) (host : String) : Py (List String) :=
  ExceptT.mk (.call ⟨o, .getaddrinfo host⟩ fun r => .done r)

def httpGet (o : Origin) (url : String) : Py Response :=
  ExceptT.mk (.call ⟨o, .httpGet url⟩ fun r => .done r)

def httpRequest (o : Origin) (targetNodeId method url : String) (since : Option String) :
    Py Response :=
  ExceptT.mk (.call ⟨o, .httpRequest targetNodeId method url since⟩ fun r => .done r)

def hostCallback (o : Origin) (callback : HostCallback) (manifest : Manifest) :
    Py (Bool × String) :=
  ExceptT.mk (.call ⟨o, .hostCallback callback manifest⟩ fun r => .done r)

def nonceSet (o : Origin) (key : String) (expire : Int) : Py Bool :=
  ExceptT.mk (.call ⟨o, .nonceSet key expire⟩ fun r => .done r)

end Federlet
