import Federlet.Time

/-! Runtime membership state of one peer and the health policy applied over it:
pure functions from record to record, stamped with the time they are given. -/

namespace Federlet

inductive PeerState where
  | active
  | cooldown
  | staleManifest
  | rejected
  | revoked
  deriving DecidableEq, Repr

structure MemberRecord (T : Type := DateTime) where
  nodeId : String
  manifestUrl : String
  orgId : Option String := none
  manifestRevision : Int := 0
  state : PeerState := .active
  acceptedUntil : Option T := none
  cooldownUntil : Option T := none
  failures : Nat := 0
  lastRefresh : Option T := none
  deriving DecidableEq

section Times

variable {T : Type}

namespace MemberRecord

def isEligible [LE T] [LT T] [DecidableLE T] [DecidableLT T] (rec : MemberRecord T)
    (now : T) : Bool :=
  if rec.state ≠ .active then false
  else if rec.acceptedUntil.any (fun t => t ≤ now) then false
  else if rec.cooldownUntil.any (fun t => now < t) then false
  else true

def touch (rec : MemberRecord T) (now : T) : MemberRecord T := { rec with lastRefresh := some now }

def admitRecord (rec : MemberRecord T) (acceptedUntil : Option T) (now : T) : MemberRecord T :=
  { rec with
    state := .active, acceptedUntil := acceptedUntil, failures := 0
    cooldownUntil := none }.touch now

def setState (rec : MemberRecord T) (state : PeerState) (now : T) : MemberRecord T :=
  { rec with state := state }.touch now

end MemberRecord

end Times

/-- Exponential backoff schedule for peer-refresh failures. -/
structure CooldownPolicy where
  baseCooldown : TimeDelta := ⟨30000000, by decide⟩
  maxCooldown : TimeDelta := ⟨600000000, by decide⟩

def CooldownPolicy.nextCooldown (policy : CooldownPolicy) (failures : Nat) :
    Except Exc TimeDelta := do
  let scaled ← policy.baseCooldown.mul (1 <<< (failures - 1) : Nat)
  return if policy.maxCooldown.micros < scaled.micros then policy.maxCooldown else scaled

def recordSuccess {T : Type} (rec : MemberRecord T) (now : T) : MemberRecord T :=
  { rec with
    failures := 0
    cooldownUntil := none
    state := if rec.state = PeerState.cooldown then PeerState.active else rec.state }.touch now

/-- The counter is raised before the cooldown is computed, so a call that raises
leaves the record with one more failure and nothing else changed. -/
def recordFailure {T : Type} [HAdd T TimeDelta (Except Exc T)] (rec : MemberRecord T)
    (policy : CooldownPolicy) (now : T) : MemberRecord T × Except Exc (MemberRecord T) :=
  let counted := { rec with failures := rec.failures + 1 }
  (counted, do
    let cooldown ← policy.nextCooldown counted.failures
    let until_ ← now + cooldown
    return { counted with cooldownUntil := some until_ }.touch now)

@[simp] theorem MemberRecord.admitRecord_nodeId (rec : MemberRecord) (u : Option DateTime)
    (now : DateTime) : (rec.admitRecord u now).nodeId = rec.nodeId := rfl

@[simp] theorem MemberRecord.admitRecord_state (rec : MemberRecord) (u : Option DateTime)
    (now : DateTime) : (rec.admitRecord u now).state = .active := rfl

/-- A record as `admit` leaves it when no deadline is given. -/
structure MemberRecord.Fresh (rec : MemberRecord) : Prop where
  active : rec.state = .active
  open_ended : rec.acceptedUntil = none
  cool : rec.cooldownUntil = none

theorem MemberRecord.admitRecord_fresh (rec : MemberRecord) (now : DateTime) :
    (rec.admitRecord none now).Fresh :=
  ⟨rfl, rfl, rfl⟩

@[simp] theorem MemberRecord.setState_nodeId (rec : MemberRecord) (st : PeerState)
    (now : DateTime) : (rec.setState st now).nodeId = rec.nodeId := rfl

@[simp] theorem MemberRecord.setState_state (rec : MemberRecord) (st : PeerState) (now : DateTime) :
    (rec.setState st now).state = st := rfl

end Federlet
