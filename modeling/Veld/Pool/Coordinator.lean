import Veld.Lib.Table

/-!
# The coordinator of the pool

`pool/coordinator.py`: workers lease ranges of nonces of a template and submit the nonces that solve a share.
-/

namespace Veld.Pool

abbrev Identity := String × Nat

inductive Status where
  | pending
  | deferred
  | verified
  | invalid
  | stale
  | nearMiss
  deriving DecidableEq

def Status.waiting : Status → Bool
  | .pending => true
  | .deferred => true
  | _ => false

structure NonceLease where
  id : String
  account : String
  job : String
  template : String
  start : Nat
  stop : Nat
  deriving DecidableEq

structure Receipt where
  account : String
  lease : String
  status : Status
  deriving DecidableEq

inductive PoolEvent where
  | job (id template : String)
  | lease (l : NonceLease)
  | receipt (identity : Identity) (account lease : String)
  | verification (identity : Identity) (status : Status)
  | other
  deriving DecidableEq

/-- The tables that the journal is projected to. -/
structure Projection where
  jobs : Table String String
  leases : Table String NonceLease
  highwater : Table String Nat
  receipts : Table Identity Receipt
  unverifiedCount : Int
  verifiedCounts : Table String Int

def Projection.empty : Projection := ⟨∅, ∅, ∅, ∅, 0, ∅⟩

def Projection.mark (p : Projection) (template : String) : Nat := (p.highwater.lookup template).getD 0

/-- `apply`. A verification without its receipt raises. -/
def Projection.apply (p : Projection) : PoolEvent → Option Projection
  | .job id template => some { p with jobs := p.jobs.insert id template }
  | .lease l =>
    some { p with
      leases := p.leases.insert l.id l
      highwater := p.highwater.insert l.template (max (p.mark l.template) l.stop) }
  | .receipt identity account lease =>
    some { p with
      receipts := p.receipts.insert identity ⟨account, lease, .pending⟩
      unverifiedCount := p.unverifiedCount + 1 }
  | .verification identity status =>
    match p.receipts.lookup identity with
    | none => none
    | some receipt =>
      let change : Int := (if status = .verified then 1 else 0) - if receipt.status = .verified then 1 else 0
      some { p with
        unverifiedCount := p.unverifiedCount + (if status.waiting then 1 else 0) -
          if receipt.status.waiting then 1 else 0
        verifiedCounts := p.verifiedCounts.insert receipt.account
          ((p.verifiedCounts.lookup receipt.account).getD 0 + change)
        receipts := p.receipts.insert identity { receipt with status } }
  | .other => some p

def replayEvents (history : List PoolEvent) : Option Projection := history.foldlM Projection.apply .empty

structure Coordinator where
  projection : Projection
  active : Option String
  leaseReserve : List ((String × String × Nat) × List NonceLease)
  inflight : Table Identity Bool
  queueCapacity : Int

/-! ## The operations -/

def maxLeaseCount : Nat := 4096
def nonceSpace : Nat := 2 ^ 64
def leaseBatch : Nat := 8
def maxReserves : Nat := 64

/-- The leases of one batch; `ids` are the drawn ids. -/
def leaseRanges (account job template : String) (count : Nat) : List String → Nat → List NonceLease
  | [], _ => []
  | id :: ids, start => ⟨id, account, job, template, start, start + count⟩ ::
      leaseRanges account job template count ids (start + count)

inductive Operation where
  /-- A new template of the node, in `work`. -/
  | refresh (id template : String)
  /-- The rest of `work`: a lease, with the ids drawn for a batch. -/
  | work (account : String) (count : Nat) (ids : List String)
  /-- `submit` up to the verification. -/
  | submit (account lease : String) (nonce : Nat) (current : Bool)
  /-- `retry_deferred`. -/
  | retry (identity : Identity)
  /-- `_verify` records its result. -/
  | conclude (identity : Identity) (status : Status)
  /-- `_verify` has raised. -/
  | fail (identity : Identity)
  /-- `_verify` ends. -/
  | finish (identity : Identity)
  /-- `reconcile_solutions` drops the active job. -/
  | drop
  /-- An event of the other tables. -/
  | record

def Coordinator.popReserve (c : Coordinator) (key : String × String × Nat) :
    List NonceLease × List ((String × String × Nat) × List NonceLease) :=
  (((c.leaseReserve.find? (·.1 = key)).map Prod.snd).getD [], c.leaseReserve.filter (·.1 ≠ key))

/-- The first lease goes to the worker; what is left of the batch is kept, with the oldest reserve dropped when there
are too many. -/
def keepReserve (others : List ((String × String × Nat) × List NonceLease)) (key : String × String × Nat)
    (rest : List NonceLease) : List ((String × String × Nat) × List NonceLease) :=
  if rest = [] then others
  else
    let kept := others ++ [(key, rest)]
    if maxReserves < kept.length then kept.tail else kept

/-- An operation on a running coordinator: the events that it appends, the coordinator whose projection then takes
them, and the lease that it gives to a worker. -/
def Operation.plan (c : Coordinator) : Operation → Option (List PoolEvent × Coordinator × Option NonceLease)
  | .refresh id template => some ([.job id template], { c with leaseReserve := [], active := some id }, none)
  | .work account count ids => do
    guard (1 ≤ count ∧ count ≤ maxLeaseCount)
    let job ← c.active
    let template ← c.projection.jobs.lookup job
    let (reserve, others) := c.popReserve (job, account, count)
    match reserve with
    | lease :: rest => return ([], { c with leaseReserve := keepReserve others (job, account, count) rest }, some lease)
    | [] =>
      let start := c.projection.mark template
      guard (start + count ≤ nonceSpace)
      guard (ids.length = min leaseBatch ((nonceSpace - start) / count))
      match leaseRanges account job template count ids start with
      | [] => none
      | lease :: rest =>
        return ((lease :: rest).map .lease, { c with leaseReserve := keepReserve others (job, account, count) rest },
          some lease)
  | .submit account leaseId nonce current => do
    let lease ← c.projection.leases.lookup leaseId
    guard (lease.account = account ∧ lease.start ≤ nonce ∧ nonce < lease.stop)
    let template ← c.projection.jobs.lookup lease.job
    let identity := (template, nonce)
    guard ((c.inflight.lookup identity).isNone)
    match c.projection.receipts.lookup identity with
    | none =>
      guard (c.projection.unverifiedCount < c.queueCapacity ∧ current)
      return ([.receipt identity account leaseId], { c with inflight := c.inflight.insert identity false }, none)
    | some prior =>
      guard (prior.status = .deferred)
      return ([], { c with inflight := c.inflight.insert identity false }, none)
  | .retry identity => do
    let receipt ← c.projection.receipts.lookup identity
    guard (receipt.status = .deferred ∧ (c.inflight.lookup identity).isNone)
    return ([], { c with inflight := c.inflight.insert identity false }, none)
  | .conclude identity status => do
    guard (c.inflight.lookup identity = some false ∧ status ≠ .pending)
    return ([.verification identity status], { c with inflight := c.inflight.insert identity true }, none)
  | .fail identity => do
    guard ((c.inflight.lookup identity).isSome)
    let receipt ← c.projection.receipts.lookup identity
    return (if receipt.status = .pending then [.verification identity .deferred] else [],
      { c with inflight := c.inflight.insert identity true }, none)
  | .finish identity => some ([], { c with inflight := c.inflight.erase identity }, none)
  | .drop => some ([], { c with active := none }, none)
  | .record => some ([.other], c, none)

/-- The pending receipts of a journal, which a restart defers. -/
def Projection.pending (p : Projection) : List Identity :=
  (p.receipts.entries.filter fun row => row.2.status = .pending).map Sigma.fst

end Veld.Pool
