import Veld.Lib.Program
import Veld.Lib.Table
import Veld.Core.BtcDepositVerify

/-!
# The redeem covenant

`SignerBondCovenant` of `consensus/btcveld_signer_bond.h`: the bonds of the signers, the redeem requests and
their life cycle, and the Bitcoin transactions already used as payouts or proven as fraud.
-/

namespace Veld.Btcveld

open Wire Program Btcspv

structure SignerBond where
  veldAddr : Bytes := []
  bondedSats : Nat := 0
  lockedSats : Nat := 0
  active : Bool := false
  deriving DecidableEq

def SignerBond.free (s : SignerBond) : Nat := s.bondedSats - s.lockedSats

inductive ReqStatus where
  | requested
  | lockedIn
  | assigned
  | signed
  | broadcast
  | fulfilled
  | defaulted
  deriving DecidableEq

namespace ReqStatus

def code : ReqStatus → Nat
  | requested => 0
  | lockedIn => 1
  | assigned => 2
  | signed => 3
  | broadcast => 4
  | fulfilled => 5
  | defaulted => 6

def ofCode : Nat → Option ReqStatus
  | 0 => some requested
  | 1 => some lockedIn
  | 2 => some assigned
  | 3 => some signed
  | 4 => some broadcast
  | 5 => some fulfilled
  | 6 => some defaulted
  | _ => none

def closed (s : ReqStatus) : Bool := s == fulfilled || s == defaulted

/-- Locked in and neither paid nor defaulted. -/
def isOpen (s : ReqStatus) : Bool :=
  s == lockedIn || s == assigned || s == signed || s == broadcast

end ReqStatus

structure RedeemRequest where
  requestId : Hash256
  amountSats : Nat
  destSpk : Bytes
  requestHeight : Nat
  deadlineHeight : Nat
  status : ReqStatus
  fulfilledTxid : Hash256 := .zero
  veldRecipient : Bytes
  requestCommitment : Hash256 := .zero
  btcObservedHeight : Nat
  deriving DecidableEq

inductive SlashReason where
  | none
  | nonPayment
  | fraudulentSpend
  | wrongPayout
  deriving DecidableEq

structure SlashVerdict where
  slash : Bool := false
  reason : SlashReason := .none
  slashSats : Nat := 0
  compensateSats : Nat := 0
  compensateTo : Bytes := []
  deriving DecidableEq

/-- The archive: roots, and reads and inserts that may fail. -/
structure RedeemArchive where
  Root : Type
  emptyRoot : Root
  available : Bool
  get : Root → Hash256 → Option (Option Bytes)
  insert : Root → Hash256 → Bytes → Option Root

/-- What an archive is for: a root stands for a map, which answers and accepted inserts agree with. -/
structure RedeemArchive.Sound (A : RedeemArchive)
    (holds : A.Root → (Hash256 → Option Bytes) → Prop) : Prop where
  empty : holds A.emptyRoot fun _ => none
  get : ∀ {root : A.Root} {m : Hash256 → Option Bytes} {key : Hash256} {answer : Option Bytes},
    holds root m → A.get root key = some answer → answer = m key
  insert : ∀ {root root' : A.Root} {m : Hash256 → Option Bytes} {key : Hash256} {value : Bytes},
    holds root m → A.insert root key value = some root' →
      (m key = none ∨ m key = some value) ∧ holds root' (Function.update m key (some value))

structure Covenant (A : RedeemArchive) where
  signers : Table Bytes SignerBond
  requests : Table Hash256 RedeemRequest
  consumedPayouts : List Hash256
  consumedFraudSpends : List Hash256
  reserveBackedRequests : List Hash256
  insuranceFundSats : Nat
  archiveRoot : A.Root
  stateMigrationActive : Bool

def Covenant.empty (A : RedeemArchive) : Covenant A where
  signers := ∅
  requests := ∅
  consumedPayouts := []
  consumedFraudSpends := []
  reserveBackedRequests := []
  insuranceFundSats := 0
  archiveRoot := A.emptyRoot
  stateMigrationActive := false

/-- Keys in the order of `std::map`. -/
def orderedSigners (signers : Table Bytes SignerBond) : List Bytes :=
  signers.keys.mergeSort fun a b => decide (a ≤ b)

def orderedHashes (hs : List Hash256) : List Hash256 := hs.mergeSort Hash256.le

def securityStateMigrationActive (P : Profile) (height : Nat) : Bool :=
  P.securityStateMigrationHeight != 0 && P.securityStateMigrationHeight ≤ height

def redeemRequestCommitmentScript (commitment : Hash256) : Bytes :=
  0x6a :: 47 :: (ascii "VELD_REDEEM_V2|" ++ commitment.bytes)

namespace Covenant
variable {A : RedeemArchive} (c : Covenant A)

/-- `TotalActiveBond`, saturated. -/
def totalActiveBond : Nat :=
  min (Table.total (fun s : SignerBond => if s.active then s.bondedSats else 0) c.signers) uint64Max

def dueForDefault (height : Nat) : List Hash256 :=
  orderedHashes ((c.requests.entries.filter fun row =>
    row.2.status.isOpen && row.2.deadlineHeight < height).map (·.1))

/-- `FindOpenByCommitmentCopy`: the sole open request with this commitment. -/
def findOpenByCommitment (commitment : Hash256) : Option RedeemRequest :=
  if commitment.isZero then none
  else onlyOne ((c.requests.entries.filter fun row =>
    row.2.status.isOpen && row.2.requestCommitment == commitment).map (·.2))

end Covenant

abbrev CovenantM (A : RedeemArchive) := EStateM Stop (Covenant A)

section
variable {A : RedeemArchive} (sha256 : Bytes → Hash256)

/-! ## Archive -/

/-- `RedeemArchive::Key`. -/
def archiveKey (kind : Nat) (identity : Bytes) : Hash256 :=
  sha256Domain sha256 "VELD_REDEEM_ARCHIVE_KEY_v1|" (putLE 1 kind ++ putLenPrefixed identity)

def encodeRequest (r : RedeemRequest) : Bytes :=
  r.requestId.bytes ++ putLE 8 r.amountSats ++ putLenPrefixed r.destSpk ++ putLE 8 r.requestHeight ++
    putLE 8 r.deadlineHeight ++ putLE 1 r.status.code ++ r.fulfilledTxid.bytes ++
    putLenPrefixed r.veldRecipient ++ r.requestCommitment.bytes ++ putLE 8 r.btcObservedHeight

/-- A length-prefixed field of an archived record. -/
def readField (bs : Bytes) : Option (Bytes × Bytes) := do
  let (size, r) ← readLE 4 bs
  takeN size r

/-- `DecodeRequest_`. A byte that is no status is refused here; the source refuses it in the only
caller, where the request is not closed. -/
def decodeRequest (body : Bytes) : Option RedeemRequest := do
  let (requestId, r) ← readHash body
  let (amountSats, r) ← readLE 8 r
  let (destSpk, r) ← readField r
  let (requestHeight, r) ← readLE 8 r
  let (deadlineHeight, r) ← readLE 8 r
  let (code, r) ← readLE 1 r
  let status ← ReqStatus.ofCode code
  let (fulfilledTxid, r) ← readHash r
  let (veldRecipient, r) ← readField r
  let (requestCommitment, r) ← readHash r
  let (btcObservedHeight, r) ← readLE 8 r
  let request : RedeemRequest :=
    { requestId, amountSats, destSpk, requestHeight, deadlineHeight, status, fulfilledTxid,
      veldRecipient, requestCommitment, btcObservedHeight }
  guard (r = [] ∧ encodeRequest request = body)
  return request

def encodeSigner (s : SignerBond) : Bytes :=
  putLenPrefixed s.veldAddr ++ putLE 8 s.bondedSats ++ putLE 8 s.lockedSats ++
    putLE 1 (if s.active then 1 else 0)

def archiveRows (root : A.Root) (rows : List (Hash256 × Bytes)) : Option A.Root :=
  rows.foldlM (fun root row => A.insert root row.1 row.2) root

def signerRows (c : Covenant A) : List (Hash256 × Bytes) :=
  (orderedSigners c.signers).filterMap fun addr =>
    (c.signers.lookup addr).map fun s => (archiveKey sha256 4 addr, encodeSigner s)

def insuranceRow (c : Covenant A) : Hash256 × Bytes :=
  (archiveKey sha256 5 (ascii "legacy-insurance"), putLE 8 c.insuranceFundSats)

def spendRows (kind : Nat) (ids : List Hash256) : List (Hash256 × Bytes) :=
  (orderedHashes ids).map fun id => (archiveKey sha256 kind id.bytes, [])

def closedRequestRows (c : Covenant A) : List (Hash256 × Bytes) :=
  (orderedHashes c.requests.keys).filterMap fun id =>
    (c.requests.lookup id).bind fun r =>
      if r.status.closed then some (archiveKey sha256 1 id.bytes, encodeRequest r) else none

/-- The covenant without closed requests, used transactions and signers that hold no lock. -/
def Covenant.retire (c : Covenant A) (root : A.Root) : Covenant A :=
  { c with
    signers := Table.keep (fun _ s => s.lockedSats != 0) c.signers
    requests := Table.keep (fun _ r => !r.status.closed) c.requests
    reserveBackedRequests := c.reserveBackedRequests.filter fun id =>
      !((c.requests.lookup id).any fun r => r.status.closed)
    consumedPayouts := []
    consumedFraudSpends := []
    archiveRoot := root }

/-- All signers resign. -/
def deactivate (signers : Table Bytes SignerBond) : Table Bytes SignerBond where
  entries := signers.entries.map fun row => ⟨row.1, { row.2 with active := false }⟩
  nodupKeys := by
    have h : (signers.entries.map fun row =>
        (⟨row.1, { row.2 with active := false }⟩ : Sigma fun _ : Bytes => SignerBond)).keys =
        signers.entries.keys := by simp [List.keys, Function.comp_def]
    rw [List.NodupKeys, h]
    exact signers.nodupKeys

/-- `BeginBlock`: the migration, once. -/
def beginBlock (P : Profile) (height : Nat) : CovenantM A Unit := do
  let c ← get
  if securityStateMigrationActive P height = false then
    check (c.stateMigrationActive = false) Stop.thrown
  else do
    check (A.available = true) Stop.thrown
    if c.stateMigrationActive then pure ()
    else do
      let root ← require (archiveRows c.archiveRoot
        (signerRows sha256 c ++ [insuranceRow sha256 c] ++ spendRows sha256 2 c.consumedPayouts ++
          spendRows sha256 3 c.consumedFraudSpends ++ closedRequestRows sha256 c)) Stop.thrown
      set { ({ c with signers := deactivate c.signers } : Covenant A).retire root with
        stateMigrationActive := true
        insuranceFundSats := 0 }

def finishBlock : CovenantM A Unit := do
  let c ← get
  if c.stateMigrationActive = false then pure ()
  else do
    let root ← require (archiveRows c.archiveRoot
      (closedRequestRows sha256 c ++ spendRows sha256 2 c.consumedPayouts ++
        spendRows sha256 3 c.consumedFraudSpends)) Stop.thrown
    set (c.retire root)

/-- A lookup in the archive, which is empty before the migration. -/
def archived (kind : Nat) (id : Hash256) : CovenantM A Bool := do
  let c ← get
  if c.stateMigrationActive then do
    let found ← require (A.get c.archiveRoot (archiveKey sha256 kind id.bytes)) Stop.thrown
    return found.isSome
  else return false

/-- `GetCopy`: a request in memory or, once closed, in the archive. -/
def getCopy (id : Hash256) : CovenantM A (Option RedeemRequest) := do
  let c ← get
  match c.requests.lookup id with
  | some r => return some r
  | none =>
    if c.stateMigrationActive then do
      let wire ← require (A.get c.archiveRoot (archiveKey sha256 1 id.bytes)) Stop.thrown
      match wire with
      | none => return none
      | some body => do
        let r ← require (decodeRequest body) Stop.thrown
        check (r.requestId = id ∧ r.status.closed) Stop.thrown
        return some r
    else return none

/-! ## Signers -/

def register (addr : Bytes) (bondSats : Nat) : CovenantM A Unit := do
  let c ← get
  check (c.stateMigrationActive = false ∧ addr ≠ [] ∧ bondSats ≠ 0) Stop.reject
  let s := (c.signers.lookup addr).getD {}
  check (s.bondedSats ≤ uint64Max - bondSats) Stop.reject
  set { c with signers := c.signers.insert addr
                 { s with veldAddr := addr, bondedSats := s.bondedSats + bondSats } }

def activate (addr : Bytes) : CovenantM A Unit := do
  let c ← get
  check (c.stateMigrationActive = false) Stop.reject
  let s ← require (c.signers.lookup addr) Stop.reject
  check (s.bondedSats ≠ 0) Stop.reject
  set { c with signers := c.signers.insert addr { s with active := true } }

/-- `BuildLockPlan_`: what each signer locks, in order, and what is left over. -/
def buildLockPlan (signers : Table Bytes SignerBond) : List Bytes → Nat → List (Bytes × Nat) × Nat
  | [], remaining => ([], remaining)
  | addr :: rest, remaining =>
    match signers.lookup addr with
    | none => buildLockPlan signers rest remaining
    | some s =>
      let amount := if s.active then min remaining s.free else 0
      let (plan, left) := buildLockPlan signers rest (remaining - amount)
      (if amount = 0 then plan else (addr, amount) :: plan, left)

def applyLockPlan (signers : Table Bytes SignerBond) (plan : List (Bytes × Nat)) :
    Table Bytes SignerBond :=
  plan.foldl (fun signers (addr, amount) =>
    match signers.lookup addr with
    | none => signers
    | some s => signers.insert addr { s with lockedSats := s.lockedSats + amount }) signers

/-- The loop of `ReleaseLock`. -/
def releaseFrom (signers : Table Bytes SignerBond) : List Bytes → Nat → Table Bytes SignerBond
  | [], _ => signers
  | addr :: rest, remaining =>
    match signers.lookup addr with
    | none => releaseFrom signers rest remaining
    | some s =>
      let amount := min remaining s.lockedSats
      releaseFrom (signers.insert addr { s with lockedSats := s.lockedSats - amount }) rest
        (remaining - amount)

/-- `ReleaseRequestLock_`: requests backed by the reserve hold no lock. -/
def releaseRequestLock (id : Hash256) (amount : Nat) : CovenantM A Unit := do
  let c ← get
  if id ∈ c.reserveBackedRequests then
    set { c with reserveBackedRequests := c.reserveBackedRequests.filter (· ≠ id) }
  else do
    check (amount ≤ Table.total SignerBond.lockedSats c.signers) Stop.thrown
    set { c with signers := releaseFrom c.signers (orderedSigners c.signers) amount }

/-! ## Requests -/

def requestCommitment (r : RedeemRequest) : Hash256 :=
  sha256Domain sha256 "VELD_BTCVELD_REDEEM_REQUEST_v2"
    (r.requestId.bytes ++ putLE 8 r.amountSats ++ putLenPrefixed r.destSpk ++
      putLE 8 r.requestHeight ++ putLE 8 r.deadlineHeight ++ putLE 8 r.btcObservedHeight ++
      putLenPrefixed r.veldRecipient)

def admissible (r : RedeemRequest) : Prop :=
  r.requestId.isZero = false ∧ r.amountSats ≠ 0 ∧ r.destSpk ≠ [] ∧ r.veldRecipient ≠ [] ∧
    r.requestHeight < r.deadlineHeight ∧ r.status = .lockedIn ∧ r.fulfilledTxid.isZero ∧
    (r.requestCommitment.isZero ∨ r.requestCommitment = requestCommitment sha256 r)

instance (r : RedeemRequest) : Decidable (admissible sha256 r) := by
  unfold admissible; infer_instance

def insertRequest (r : RedeemRequest) (reserveBacked : Bool) : CovenantM A Unit := do
  let c ← get
  if reserveBacked then do
    check (r.requestId ∉ c.reserveBackedRequests) Stop.thrown
    set { c with
      requests := c.requests.insert r.requestId r
      reserveBackedRequests := r.requestId :: c.reserveBackedRequests }
  else do
    let (plan, left) := buildLockPlan c.signers (orderedSigners c.signers) r.amountSats
    check (left = 0) Stop.thrown
    set { c with
      requests := c.requests.insert r.requestId r
      signers := applyLockPlan c.signers plan }

/-- `AddRequest`. An exact replay is idempotent. -/
def addRequest (r : RedeemRequest) (reserveBacked : Bool) : CovenantM A Unit := do
  check (admissible sha256 r) Stop.thrown
  let r := { r with requestCommitment := requestCommitment sha256 r }
  let c ← get
  match c.requests.lookup r.requestId with
  | some existing =>
    check (existing = r ∧ (r.requestId ∈ c.reserveBackedRequests ↔ reserveBacked))
      Stop.thrown
  | none => do
    let replay ← archived sha256 1 r.requestId
    check (replay = false) Stop.thrown
    insertRequest r reserveBacked

/-- `SetStatus`. A closed request stays as it is. -/
def setStatus (id : Hash256) (st : ReqStatus) : CovenantM A Unit := do
  let c ← get
  match c.requests.lookup id with
  | none => pure ()
  | some r =>
    if r.status = st ∨ r.status.closed = true then pure ()
    else do
      check (st ≠ .fulfilled) Stop.thrown
      if st = .defaulted then releaseRequestLock id r.amountSats else pure ()
      modify fun c => { c with requests := c.requests.insert id { r with status := st } }

def markFulfilled (id payoutTxid : Hash256) (paidSats : Nat) (paidSpk : Bytes) :
    CovenantM A Unit := do
  let c ← get
  let r ← require (c.requests.lookup id) Stop.reject
  check (r.status.closed = false ∧ paidSats = r.amountSats ∧ paidSpk = r.destSpk) Stop.reject
  releaseRequestLock id r.amountSats
  modify fun c =>
    { c with requests :=
        c.requests.insert id { r with status := .fulfilled, fulfilledTxid := payoutTxid } }

/-! ## Payouts and fraud -/

def isConsumedPayout (txid : Hash256) : CovenantM A Bool := do
  let c ← get
  if txid ∈ c.consumedPayouts then return true else archived sha256 2 txid

def isConsumedFraudSpend (txid : Hash256) : CovenantM A Bool := do
  let c ← get
  if txid ∈ c.consumedFraudSpends then return true else archived sha256 3 txid

/-- A transaction that was neither a payout nor a fraud before. -/
def checkUnused (txid : Hash256) : CovenantM A Unit := do
  let payout ← isConsumedPayout sha256 txid
  check (payout = false) Stop.reject
  let fraud ← isConsumedFraudSpend sha256 txid
  check (fraud = false) Stop.reject

def markAuthorizedReservePayout (id payoutTxid : Hash256) (paidSats : Nat) (paidSpk : Bytes) :
    CovenantM A Unit := do
  check (payoutTxid.isZero = false) Stop.reject
  checkUnused sha256 payoutTxid
  markFulfilled id payoutTxid paidSats paidSpk
  modify fun c => { c with consumedPayouts := payoutTxid :: c.consumedPayouts }

def consumeFraudSpend (spendTxid : Hash256) : CovenantM A Unit := do
  check (spendTxid.isZero = false) Stop.reject
  checkUnused sha256 spendTxid
  modify fun c => { c with consumedFraudSpends := spendTxid :: c.consumedFraudSpends }

end

/-! ## Slashing -/

def slashShares (want total : Nat) : List Bytes → Table Bytes SignerBond → Nat →
    Table Bytes SignerBond × Nat
  | [], signers, taken => (signers, taken)
  | addr :: rest, signers, taken =>
    match signers.lookup addr with
    | none => slashShares want total rest signers taken
    | some s =>
      let share := min (want * s.bondedSats / total) s.bondedSats
      slashShares want total rest
        (signers.insert addr { s with bondedSats := s.bondedSats - share })
        ((taken + share) % 2 ^ 64)

/-- The first of the signers with the greatest bond. -/
def greatestBond (signers : Table Bytes SignerBond) : List Bytes → Bytes → Bytes
  | [], best => best
  | addr :: rest, best =>
    let bond := fun a => ((signers.lookup a).map (·.bondedSats)).getD 0
    greatestBond signers rest (if bond best < bond addr then addr else best)

/-- The rounding remainder, taken from the greatest bond. -/
def slashRemainder (want : Nat) (keys : List Bytes) (signers : Table Bytes SignerBond)
    (taken : Nat) : Table Bytes SignerBond × Nat :=
  match keys with
  | [] => (signers, taken)
  | first :: _ =>
    if want ≤ taken then (signers, taken)
    else
      let big := greatestBond signers keys first
      match signers.lookup big with
      | none => (signers, taken)
      | some s =>
        let d := min (want - taken) s.bondedSats
        (signers.insert big { s with bondedSats := s.bondedSats - d }, taken + d)

def Covenant.applySlash {A : RedeemArchive} (c : Covenant A) (v : SlashVerdict) : Covenant A :=
  let total := c.totalActiveBond
  if v.slash = false ∨ v.slashSats = 0 ∨ total = 0 then c
  else
    let want := min v.slashSats total
    let keys := (orderedSigners c.signers).filter fun a => (c.signers.lookup a).any (·.active)
    let (signers, taken) := slashShares want total keys c.signers 0
    let (signers, taken) := slashRemainder want keys signers taken
    { c with
      signers
      insuranceFundSats := (c.insuranceFundSats + (taken - v.compensateSats)) % 2 ^ 64 }

end Veld.Btcveld
