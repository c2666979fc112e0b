import Veld.Consensus.RedeemArchive
import Veld.Consensus.RedeemSpv

/-!
# The calls of the covenant

One lemma per call that changes the covenant: when it is accepted and what it leaves. They are
equivalences, so that a call on one covenant can be replayed on another.
-/

namespace Veld.Btcveld

open Wire hiding bind_eq_ok
open Program Btcspv

section
variable {A : RedeemArchive} {P : Profile} {sha256 : Bytes → Hash256} {c c' : Covenant A}
  {id txid : Hash256} {amount : Nat}

/-! ## What each call does -/

def Covenant.Releasable (c : Covenant A) (id : Hash256) (amount : Nat) : Prop :=
  id ∈ c.reserveBackedRequests ∨ amount ≤ Table.total SignerBond.lockedSats c.signers

def Covenant.released (c : Covenant A) (id : Hash256) (amount : Nat) : Table Bytes SignerBond :=
  if id ∈ c.reserveBackedRequests then c.signers
  else releaseFrom c.signers (orderedSigners c.signers) amount

/-- The covenant with a request closed and its lock released. -/
def Covenant.close (c : Covenant A) (id : Hash256) (r : RedeemRequest) : Covenant A :=
  { c with
    signers := c.released id r.amountSats
    reserveBackedRequests := c.reserveBackedRequests.filter (· ≠ id)
    requests := c.requests.insert id r }

theorem releaseRequestLock_eq_ok :
    releaseRequestLock id amount c = .ok () c' ↔ c.Releasable id amount ∧
      c' = { c with
        signers := c.released id amount
        reserveBackedRequests := c.reserveBackedRequests.filter (· ≠ id) } := by
  by_cases hmem : id ∈ c.reserveBackedRequests
  · simp [releaseRequestLock, get_bind_eq_ok, Covenant.Releasable, Covenant.released, hmem, eq_comm (a := c')]
  · have hrest : c.reserveBackedRequests.filter (· ≠ id) = c.reserveBackedRequests := by
      refine List.filter_eq_self.mpr fun other hother => decide_eq_true ?_
      rintro rfl
      exact hmem hother
    rw [hrest]
    simp [releaseRequestLock, get_bind_eq_ok, check_bind_eq_ok, Covenant.Releasable,
      Covenant.released, hmem, eq_comm (a := c')]

theorem markFulfilled_eq_ok {paidSats : Nat} {paidSpk : Bytes} :
    markFulfilled id txid paidSats paidSpk c = .ok () c' ↔
      ∃ r, c.requests.lookup id = some r ∧
        (r.status.closed = false ∧ paidSats = r.amountSats ∧ paidSpk = r.destSpk) ∧
        c.Releasable id r.amountSats ∧
        c' = c.close id { r with status := .fulfilled, fulfilledTxid := txid } := by
  simp only [markFulfilled, get_bind_eq_ok, require_bind_eq_ok, unit_bind_eq_ok,
    releaseRequestLock_eq_ok, modify_eq_ok]
  simp [Covenant.close, eq_comm (a := c')]

theorem setStatus_eq_ok {st : ReqStatus} :
    setStatus id st c = .ok () c' ↔
      ((∀ r, c.requests.lookup id = some r → r.status = st ∨ r.status.closed) ∧ c' = c) ∨
      ∃ r, c.requests.lookup id = some r ∧ r.status ≠ st ∧ r.status.closed = false ∧
        st ≠ .fulfilled ∧
        (st = .defaulted ∧ c.Releasable id r.amountSats ∧
            c' = c.close id { r with status := .defaulted } ∨
          st ≠ .defaulted ∧
            c' = { c with requests := c.requests.insert id { r with status := st } }) := by
  simp only [setStatus, get_bind_eq_ok]
  cases c.requests.lookup id with
  | none => simp [eq_comm (a := c')]
  | some r =>
    simp only [ite_eq_ok, unit_bind_eq_ok, releaseRequestLock_eq_ok]
    by_cases hst : st = .defaulted
    · subst hst
      simp [Covenant.close, and_assoc, eq_comm (a := c')]
    · simp [hst, and_assoc, eq_comm (a := c')]

variable {b : Bool}

theorem archived_eq_ok {kind : Nat} :
    archived sha256 kind id c = .ok b c' ↔ c' = c ∧
      (c.stateMigrationActive = false ∧ b = false ∨ c.stateMigrationActive ∧
        ∃ found, A.get c.archiveRoot (archiveKey sha256 kind id.bytes) = some found ∧
          b = found.isSome) := by
  simp only [archived, get_bind_eq_ok, ite_eq_ok, require_bind_eq_ok, pure_eq_ok]
  constructor
  · rintro (⟨hactive, found, hfound, rfl, rfl⟩ | ⟨hbefore, rfl, rfl⟩)
    · exact ⟨rfl, .inr ⟨hactive, found, hfound, rfl⟩⟩
    · exact ⟨rfl, .inl ⟨Bool.eq_false_iff.mpr hbefore, rfl⟩⟩
  · rintro ⟨rfl, ⟨hbefore, rfl⟩ | ⟨hactive, found, hfound, rfl⟩⟩
    · exact .inr ⟨Bool.eq_false_iff.mp hbefore, rfl, rfl⟩
    · exact .inl ⟨hactive, found, hfound, rfl, rfl⟩

theorem getCopy_eq_ok {found : Option RedeemRequest} :
    getCopy sha256 id c = .ok found c' ↔ c' = c ∧
      ((∃ r, c.requests.lookup id = some r ∧ found = some r) ∨ c.requests.lookup id = none ∧
        (c.stateMigrationActive = false ∧ found = none ∨ c.stateMigrationActive ∧
          ∃ wire, A.get c.archiveRoot (archiveKey sha256 1 id.bytes) = some wire ∧
            (wire = none ∧ found = none ∨ ∃ body r, wire = some body ∧
              decodeRequest body = some r ∧ (r.requestId = id ∧ r.status.closed) ∧
              found = some r))) := by
  simp only [getCopy, get_bind_eq_ok]
  cases c.requests.lookup id with
  | some r => simp [and_comm, eq_comm (a := c'), eq_comm (a := found)]
  | none =>
    rw [ite_eq_ok, require_bind_eq_ok, pure_eq_ok]
    constructor
    · rintro (⟨hactive, wire, hwire, h⟩ | ⟨hbefore, rfl, rfl⟩)
      · cases wire with
        | none =>
          obtain ⟨rfl, rfl⟩ := pure_eq_ok.mp h
          exact ⟨rfl, .inr ⟨rfl, .inr ⟨hactive, none, hwire, .inl ⟨rfl, rfl⟩⟩⟩⟩
        | some body =>
          simp only [require_bind_eq_ok, check_bind_eq_ok, pure_eq_ok] at h
          obtain ⟨r, hdecode, hr, rfl, rfl⟩ := h
          exact ⟨rfl, .inr ⟨rfl, .inr ⟨hactive, some body, hwire,
            .inr ⟨body, r, rfl, hdecode, hr, rfl⟩⟩⟩⟩
      · exact ⟨rfl, .inr ⟨rfl, .inl ⟨Bool.eq_false_iff.mpr hbefore, rfl⟩⟩⟩
    · rintro ⟨rfl, ⟨r, hr, -⟩ | ⟨-, ⟨hbefore, rfl⟩ | ⟨hactive, wire, hwire, h⟩⟩⟩
      · cases hr
      · exact .inr ⟨Bool.eq_false_iff.mp hbefore, rfl, rfl⟩
      · refine .inl ⟨hactive, wire, hwire, ?_⟩
        rcases h with ⟨rfl, rfl⟩ | ⟨body, r, rfl, hdecode, hr, rfl⟩
        · rfl
        · simp only [require_bind_eq_ok, check_bind_eq_ok, pure_eq_ok]
          exact ⟨r, hdecode, hr, rfl, trivial⟩

theorem consumed_eq_ok {used : Covenant A → List Hash256} {kind : Nat} :
    (do
      let c ← get
      if txid ∈ used c then return true else archived sha256 kind txid : CovenantM A Bool) c =
        .ok b c' ↔ c' = c ∧ (txid ∈ used c ∧ b ∨
          txid ∉ used c ∧ archived sha256 kind txid c = .ok b c) := by
  rw [get_bind_eq_ok, ite_eq_ok, pure_eq_ok]
  constructor
  · rintro (⟨hmem, rfl, rfl⟩ | ⟨hmem, h⟩)
    · exact ⟨rfl, .inl ⟨hmem, rfl⟩⟩
    · obtain rfl := (archived_eq_ok.mp h).1
      exact ⟨rfl, .inr ⟨hmem, h⟩⟩
  · rintro ⟨rfl, ⟨hmem, rfl⟩ | h⟩
    · exact .inl ⟨hmem, rfl, rfl⟩
    · exact .inr h

/-- A transaction that was neither a payout nor a fraud before. -/
def Covenant.Unused (sha256 : Bytes → Hash256) (c : Covenant A) (txid : Hash256) : Prop :=
  isConsumedPayout sha256 txid c = .ok false c ∧ isConsumedFraudSpend sha256 txid c = .ok false c

theorem isConsumedPayout_state (h : isConsumedPayout sha256 txid c = .ok b c') : c' = c :=
  (consumed_eq_ok.mp h).1

theorem isConsumedFraudSpend_state (h : isConsumedFraudSpend sha256 txid c = .ok b c') : c' = c :=
  (consumed_eq_ok.mp h).1

theorem checkUnused_eq_ok :
    checkUnused sha256 txid c = .ok () c' ↔ c' = c ∧ c.Unused sha256 txid := by
  simp only [checkUnused, bind_eq_ok, check_eq_ok]
  constructor
  · rintro ⟨payout, m₁, hpayout, _, _, ⟨rfl, rfl⟩, fraud, m₂, hfraud, rfl, rfl⟩
    obtain rfl := isConsumedPayout_state hpayout
    obtain rfl := isConsumedFraudSpend_state hfraud
    exact ⟨rfl, hpayout, hfraud⟩
  · rintro ⟨rfl, hpayout, hfraud⟩
    exact ⟨false, c', hpayout, (), c', ⟨rfl, rfl⟩, false, c', hfraud, rfl, rfl⟩

theorem consumeFraudSpend_eq_ok :
    consumeFraudSpend sha256 txid c = .ok () c' ↔ txid.isZero = false ∧ c.Unused sha256 txid ∧
      c' = { c with consumedFraudSpends := txid :: c.consumedFraudSpends } := by
  simp only [consumeFraudSpend, unit_bind_eq_ok, checkUnused_eq_ok]
  simp [and_assoc, eq_comm (a := c')]

theorem markAuthorizedReservePayout_eq_ok {paidSats : Nat} {paidSpk : Bytes} :
    markAuthorizedReservePayout sha256 id txid paidSats paidSpk c = .ok () c' ↔
      txid.isZero = false ∧ c.Unused sha256 txid ∧
      ∃ r, c.requests.lookup id = some r ∧
        (r.status.closed = false ∧ paidSats = r.amountSats ∧ paidSpk = r.destSpk) ∧
        c.Releasable id r.amountSats ∧
        c' = { c.close id { r with status := .fulfilled, fulfilledTxid := txid } with
          consumedPayouts := txid :: c.consumedPayouts } := by
  simp only [markAuthorizedReservePayout, unit_bind_eq_ok, checkUnused_eq_ok, markFulfilled_eq_ok]
  simp [and_assoc, Covenant.close, eq_comm (a := c')]

def payoutCorrect (P : Profile) (r : RedeemRequest) (proof : PayoutProof) (custodySpk : Bytes) :
    Option Bool :=
  if P.redeemPayoutBindingRequired then
    some (payoutCanonical r custodySpk proof.provenInputSats proof.outputs)
  else (paidTo r.destSpk proof.outputs).map fun paid => decide (paid = r.amountSats)

/-- What a proven payout must say of the request. -/
def payoutBound (P : Profile) (r : RedeemRequest) (proof : PayoutProof) (custodySpk : Bytes) : Prop :=
  (if P.redeemPayoutBindingRequired then
      proof.requestCommitment.isZero = false ∧ proof.payoutBtcHeight ≠ uint64Max ∧
        custodySpk ≠ [] ∧ proof.provenInputSats ≠ 0 ∧ proof.requestCommitment = r.requestCommitment
    else proof.requestCommitment.isZero ∨ proof.requestCommitment = r.requestCommitment) ∧
    r.btcObservedHeight < proof.payoutBtcHeight

/-- The verdict on a proven payout: none on a correct one. -/
def payoutVerdict (r : RedeemRequest) (correct : Bool) : Option SlashVerdict :=
  if correct then none
  else some { slash := true, reason := .wrongPayout, compensateSats := r.amountSats,
              compensateTo := r.veldRecipient, slashSats := r.amountSats }

def RedeemRequest.paidBy (r : RedeemRequest) (txid : Hash256) (correct : Bool) : RedeemRequest :=
  { r with status := if correct then .fulfilled else .defaulted, fulfilledTxid := txid }

variable {verdict : Option SlashVerdict}

theorem closeByPayout_eq_ok {r : RedeemRequest} {correct : Bool}
    (hr : c.requests.lookup r.requestId = some r) (hopen : r.status.closed = false) :
    closeByPayout r txid correct c = .ok verdict c' ↔ c.Releasable r.requestId r.amountSats ∧
      verdict = payoutVerdict r correct ∧
      c' = { c.close r.requestId (r.paidBy txid correct) with
        consumedPayouts := txid :: c.consumedPayouts } := by
  rw [closeByPayout, modify_bind_eq_ok]
  cases correct with
  | true =>
    rw [if_pos rfl, unit_bind_eq_ok]
    simp only [markFulfilled_eq_ok, pure_eq_ok]
    constructor
    · rintro ⟨m, ⟨r', hr', -, hrelease, rfl⟩, rfl, rfl⟩
      obtain rfl : r = r' := Option.some.inj (hr.symm.trans hr')
      exact ⟨hrelease, rfl, rfl⟩
    · rintro ⟨hrelease, rfl, rfl⟩
      exact ⟨_, ⟨r, hr, ⟨hopen, rfl, rfl⟩, hrelease, rfl⟩, rfl, rfl⟩
  | false =>
    rw [if_neg (by decide)]
    simp only [defaultByPayout, bind_assoc, pure_bind, unit_bind_eq_ok, releaseRequestLock_eq_ok,
      modify_eq_ok, pure_eq_ok]
    constructor
    · rintro ⟨m, ⟨hrelease, rfl⟩, m', rfl, rfl, rfl⟩
      exact ⟨hrelease, rfl, rfl⟩
    · rintro ⟨hrelease, rfl, rfl⟩
      exact ⟨_, ⟨hrelease, rfl⟩, _, rfl, rfl, rfl⟩

/-- Every row stands under its own id. -/
def Keyed (t : Table Hash256 RedeemRequest) : Prop :=
  ∀ id r, t.lookup id = some r → r.requestId = id

theorem resolveProvenPayout_eq_ok {proof : PayoutProof} {custodySpk : Bytes}
    (hkeyed : Keyed c.requests) :
    resolveProvenPayout P sha256 proof custodySpk c = .ok verdict c' ↔
      ∃ r correct, c.requests.lookup proof.requestId = some r ∧ r.status.closed = false ∧
        payoutBound P r proof custodySpk ∧ c.Unused sha256 proof.payoutTxid ∧
        payoutCorrect P r proof custodySpk = some correct ∧
        c.Releasable proof.requestId r.amountSats ∧ verdict = payoutVerdict r correct ∧
        c' = { c.close proof.requestId (r.paidBy proof.payoutTxid correct) with
          consumedPayouts := proof.payoutTxid :: c.consumedPayouts } := by
  simp only [resolveProvenPayout, get_bind_eq_ok, require_bind_eq_ok, check_bind_eq_ok,
    bind_eq_ok (x := isConsumedFraudSpend _ _), bind_eq_ok (x := isConsumedPayout _ _), ite_eq_ok]
  constructor
  · rintro ⟨r, hr, hopen, hbound, hheight, _, m₁, hfraud, rfl, _, m₂, hused, rfl, h⟩
    obtain rfl := (isConsumedFraudSpend_state hfraud).symm
    obtain rfl := (isConsumedPayout_state hused).symm
    have hid := hkeyed _ _ hr
    have hr' : c.requests.lookup r.requestId = some r := by rw [hid, hr]
    have hbound := And.intro hbound hheight
    rcases h with ⟨hbinding, h⟩ | ⟨hbinding, paid, hpaid, h⟩
    · obtain ⟨hrelease, rfl, rfl⟩ := (closeByPayout_eq_ok hr' hopen).mp h
      rw [hid] at hrelease ⊢
      exact ⟨r, _, hr, hopen, hbound, ⟨hused, hfraud⟩, if_pos hbinding, hrelease, rfl, rfl⟩
    · obtain ⟨hrelease, rfl, rfl⟩ := (closeByPayout_eq_ok hr' hopen).mp h
      rw [hid] at hrelease ⊢
      refine ⟨r, _, hr, hopen, hbound, ⟨hused, hfraud⟩, ?_, hrelease, rfl, rfl⟩
      rw [payoutCorrect, if_neg hbinding, hpaid]
      rfl
  · rintro ⟨r, correct, hr, hopen, ⟨hbound, hheight⟩, ⟨hused, hfraud⟩, hcorrect, hrelease, rfl, rfl⟩
    have hid := hkeyed _ _ hr
    have hr' : c.requests.lookup r.requestId = some r := by rw [hid, hr]
    refine ⟨r, hr, hopen, hbound, hheight, false, c, hfraud, rfl, false, c, hused, rfl, ?_⟩
    rw [← hid] at hrelease ⊢
    unfold payoutCorrect at hcorrect
    split at hcorrect
    · rename_i hbinding
      obtain rfl := Option.some.inj hcorrect
      exact .inl ⟨hbinding, (closeByPayout_eq_ok hr' hopen).mpr ⟨hrelease, rfl, rfl⟩⟩
    · rename_i hbinding
      obtain ⟨paid, hpaid, rfl⟩ := Option.map_eq_some_iff.mp hcorrect
      exact .inr ⟨hbinding, paid, hpaid, (closeByPayout_eq_ok hr' hopen).mpr ⟨hrelease, rfl, rfl⟩⟩

def Covenant.admitBacked (c : Covenant A) (r : RedeemRequest) : Covenant A :=
  { c with
    requests := c.requests.insert r.requestId r
    reserveBackedRequests := r.requestId :: c.reserveBackedRequests }

def Covenant.lockPlan (c : Covenant A) (amount : Nat) : List (Bytes × Nat) × Nat :=
  buildLockPlan c.signers (orderedSigners c.signers) amount

def Covenant.admitBonded (c : Covenant A) (r : RedeemRequest) : Covenant A :=
  { c with
    requests := c.requests.insert r.requestId r
    signers := applyLockPlan c.signers (c.lockPlan r.amountSats).1 }

def RedeemRequest.committed (sha256 : Bytes → Hash256) (r : RedeemRequest) : RedeemRequest :=
  { r with requestCommitment := Btcveld.requestCommitment sha256 r }

theorem addRequest_eq_ok {r : RedeemRequest} {reserveBacked : Bool} :
    addRequest sha256 r reserveBacked c = .ok () c' ↔ admissible sha256 r ∧
      (c.requests.lookup r.requestId = some (r.committed sha256) ∧
          (r.requestId ∈ c.reserveBackedRequests ↔ reserveBacked) ∧ c' = c ∨
        c.requests.lookup r.requestId = none ∧ archived sha256 1 r.requestId c = .ok false c ∧
          (reserveBacked ∧ r.requestId ∉ c.reserveBackedRequests ∧
              c' = c.admitBacked (r.committed sha256) ∨
            reserveBacked = false ∧ (c.lockPlan r.amountSats).2 = 0 ∧
              c' = c.admitBonded (r.committed sha256))) := by
  simp only [addRequest, check_bind_eq_ok, get_bind_eq_ok]
  refine and_congr_right fun _ => ?_
  cases c.requests.lookup r.requestId with
  | some existing => simp [RedeemRequest.committed, and_assoc, eq_comm (a := c')]
  | none =>
    simp only [bind_eq_ok (x := archived _ _ _), check_bind_eq_ok, insertRequest, get_bind_eq_ok,
      ite_eq_ok, set_eq_ok]
    constructor
    · rintro ⟨_, m, harchived, rfl, h⟩
      obtain rfl := (archived_eq_ok.mp harchived).1
      refine .inr ⟨trivial, harchived, ?_⟩
      rcases h with ⟨hbacked, hnew, rfl⟩ | ⟨hbonded, hleft, rfl⟩
      · exact .inl ⟨hbacked, hnew, rfl⟩
      · exact .inr ⟨Bool.eq_false_iff.mpr hbonded, hleft, rfl⟩
    · rintro (⟨hno, -⟩ | ⟨-, harchived, h⟩)
      · cases hno
      · refine ⟨false, c, harchived, rfl, ?_⟩
        rcases h with ⟨hbacked, hnew, rfl⟩ | ⟨hbonded, hleft, rfl⟩
        · exact .inl ⟨hbacked, hnew, rfl⟩
        · exact .inr ⟨Bool.eq_false_iff.mp hbonded, hleft, rfl⟩

/-- The bond of a signer, empty for a new one. -/
def Covenant.bondOf (c : Covenant A) (addr : Bytes) : SignerBond := (c.signers.lookup addr).getD {}

def SignerBond.raised (s : SignerBond) (addr : Bytes) (bondSats : Nat) : SignerBond :=
  { s with veldAddr := addr, bondedSats := s.bondedSats + bondSats }

theorem register_eq_ok {addr : Bytes} {bondSats : Nat} :
    register addr bondSats c = .ok () c' ↔
      (c.stateMigrationActive = false ∧ addr ≠ [] ∧ bondSats ≠ 0) ∧
      (c.bondOf addr).bondedSats ≤ uint64Max - bondSats ∧
      c' = { c with signers := c.signers.insert addr ((c.bondOf addr).raised addr bondSats) } := by
  simp only [register, get_bind_eq_ok, check_bind_eq_ok, set_eq_ok, eq_comm (a := c')]
  rfl

theorem activate_eq_ok {addr : Bytes} :
    activate addr c = .ok () c' ↔ c.stateMigrationActive = false ∧
      ∃ s, c.signers.lookup addr = some s ∧ s.bondedSats ≠ 0 ∧
        c' = { c with signers := c.signers.insert addr { s with active := true } } := by
  simp only [activate, get_bind_eq_ok, check_bind_eq_ok, require_bind_eq_ok, set_eq_ok,
    eq_comm (a := c')]

/-! ## Blocks -/

def migrationRows (sha256 : Bytes → Hash256) (c : Covenant A) : List (Hash256 × Bytes) :=
  signerRows sha256 c ++ [insuranceRow sha256 c] ++ spendRows sha256 2 c.consumedPayouts ++
    spendRows sha256 3 c.consumedFraudSpends ++ closedRequestRows sha256 c

def blockRows (sha256 : Bytes → Hash256) (c : Covenant A) : List (Hash256 × Bytes) :=
  closedRequestRows sha256 c ++ spendRows sha256 2 c.consumedPayouts ++
    spendRows sha256 3 c.consumedFraudSpends

theorem beginBlock_eq_ok {height : Nat} (h : beginBlock sha256 P height c = .ok () c') :
    (securityStateMigrationActive P height = c.stateMigrationActive ∧ c' = c) ∨
      securityStateMigrationActive P height ∧ c.stateMigrationActive = false ∧
        ∃ root, archiveRows c.archiveRoot (migrationRows sha256 c) = some root ∧
          c' = { ({ c with signers := deactivate c.signers } : Covenant A).retire root with
            stateMigrationActive := true
            insuranceFundSats := 0 } := by
  simp only [beginBlock, bind_eq_ok, get_eq_ok] at h
  obtain ⟨_, _, ⟨rfl, rfl⟩, h⟩ := h
  split at h
  · rename_i hbefore
    obtain ⟨hold, rfl⟩ := check_eq_ok.mp h
    exact .inl ⟨by rw [hbefore, hold], rfl⟩
  · rename_i hafter
    have hafter := Bool.not_eq_false _ ▸ hafter
    simp only [bind_eq_ok, check_eq_ok] at h
    obtain ⟨⟨⟩, _, ⟨-, rfl⟩, h⟩ := h
    split at h
    · rename_i hactive
      exact .inl ⟨by rw [hafter, hactive], (pure_eq_ok.mp h).2.symm⟩
    · rename_i hold
      simp only [bind_eq_ok, require_eq_ok, set_eq_ok] at h
      obtain ⟨root, _, ⟨hroot, rfl⟩, rfl⟩ := h
      exact .inr ⟨hafter, Bool.eq_false_iff.mpr hold, root, hroot, rfl⟩

theorem finishBlock_eq_ok (h : finishBlock sha256 c = .ok () c') :
    c.stateMigrationActive = false ∧ c' = c ∨ c.stateMigrationActive ∧
      ∃ root, archiveRows c.archiveRoot (blockRows sha256 c) = some root ∧ c' = c.retire root := by
  simp only [finishBlock, bind_eq_ok, get_eq_ok] at h
  obtain ⟨_, _, ⟨rfl, rfl⟩, h⟩ := h
  split at h
  · rename_i hold
    exact .inl ⟨hold, (pure_eq_ok.mp h).2.symm⟩
  · rename_i hactive
    simp only [bind_eq_ok, require_eq_ok, set_eq_ok] at h
    obtain ⟨root, _, ⟨hroot, rfl⟩, rfl⟩ := h
    exact .inr ⟨Bool.not_eq_false _ ▸ hactive, root, hroot, rfl⟩

end

end Veld.Btcveld
