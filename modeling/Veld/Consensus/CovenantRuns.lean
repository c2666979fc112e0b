import Veld.Consensus.CovenantCalls
import Veld.Consensus.SignerLocks

/-!
# Runs of the covenant and its archive

A run is a sequence of accepted calls: a refused one leaves no trace, because its caller restores the state.
-/

namespace Veld.Btcveld

open Wire hiding bind_eq_ok
open Program Btcspv List Table

/-! ## Runs -/

inductive Call where
  | register (addr : Bytes) (bondSats : Nat)
  | activate (addr : Bytes)
  | addRequest (r : RedeemRequest) (reserveBacked : Bool)
  | setStatus (id : Hash256) (st : ReqStatus)
  | markFulfilled (id payoutTxid : Hash256) (paidSats : Nat) (paidSpk : Bytes)
  | markAuthorizedReservePayout (id payoutTxid : Hash256) (paidSats : Nat) (paidSpk : Bytes)
  | resolveProvenPayout (proof : PayoutProof) (custodySpk : Bytes)
  | consumeFraudSpend (spendTxid : Hash256)
  | applySlash (v : SlashVerdict)
  | beginBlock (height : Nat)
  | finishBlock

/-- The calls at the two ends of a block. -/
def Call.isBlock : Call → Bool
  | .beginBlock _ | .finishBlock => true
  | _ => false

def Call.consumes : Call → Option Hash256
  | .markAuthorizedReservePayout _ txid _ _ => some txid
  | .resolveProvenPayout proof _ => some proof.payoutTxid
  | .consumeFraudSpend txid => some txid
  | _ => none

section
variable {A : RedeemArchive}

/-- A call that returns nothing. -/
def silently (x : CovenantM A Unit) : CovenantM A (Option SlashVerdict) := do
  x
  return none

def Call.perform (P : Profile) (sha256 : Bytes → Hash256) :
    Call → CovenantM A (Option SlashVerdict)
  | .register addr bondSats => silently (Btcveld.register addr bondSats)
  | .activate addr => silently (Btcveld.activate addr)
  | .addRequest r reserveBacked => silently (Btcveld.addRequest sha256 r reserveBacked)
  | .setStatus id st => silently (Btcveld.setStatus id st)
  | .markFulfilled id txid sats spk => silently (Btcveld.markFulfilled id txid sats spk)
  | .markAuthorizedReservePayout id txid sats spk =>
    silently (Btcveld.markAuthorizedReservePayout sha256 id txid sats spk)
  | .resolveProvenPayout proof custodySpk =>
    Btcveld.resolveProvenPayout P sha256 proof custodySpk
  | .consumeFraudSpend txid => silently (Btcveld.consumeFraudSpend sha256 txid)
  | .applySlash v => silently (modify fun c => c.applySlash v)
  | .beginBlock height => silently (Btcveld.beginBlock sha256 P height)
  | .finishBlock => silently (Btcveld.finishBlock sha256)

/-- Accepted calls with their results. -/
inductive Run (step : Call → CovenantM A (Option SlashVerdict)) :
    Covenant A → List (Call × Option SlashVerdict) → Covenant A → Prop where
  | nil (c : Covenant A) : Run step c [] c
  | cons {c c₁ c₂ : Covenant A} {call : Call} {v : Option SlashVerdict}
      {trace : List (Call × Option SlashVerdict)} (h : step call c = .ok v c₁)
      (hrest : Run step c₁ trace c₂) : Run step c ((call, v) :: trace) c₂

theorem silently_eq_ok {x : CovenantM A Unit} {c c' : Covenant A} {v : Option SlashVerdict} :
    silently x c = .ok v c' ↔ x c = .ok () c' ∧ v = none := by
  simp only [silently, bind_eq_ok, pure_eq_ok]
  constructor
  · rintro ⟨⟨⟩, _, h, rfl, rfl⟩
    exact ⟨h, rfl⟩
  · rintro ⟨h, rfl⟩
    exact ⟨(), c', h, rfl, rfl⟩

end

/-! ## The covenant that keeps everything -/

/-- An archive that is always there and always empty. -/
def forgetful : RedeemArchive where
  Root := Unit
  emptyRoot := ()
  available := true
  get _ _ := some none
  insert _ _ _ := some ()

def dropUnlocked (signers : Table Bytes SignerBond) : Table Bytes SignerBond :=
  Table.keep (fun _ s => s.lockedSats != 0) signers

/-- `BeginBlock` without the archive: the signers resign, every record stays. -/
def beginKept (P : Profile) (height : Nat) : CovenantM forgetful Unit := do
  let c ← get
  if securityStateMigrationActive P height = false then
    check (c.stateMigrationActive = false) Stop.thrown
  else if c.stateMigrationActive then pure ()
  else
    set { c with
      signers := dropUnlocked (deactivate c.signers)
      stateMigrationActive := true
      insuranceFundSats := 0 }

/-- `FinishBlock` without the archive. -/
def finishKept : CovenantM forgetful Unit := do
  let c ← get
  if c.stateMigrationActive = false then pure ()
  else set { c with signers := dropUnlocked c.signers }

section
variable {P : Profile} {height : Nat} {k : Covenant forgetful}

theorem beginKept_idle (h : securityStateMigrationActive P height = k.stateMigrationActive) :
    beginKept P height k = .ok () k := by
  refine bind_eq_ok.mpr ⟨k, k, get_eq_ok.mpr ⟨rfl, rfl⟩, ?_⟩
  cases hactive : k.stateMigrationActive with
  | false | true => simp [h, hactive]

theorem beginKept_migrates (hafter : securityStateMigrationActive P height)
    (hbefore : k.stateMigrationActive = false) :
    beginKept P height k = .ok () { k with
      signers := dropUnlocked (deactivate k.signers)
      stateMigrationActive := true
      insuranceFundSats := 0 } := by
  refine bind_eq_ok.mpr ⟨k, k, get_eq_ok.mpr ⟨rfl, rfl⟩, ?_⟩
  simp [hafter, hbefore]

theorem beginKept_refuses (hbefore : securityStateMigrationActive P height = false)
    (hactive : k.stateMigrationActive) {k' : Covenant forgetful} :
    beginKept P height k ≠ .ok () k' := by
  intro h
  obtain ⟨_, _, hget, hrest⟩ := bind_eq_ok.mp h
  obtain ⟨rfl, rfl⟩ := get_eq_ok.mp hget
  simp [hbefore, hactive] at hrest

theorem finishKept_idle (hbefore : k.stateMigrationActive = false) : finishKept k = .ok () k := by
  refine bind_eq_ok.mpr ⟨k, k, get_eq_ok.mpr ⟨rfl, rfl⟩, ?_⟩
  simp [hbefore]

theorem finishKept_active (hactive : k.stateMigrationActive) :
    finishKept k = .ok () { k with signers := dropUnlocked k.signers } := by
  refine bind_eq_ok.mpr ⟨k, k, get_eq_ok.mpr ⟨rfl, rfl⟩, ?_⟩
  simp [hactive]

end

/-- The calls of a covenant that never archives. -/
def Call.performKept (P : Profile) (sha256 : Bytes → Hash256) :
    Call → CovenantM forgetful (Option SlashVerdict)
  | .beginBlock height => silently (beginKept P height)
  | .finishBlock => silently finishKept
  | call => call.perform P sha256

theorem Call.performKept_eq {P : Profile} {sha256 : Bytes → Hash256} {call : Call}
    (hblock : call.isBlock = false) : call.performKept P sha256 = call.perform P sha256 := by
  cases call with
  | beginBlock height | finishBlock => cases hblock
  | _ => rfl

/-! ## Identities -/

structure RedeemRequest.Typed (r : RedeemRequest) : Prop where
  amount : r.amountSats ≤ uint64Max
  dest : r.destSpk.length ≤ uint32Max
  height : r.requestHeight ≤ uint64Max
  deadline : r.deadlineHeight ≤ uint64Max
  recipient : r.veldRecipient.length ≤ uint32Max
  observed : r.btcObservedHeight ≤ uint64Max

/-- A call names its records within a set of archive identities, each a kind and its bytes. -/
def Call.Named (K : Set (Nat × Bytes)) : Call → Prop
  | .register addr _ => (4, addr) ∈ K
  | .addRequest r _ => (1, r.requestId.bytes) ∈ K ∧ r.Typed
  | .markAuthorizedReservePayout _ txid _ _ => (2, txid.bytes) ∈ K ∧ (3, txid.bytes) ∈ K
  | .resolveProvenPayout proof _ => (2, proof.payoutTxid.bytes) ∈ K ∧ (3, proof.payoutTxid.bytes) ∈ K
  | .consumeFraudSpend txid => (2, txid.bytes) ∈ K ∧ (3, txid.bytes) ∈ K
  | .beginBlock _ => (5, ascii "legacy-insurance") ∈ K
  | _ => True

structure Covenant.WellFormed {A : RedeemArchive} (K : Set (Nat × Bytes)) (c : Covenant A) : Prop where
  keyed : Keyed c.requests
  requests : ∀ id r, c.requests.lookup id = some r → (1, id.bytes) ∈ K ∧ r.Typed
  backed : ∀ id ∈ c.reserveBackedRequests,
    ∃ r, c.requests.lookup id = some r ∧ r.status.closed = false
  payouts : ∀ txid ∈ c.consumedPayouts, (2, txid.bytes) ∈ K
  frauds : ∀ txid ∈ c.consumedFraudSpends, (3, txid.bytes) ∈ K
  signers : ∀ addr s, c.signers.lookup addr = some s → (4, addr) ∈ K

section
variable {A : RedeemArchive} {P : Profile} {sha256 : Bytes → Hash256} {K : Set (Nat × Bytes)}
  {c c' : Covenant A} {id : Hash256} {r r' : RedeemRequest}

namespace Covenant.WellFormed

variable {signers : Table Bytes SignerBond}

section
variable (h : c.WellFormed K)
include h

theorem withSigners {insurance : Nat} {active : Bool}
    (hnamed : ∀ addr s, signers.lookup addr = some s → (4, addr) ∈ K) :
    ({ c with signers, insuranceFundSats := insurance, stateMigrationActive := active } :
      Covenant A).WellFormed K :=
  ⟨h.keyed, h.requests, h.backed, h.payouts, h.frauds, hnamed⟩

theorem sameSigners (hsame : SameSigners c.signers signers) :
    ∀ addr s, signers.lookup addr = some s → (4, addr) ∈ K := by
  intro addr s hs
  have hsome := hsame addr
  rw [hs] at hsome
  obtain ⟨s', hs'⟩ := Option.isSome_iff_exists.mp hsome.symm
  exact h.signers addr s' hs'

theorem insertRequest (htyped : r'.Typed) (hid : r'.requestId = id) (hnamed : (1, id.bytes) ∈ K) :
    Keyed (c.requests.insert id r') ∧
      ∀ other r, (c.requests.insert id r').lookup other = some r → (1, other.bytes) ∈ K ∧ r.Typed :=
  ⟨forall_insert h.keyed hid, forall_insert h.requests ⟨hnamed, htyped⟩⟩

theorem close (hr : c.requests.lookup id = some r) (htyped : r'.Typed) (hid : r'.requestId = id) :
    (c.close id r').WellFormed K := by
  obtain ⟨hkeyed, hrequests⟩ := h.insertRequest htyped hid (h.requests id r hr).1
  refine ⟨hkeyed, hrequests, fun other hother => ?_, h.payouts, h.frauds, h.sameSigners ?_⟩
  · obtain ⟨hmem, hne⟩ := mem_filter.mp hother
    obtain ⟨r₀, hr₀, hopen⟩ := h.backed other hmem
    refine ⟨r₀, ?_, hopen⟩
    simp only [Covenant.close]
    rw [lookup_insert_ite, if_neg (of_decide_eq_true hne), hr₀]
  · simp only [Covenant.close, Covenant.released]
    split
    · exact fun _ => rfl
    · exact releaseFrom_signers _ _

theorem restatus (hr : c.requests.lookup id = some r) {st : ReqStatus} (hopen : st.closed = false) :
    ({ c with requests := c.requests.insert id { r with status := st } } : Covenant A).WellFormed
      K := by
  obtain ⟨hnamed, htyped⟩ := h.requests id r hr
  have htyped' : RedeemRequest.Typed { r with status := st } :=
    ⟨htyped.1, htyped.2, htyped.3, htyped.4, htyped.5, htyped.6⟩
  obtain ⟨hkeyed, hrequests⟩ := h.insertRequest htyped' (h.keyed id r hr) hnamed
  refine ⟨hkeyed, hrequests, fun other hother => ?_, h.payouts, h.frauds, h.signers⟩
  dsimp only
  rw [lookup_insert_ite]
  split
  · exact ⟨_, rfl, hopen⟩
  · exact h.backed other hother

section
variable (htyped : r.Typed) (hnamed : (1, r.requestId.bytes) ∈ K)
  (hfresh : c.requests.lookup r.requestId = none)
include htyped hnamed hfresh

theorem addOpen (hsame : SameSigners c.signers signers) :
    ({ c with requests := c.requests.insert r.requestId r, signers } : Covenant A).WellFormed K := by
  obtain ⟨hkeyed, hrequests⟩ := h.insertRequest htyped rfl hnamed
  refine ⟨hkeyed, hrequests, fun other hother => ?_, h.payouts, h.frauds, h.sameSigners hsame⟩
  obtain ⟨r₀, hr₀, hopen⟩ := h.backed other hother
  refine ⟨r₀, ?_, hopen⟩
  dsimp only
  rw [lookup_insert_ite, if_neg, hr₀]
  rintro rfl
  rw [hfresh] at hr₀
  cases hr₀

theorem admitBacked (hopen : r.status.closed = false) : (c.admitBacked r).WellFormed K := by
  have hadmitted := h.addOpen htyped hnamed hfresh (fun _ => rfl)
  have hbacked := forall_mem_cons.mpr ⟨⟨r, AList.lookup_insert _, hopen⟩, hadmitted.backed⟩
  exact ⟨hadmitted.keyed, hadmitted.requests, hbacked, h.payouts, h.frauds, h.signers⟩

end

theorem consume {txid : Hash256} (hnamed : (2, txid.bytes) ∈ K) :
    ({ c with consumedPayouts := txid :: c.consumedPayouts } : Covenant A).WellFormed K :=
  ⟨h.keyed, h.requests, h.backed, forall_mem_cons.mpr ⟨hnamed, h.payouts⟩, h.frauds, h.signers⟩

theorem consumeFraud {txid : Hash256} (hnamed : (3, txid.bytes) ∈ K) :
    ({ c with consumedFraudSpends := txid :: c.consumedFraudSpends } : Covenant A).WellFormed K :=
  ⟨h.keyed, h.requests, h.backed, h.payouts, forall_mem_cons.mpr ⟨hnamed, h.frauds⟩, h.signers⟩

theorem retire (root : A.Root) : (c.retire root).WellFormed K where
  keyed id r hr := h.keyed id r (lookup_keep.mp hr).1
  requests id r hr := h.requests id r (lookup_keep.mp hr).1
  backed id hid := by
    obtain ⟨r, hr, hopen⟩ := h.backed id (mem_filter.mp hid).1
    exact ⟨r, lookup_keep.mpr ⟨hr, by rw [hopen]; rfl⟩, hopen⟩
  payouts _ hno := absurd hno not_mem_nil
  frauds _ hno := absurd hno not_mem_nil
  signers addr s hs := h.signers addr s (lookup_keep.mp hs).1

end

end Covenant.WellFormed

theorem RedeemRequest.Typed.closing (h : r.Typed) (st : ReqStatus) (txid : Hash256) :
    RedeemRequest.Typed { r with status := st, fulfilledTxid := txid } :=
  ⟨h.1, h.2, h.3, h.4, h.5, h.6⟩

theorem RedeemRequest.Typed.committed (h : r.Typed) : (r.committed sha256).Typed :=
  ⟨h.1, h.2, h.3, h.4, h.5, h.6⟩

/-! ## What a call does -/

/-- What an accepted call does to the covenant, blocks apart. -/
inductive Effect (sha256 : Bytes → Hash256) (c : Covenant A) : Call → Covenant A → Prop where
  | idle {call : Call} (hfree : call.consumes = none) : Effect sha256 c call c
  | register {addr : Bytes} {bondSats : Nat} :
      Effect sha256 c (.register addr bondSats)
        { c with signers := c.signers.insert addr ((c.bondOf addr).raised addr bondSats) }
  | bonds {call : Call} {signers : Table Bytes SignerBond} {insurance : Nat}
      (hfree : call.consumes = none) (hsame : SameLocks c.signers signers) :
      Effect sha256 c call { c with signers, insuranceFundSats := insurance }
  | admitBacked {r : RedeemRequest} (hfresh : c.requests.lookup r.requestId = none)
      (hst : r.status = .lockedIn) :
      Effect sha256 c (.addRequest r true) (c.admitBacked (r.committed sha256))
  | admitBonded {r : RedeemRequest} (hfresh : c.requests.lookup r.requestId = none)
      (hst : r.status = .lockedIn) (hleft : (c.lockPlan r.amountSats).2 = 0) :
      Effect sha256 c (.addRequest r false) (c.admitBonded (r.committed sha256))
  | restatus {id : Hash256} {r : RedeemRequest} {st : ReqStatus}
      (hr : c.requests.lookup id = some r) (hopen : r.status.closed = false)
      (hst : st.closed = false) :
      Effect sha256 c (.setStatus id st)
        { c with requests := c.requests.insert id { r with status := st } }
  | close {call : Call} {id txid : Hash256} {r : RedeemRequest} {st : ReqStatus}
      (hfree : call.consumes = none) (hr : c.requests.lookup id = some r)
      (hopen : r.status.closed = false) (hst : st.closed)
      (hrelease : c.Releasable id r.amountSats) :
      Effect sha256 c call (c.close id { r with status := st, fulfilledTxid := txid })
  | pay {call : Call} {id txid : Hash256} {r : RedeemRequest} {st : ReqStatus}
      (huses : call.consumes = some txid) (hnew : c.Unused sha256 txid)
      (hr : c.requests.lookup id = some r) (hopen : r.status.closed = false)
      (hst : st.closed) (hrelease : c.Releasable id r.amountSats) :
      Effect sha256 c call { c.close id { r with status := st, fulfilledTxid := txid } with
        consumedPayouts := txid :: c.consumedPayouts }
  | fraud {txid : Hash256} (hnew : c.Unused sha256 txid) :
      Effect sha256 c (.consumeFraudSpend txid)
        { c with consumedFraudSpends := txid :: c.consumedFraudSpends }

variable {v : Option SlashVerdict} {call : Call}

theorem effect_of_perform (hkeyed : Keyed c.requests) (hblock : call.isBlock = false)
    (hcall : call.perform P sha256 c = .ok v c') : Effect sha256 c call c' := by
  cases call with
  | register addr bondSats =>
    obtain ⟨hdone, -⟩ := silently_eq_ok.mp hcall
    obtain ⟨-, -, rfl⟩ := register_eq_ok.mp hdone
    exact .register
  | activate addr =>
    obtain ⟨hdone, -⟩ := silently_eq_ok.mp hcall
    obtain ⟨-, s, hs, -, rfl⟩ := activate_eq_ok.mp hdone
    exact .bonds rfl (sameLocks_insert hs rfl)
  | addRequest r reserveBacked =>
    obtain ⟨hdone, -⟩ := silently_eq_ok.mp hcall
    obtain ⟨hadm, ⟨-, -, rfl⟩ | ⟨hfresh, -, ⟨rfl, -, rfl⟩ | ⟨rfl, hleft, rfl⟩⟩⟩ :=
      addRequest_eq_ok.mp hdone
    · exact .idle rfl
    · exact .admitBacked hfresh hadm.2.2.2.2.2.1
    · exact .admitBonded hfresh hadm.2.2.2.2.2.1 hleft
  | setStatus id st =>
    obtain ⟨hdone, -⟩ := silently_eq_ok.mp hcall
    obtain ⟨-, rfl⟩ | ⟨r, hr, -, hopen, hst, ⟨-, hrelease, rfl⟩ | ⟨hst', rfl⟩⟩ :=
      setStatus_eq_ok.mp hdone
    · exact .idle rfl
    · exact .close rfl hr hopen rfl hrelease
    · exact .restatus hr hopen (by cases st <;> simp_all [ReqStatus.closed])
  | markFulfilled id txid sats spk =>
    obtain ⟨hdone, -⟩ := silently_eq_ok.mp hcall
    obtain ⟨r, hr, hpaid, hrelease, rfl⟩ := markFulfilled_eq_ok.mp hdone
    exact .close rfl hr hpaid.1 rfl hrelease
  | markAuthorizedReservePayout id txid sats spk =>
    obtain ⟨hdone, -⟩ := silently_eq_ok.mp hcall
    obtain ⟨-, hnew, r, hr, hpaid, hrelease, rfl⟩ := markAuthorizedReservePayout_eq_ok.mp hdone
    exact .pay rfl hnew hr hpaid.1 rfl hrelease
  | resolveProvenPayout proof custodySpk =>
    obtain ⟨r, correct, hr, hopen, -, hnew, -, hrelease, -, rfl⟩ :=
      (resolveProvenPayout_eq_ok hkeyed).mp hcall
    exact .pay rfl hnew hr hopen (by cases correct <;> rfl) hrelease
  | consumeFraudSpend txid =>
    obtain ⟨hdone, -⟩ := silently_eq_ok.mp hcall
    obtain ⟨-, hnew, rfl⟩ := consumeFraudSpend_eq_ok.mp hdone
    exact .fraud hnew
  | applySlash v =>
    obtain ⟨hdone, -⟩ := silently_eq_ok.mp hcall
    obtain rfl := modify_eq_ok.mp hdone
    rw [applySlash_frame]
    exact .bonds rfl (applySlash_locks c v)
  | beginBlock height | finishBlock => cases hblock

theorem block_of_perform (hblock : call.isBlock) (hcall : call.perform P sha256 c = .ok v c') :
    c' = c ∨ ∃ signers root insurance, SameLocks c.signers signers ∧
      c' = { ({ c with signers } : Covenant A).retire root with
        stateMigrationActive := true, insuranceFundSats := insurance } := by
  cases call with
  | beginBlock height =>
    obtain ⟨hdone, -⟩ := silently_eq_ok.mp hcall
    obtain ⟨-, rfl⟩ | ⟨-, -, root, -, rfl⟩ := beginBlock_eq_ok hdone
    · exact .inl rfl
    · exact .inr ⟨_, root, 0, deactivate_locks c.signers, rfl⟩
  | finishBlock =>
    obtain ⟨hdone, -⟩ := silently_eq_ok.mp hcall
    obtain ⟨-, rfl⟩ | ⟨hactive, root, -, rfl⟩ := finishBlock_eq_ok hdone
    · exact .inl rfl
    · exact .inr ⟨c.signers, root, c.insuranceFundSats, .refl _, by rw [← hactive]; rfl⟩
  | _ => cases hblock

theorem Call.Named.uses {txid : Hash256} (h : call.Named K) (huses : call.consumes = some txid) :
    (2, txid.bytes) ∈ K ∧ (3, txid.bytes) ∈ K := by
  cases call <;> cases huses <;> exact h

theorem Effect.wellFormed (heffect : Effect sha256 c call c') (h : c.WellFormed K)
    (hnamed : call.Named K) : c'.WellFormed K := by
  cases heffect with
  | idle => exact h
  | register => exact h.withSigners (forall_insert h.signers hnamed)
  | bonds _ hsame => exact h.withSigners (h.sameSigners hsame.signers)
  | admitBacked hfresh hst =>
    exact h.admitBacked hnamed.2.committed hnamed.1 hfresh (congrArg ReqStatus.closed hst)
  | admitBonded hfresh =>
    exact h.addOpen hnamed.2.committed hnamed.1 hfresh
      (applyLockPlan_locks _ (buildLockPlan_known _ _)).1
  | restatus hr _ hst => exact h.restatus hr hst
  | @close _ id txid r st _ hr =>
    exact h.close hr ((h.requests id r hr).2.closing st txid) (h.keyed id r hr)
  | @pay _ id txid r st huses _ hr =>
    have hclosed := h.close hr ((h.requests id r hr).2.closing st txid) (h.keyed id r hr)
    exact hclosed.consume (hnamed.uses huses).1
  | fraud => exact h.consumeFraud (hnamed.uses rfl).2

theorem perform_wellFormed (h : c.WellFormed K) (hnamed : call.Named K)
    (hcall : call.perform P sha256 c = .ok v c') : c'.WellFormed K := by
  cases hblock : call.isBlock with
  | false => exact (effect_of_perform h.keyed hblock hcall).wellFormed h hnamed
  | true =>
    obtain rfl | ⟨signers, root, insurance, hsame, rfl⟩ := block_of_perform hblock hcall
    · exact h
    · have hbonds : ({ c with signers } : Covenant A).WellFormed K :=
        h.withSigners (h.sameSigners hsame.signers)
      exact (hbonds.retire root).withSigners (hbonds.retire root).signers

theorem block_of_performKept {k k' : Covenant forgetful} (hblock : call.isBlock)
    (hcall : call.performKept P sha256 k = .ok v k') :
    ∃ signers insurance active, (∀ addr s, signers.lookup addr = some s →
        (k.signers.lookup addr).isSome = true) ∧
      k' = { k with signers, insuranceFundSats := insurance, stateMigrationActive := active } := by
  cases call with
  | beginBlock height =>
    obtain ⟨hdone, -⟩ := silently_eq_ok.mp hcall
    by_cases hphase : securityStateMigrationActive P height = k.stateMigrationActive
    · rw [beginKept_idle hphase] at hdone
      cases hdone
      exact ⟨_, _, _, fun addr s hs => by rw [hs]; rfl, rfl⟩
    · cases hafter : securityStateMigrationActive P height with
      | false => exact absurd hdone (beginKept_refuses hafter (by simpa [hafter] using hphase))
      | true =>
        rw [beginKept_migrates hafter (by simpa [hafter] using hphase)] at hdone
        cases hdone
        refine ⟨_, _, _, fun addr s hs => ?_, rfl⟩
        rw [← (deactivate_locks k.signers).signers addr, (lookup_keep.mp hs).1]
        rfl
  | finishBlock =>
    obtain ⟨hdone, -⟩ := silently_eq_ok.mp hcall
    cases hactive : k.stateMigrationActive with
    | false =>
      rw [finishKept_idle hactive] at hdone
      cases hdone
      exact ⟨_, _, _, fun addr s hs => by rw [hs]; rfl, rfl⟩
    | true =>
      rw [finishKept_active hactive] at hdone
      cases hdone
      exact ⟨_, _, _, fun addr s hs => by rw [(lookup_keep.mp hs).1]; rfl, rfl⟩
  | _ => cases hblock

theorem performKept_wellFormed {k k' : Covenant forgetful} (h : k.WellFormed K)
    (hnamed : call.Named K) (hcall : call.performKept P sha256 k = .ok v k') : k'.WellFormed K := by
  cases hblock : call.isBlock with
  | false =>
    rw [Call.performKept_eq hblock] at hcall
    exact perform_wellFormed h hnamed hcall
  | true =>
    obtain ⟨signers, insurance, active, hsub, rfl⟩ := block_of_performKept hblock hcall
    refine h.withSigners fun addr s hs => ?_
    obtain ⟨s', hs'⟩ := Option.isSome_iff_exists.mp (hsub addr s hs)
    exact h.signers addr s' hs'

end

end Veld.Btcveld
