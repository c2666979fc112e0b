import Veld.Consensus.ArchiveMirror

/-!
# What the covenant keeps

Along every run of the covenant the locks on the signers' bonds add up to the amounts of the open requests that
hold a lock, so that a lock can always be released.
-/

namespace Veld.Btcveld

open Wire hiding bind_eq_ok
open Program Btcspv List Table

section
variable {A : RedeemArchive} {P : Profile} {sha256 : Bytes → Hash256} {K : Set (Nat × Bytes)}
  {c c' : Covenant A} {id : Hash256} {r r' : RedeemRequest}

/-! ## Locks and open requests -/

def RedeemRequest.locks (backed : List Hash256) (r : RedeemRequest) : Nat :=
  if r.status.closed ∨ r.requestId ∈ backed then 0 else r.amountSats

/-- The amounts of the open requests that hold a lock. -/
def Covenant.openLocks (c : Covenant A) : Nat :=
  Table.total (RedeemRequest.locks c.reserveBackedRequests) c.requests

/-- The locks are those of the open requests. -/
def Covenant.Balanced (c : Covenant A) : Prop := totalLocked c.signers = c.openLocks

variable {backed : List Hash256}

theorem locks_of_closed (h : r.status.closed) : r.locks backed = 0 :=
  if_pos (.inl h)

theorem locks_of_backed (h : r.requestId ∈ backed) : r.locks backed = 0 :=
  if_pos (.inr h)

theorem locks_of_open (h : r.status.closed = false) (hbacked : r.requestId ∉ backed) :
    r.locks backed = r.amountSats :=
  if_neg (by simp [h, hbacked])

theorem openLocks_congr {requests : Table Hash256 RedeemRequest} (hkeyed : Keyed requests)
    {backed' : List Hash256} (h : ∀ id r, requests.lookup id = some r → r.status.closed = false →
      (id ∈ backed ↔ id ∈ backed')) :
    Table.total (RedeemRequest.locks backed) requests =
      Table.total (RedeemRequest.locks backed') requests := by
  refine total_congr fun row hrow => ?_
  have hr := lookup_of_mem hrow
  unfold RedeemRequest.locks
  cases hclosed : row.2.status.closed with
  | true => simp
  | false => simp only [hkeyed _ _ hr, h _ _ hr hclosed]

theorem Covenant.Balanced.releasable (h : c.Balanced) (hkeyed : Keyed c.requests)
    (hr : c.requests.lookup id = some r) (hopen : r.status.closed = false) :
    c.Releasable id r.amountSats := by
  by_cases hbacked : id ∈ c.reserveBackedRequests
  · exact .inl hbacked
  · refine .inr ?_
    have hlocks : r.locks c.reserveBackedRequests = r.amountSats :=
      locks_of_open hopen (by rwa [hkeyed id r hr])
    change r.amountSats ≤ totalLocked c.signers
    rw [h, ← hlocks]
    have hsum := total_erase (f := RedeemRequest.locks c.reserveBackedRequests) id c.requests
    rw [hr] at hsum
    simp only [Option.map_some, Option.getD_some] at hsum
    unfold Covenant.openLocks
    omega

theorem totalLocked_released (hkeyed : Keyed c.requests) (hr : c.requests.lookup id = some r)
    (hopen : r.status.closed = false) (hrelease : c.Releasable id r.amountSats) :
    totalLocked (c.released id r.amountSats) + r.locks c.reserveBackedRequests =
      totalLocked c.signers := by
  unfold Covenant.released
  split
  · rename_i hbacked
    rw [locks_of_backed (by rwa [hkeyed id r hr]), add_zero]
  · rename_i hbacked
    rw [locks_of_open hopen (by rwa [hkeyed id r hr])]
    exact totalLocked_release (hrelease.resolve_left hbacked)

/-! ## One call -/

namespace Covenant.Balanced

section
variable (h : c.Balanced)
include h

theorem withSigners {signers : Table Bytes SignerBond} {insurance : Nat} {active : Bool}
    (hsame : totalLocked signers = totalLocked c.signers) :
    ({ c with signers, insuranceFundSats := insurance, stateMigrationActive := active } :
      Covenant A).Balanced :=
  hsame.trans h

theorem close (hwf : c.WellFormed K) (hr : c.requests.lookup id = some r)
    (hopen : r.status.closed = false) (hrelease : c.Releasable id r.amountSats) (htyped : r'.Typed)
    (hid : r'.requestId = id) (hclosed : r'.status.closed)
    (hamount : r'.amountSats = r.amountSats) : (c.close id r').Balanced := by
  obtain ⟨hkeyed, -⟩ := hwf.insertRequest htyped hid (hwf.requests id r hr).1
  have hothers : Table.total (RedeemRequest.locks (c.reserveBackedRequests.filter (· ≠ id)))
      (c.requests.insert id r') =
      Table.total (RedeemRequest.locks c.reserveBackedRequests) (c.requests.insert id r') := by
    refine openLocks_congr hkeyed fun other r₀ hr₀ hopen₀ => ?_
    obtain ⟨-, rfl⟩ | ⟨hne, -⟩ := lookup_insert_eq_some.mp hr₀
    · rw [hclosed] at hopen₀
      cases hopen₀
    · simp [mem_filter, hne]
  have hrow := total_insert_of_lookup (f := RedeemRequest.locks c.reserveBackedRequests)
    (v := r') hr
  rw [locks_of_closed hclosed] at hrow
  have hlocked := totalLocked_released hwf.keyed hr hopen hrelease
  change totalLocked (c.released id r'.amountSats) = _
  rw [hamount]
  refine Eq.trans ?_ hothers.symm
  have hbalance : totalLocked c.signers =
    Table.total (RedeemRequest.locks c.reserveBackedRequests) c.requests := h
  omega

theorem restatus (hr : c.requests.lookup id = some r) (hopen : r.status.closed = false)
    {st : ReqStatus} (hst : st.closed = false) :
    ({ c with requests := c.requests.insert id { r with status := st } } : Covenant A).Balanced := by
  have hrow := total_insert_of_lookup (f := RedeemRequest.locks c.reserveBackedRequests)
    (v := { r with status := st }) hr
  have hsame : RedeemRequest.locks c.reserveBackedRequests { r with status := st } =
      r.locks c.reserveBackedRequests := by
    simp only [RedeemRequest.locks, hopen, hst]
  rw [hsame] at hrow
  exact Eq.trans h (Nat.add_right_cancel hrow).symm

theorem admitBacked (hkeyed : Keyed c.requests) (hfresh : c.requests.lookup r.requestId = none) :
    (c.admitBacked r).Balanced := by
  change totalLocked c.signers = Table.total (RedeemRequest.locks
    (r.requestId :: c.reserveBackedRequests)) (c.requests.insert r.requestId r)
  rw [total_insert_of_fresh hfresh, locks_of_backed mem_cons_self, add_zero]
  refine Eq.trans h (openLocks_congr hkeyed fun other r₀ hr₀ _ => ?_)
  have hne : other ≠ r.requestId := by
    rintro rfl
    rw [hfresh] at hr₀
    cases hr₀
  simp [hne]

theorem admitBonded (hwf : c.WellFormed K) (hfresh : c.requests.lookup r.requestId = none)
    (hopen : r.status.closed = false) (hleft : (c.lockPlan r.amountSats).2 = 0) :
    (c.admitBonded r).Balanced := by
  have hunbacked : r.requestId ∉ c.reserveBackedRequests := fun hmem => by
    obtain ⟨r₀, hr₀, -⟩ := hwf.backed _ hmem
    rw [hfresh] at hr₀
    cases hr₀
  have hplan : ((c.lockPlan r.amountSats).1.map (·.2)).sum + (c.lockPlan r.amountSats).2 =
    r.amountSats := buildLockPlan_sum _ _
  have hlocked : totalLocked (applyLockPlan c.signers (c.lockPlan r.amountSats).1) =
      totalLocked c.signers + ((c.lockPlan r.amountSats).1.map (·.2)).sum :=
    (applyLockPlan_locks _ (buildLockPlan_known _ _)).2.1
  change totalLocked (applyLockPlan c.signers (c.lockPlan r.amountSats).1) =
    Table.total (RedeemRequest.locks c.reserveBackedRequests) (c.requests.insert r.requestId r)
  rw [total_insert_of_fresh hfresh, locks_of_open hopen hunbacked, hlocked]
  have hbalance : totalLocked c.signers =
    Table.total (RedeemRequest.locks c.reserveBackedRequests) c.requests := h
  omega

theorem retire (hwf : c.WellFormed K) (root : A.Root) : (c.retire root).Balanced := by
  have hsigners : totalLocked (Table.keep (fun _ s => s.lockedSats != 0) c.signers) =
      totalLocked c.signers :=
    total_keep fun row _ hgone => by simpa using hgone
  have hrequests (backed : List Hash256) :
      Table.total (RedeemRequest.locks backed)
        (Table.keep (fun _ r => !r.status.closed) c.requests) =
      Table.total (RedeemRequest.locks backed) c.requests :=
    total_keep fun row _ hgone => locks_of_closed (by simpa using hgone)
  unfold Covenant.Balanced Covenant.openLocks Covenant.retire
  dsimp only
  rw [hsigners, hrequests]
  refine Eq.trans h (openLocks_congr hwf.keyed fun id r hr hopen => ?_)
  simp [mem_filter, hr, hopen]

end

end Covenant.Balanced

theorem register_locks (c : Covenant A) (addr : Bytes) (bondSats : Nat) :
    totalLocked (c.signers.insert addr ((c.bondOf addr).raised addr bondSats)) =
        totalLocked c.signers ∧
      ∀ a, lockedOf (c.signers.insert addr ((c.bondOf addr).raised addr bondSats)) a =
        lockedOf c.signers a := by
  cases hs : c.signers.lookup addr with
  | some s =>
    have hsame : SameLocks c.signers
        (c.signers.insert addr ((c.bondOf addr).raised addr bondSats)) :=
      sameLocks_insert hs (by simp [Covenant.bondOf, hs, SignerBond.raised])
    exact ⟨hsame.total, hsame.each⟩
  | none =>
    have hzero : ((c.bondOf addr).raised addr bondSats).lockedSats = 0 := by
      simp [Covenant.bondOf, hs, SignerBond.raised]
    refine ⟨(total_insert_of_fresh hs).trans (by rw [hzero, add_zero]; rfl), fun a => ?_⟩
    rw [lockedOf_insert]
    split
    · rename_i heq
      rw [hzero, heq, lockedOf, hs]
      rfl
    · rfl

variable {call : Call}

theorem Effect.balanced (heffect : Effect sha256 c call c') (h : c.Balanced) (hwf : c.WellFormed K) :
    c'.Balanced := by
  cases heffect with
  | idle => exact h
  | @register addr bondSats => exact h.withSigners (register_locks c addr bondSats).1
  | bonds _ hsame => exact h.withSigners hsame.total
  | admitBacked hfresh => exact h.admitBacked hwf.keyed hfresh
  | admitBonded hfresh hst hleft =>
    exact h.admitBonded hwf hfresh (congrArg ReqStatus.closed hst) hleft
  | restatus hr hopen hst => exact h.restatus hr hopen hst
  | @close _ id txid r st _ hr hopen hst hrelease | @pay _ id txid r st _ _ hr hopen hst hrelease =>
    exact h.close hwf hr hopen hrelease ((hwf.requests id r hr).2.closing st txid)
      (hwf.keyed id r hr) hst rfl
  | fraud => exact h

variable {v : Option SlashVerdict}

theorem perform_balanced (h : c.Balanced) (hwf : c.WellFormed K)
    (hcall : call.perform P sha256 c = .ok v c') : c'.Balanced := by
  cases hblock : call.isBlock with
  | false => exact (effect_of_perform hwf.keyed hblock hcall).balanced h hwf
  | true =>
    obtain rfl | ⟨signers, root, insurance, hsame, rfl⟩ := block_of_perform hblock hcall
    · exact h
    · have hbonds : ({ c with signers } : Covenant A).Balanced := h.withSigners hsame.total
      have hwf' : ({ c with signers } : Covenant A).WellFormed K :=
        hwf.withSigners (hwf.sameSigners hsame.signers)
      exact (hbonds.retire hwf' root).withSigners rfl

/-! ## The lock of one signer -/

def Call.locksOn (c : Covenant A) (addr : Bytes) : Call → Nat
  | .addRequest r false =>
    if c.requests.lookup r.requestId = none then planned (c.lockPlan r.amountSats).1 addr else 0
  | _ => 0

def lockedInRun (P : Profile) (sha256 : Bytes → Hash256) : List Call → Covenant A → Bytes → Nat
  | [], _, _ => 0
  | call :: rest, c, addr => call.locksOn c addr +
    match call.perform P sha256 c with
    | .ok _ c' => lockedInRun P sha256 rest c' addr
    | .error _ _ => 0

theorem lockedOf_released_le (c : Covenant A) (id : Hash256) (amount : Nat) (addr : Bytes) :
    lockedOf (c.released id amount) addr ≤ lockedOf c.signers addr := by
  unfold Covenant.released
  split
  · exact le_rfl
  · exact lockedOf_releaseFrom_le _ _ _

theorem lockedOf_keep_le (p : Bytes → SignerBond → Bool) (t : Table Bytes SignerBond) (addr : Bytes) :
    lockedOf (Table.keep p t) addr ≤ lockedOf t addr := by
  cases hs : (Table.keep p t).lookup addr with
  | none => simp [lockedOf, hs]
  | some s => rw [lockedOf_of_lookup hs, lockedOf_of_lookup (lookup_keep.mp hs).1]

theorem Effect.lockedOf_le (heffect : Effect sha256 c call c') (addr : Bytes) :
    lockedOf c'.signers addr ≤ lockedOf c.signers addr + call.locksOn c addr := by
  cases heffect with
  | idle => exact Nat.le_add_right _ _
  | @register a bondSats => exact ((register_locks c a bondSats).2 addr).le
  | bonds _ hsame => exact (hsame.each addr).le.trans (Nat.le_add_right _ _)
  | admitBacked => exact Nat.le_add_right _ _
  | admitBonded hfresh =>
    rw [Call.locksOn, if_pos hfresh]
    exact ((applyLockPlan_locks _ (buildLockPlan_known _ _)).2.2 addr).le
  | restatus => exact Nat.le_add_right _ _
  | @close _ id _ r | @pay _ id _ r =>
    exact (lockedOf_released_le c id r.amountSats addr).trans (Nat.le_add_right _ _)
  | fraud => exact Nat.le_add_right _ _

theorem perform_lockedOf_le (hkeyed : Keyed c.requests) (hcall : call.perform P sha256 c = .ok v c')
    (addr : Bytes) : lockedOf c'.signers addr ≤ lockedOf c.signers addr + call.locksOn c addr := by
  cases hblock : call.isBlock with
  | false => exact (effect_of_perform hkeyed hblock hcall).lockedOf_le addr
  | true =>
    obtain rfl | ⟨signers, root, insurance, hsame, rfl⟩ := block_of_perform hblock hcall
    · exact Nat.le_add_right _ _
    · have hkept : lockedOf (Table.keep (fun _ s => s.lockedSats != 0) signers) addr ≤ _ :=
        lockedOf_keep_le _ _ addr
      exact (hkept.trans (hsame.each addr).le).trans (Nat.le_add_right _ _)

/-! ## Runs -/

theorem run_locks {trace : List (Call × Option SlashVerdict)} (hrun : Run (Call.perform P sha256) c trace c')
    (h : c.Balanced) (hwf : c.WellFormed K) (hnamed : ∀ step ∈ trace, step.1.Named K) :
    c'.Balanced ∧ c'.WellFormed K ∧ ∀ addr, lockedOf c'.signers addr ≤
      lockedOf c.signers addr + lockedInRun P sha256 (trace.map Prod.fst) c addr := by
  induction hrun with
  | nil c => exact ⟨h, hwf, fun _ => le_rfl⟩
  | cons hcall _ ih =>
    obtain ⟨hfirst, hrest⟩ := forall_mem_cons.mp hnamed
    have hstep := perform_lockedOf_le hwf.keyed hcall
    obtain ⟨hbalanced, hwf', hlocked⟩ := ih (perform_balanced h hwf hcall)
      (perform_wellFormed hwf hfirst hcall) hrest
    refine ⟨hbalanced, hwf', fun addr => ?_⟩
    simp only [map_cons, lockedInRun, hcall]
    have := hstep addr
    have := hlocked addr
    omega

/-! ## Closed requests and used transactions -/

theorem Effect.closed (heffect : Effect sha256 c call c') (hr : c.requests.lookup id = some r)
    (hclosed : r.status.closed) : c'.requests.lookup id = some r := by
  -- what is written is new or was open
  have hwrite {other : Hash256} {r' : RedeemRequest}
      (hother : ∀ r₀, c.requests.lookup other = some r₀ → r₀.status.closed = false) :
      (c.requests.insert other r').lookup id = some r := by
    rw [lookup_insert_ite, if_neg, hr]
    rintro rfl
    rw [hother r hr] at hclosed
    cases hclosed
  have hnew {other : Hash256} {r' : RedeemRequest} (hfresh : c.requests.lookup other = none) :
      (c.requests.insert other r').lookup id = some r :=
    hwrite fun r₀ hr₀ => by rw [hfresh] at hr₀; cases hr₀
  have hold {other : Hash256} {r₀ r' : RedeemRequest} (hr₀ : c.requests.lookup other = some r₀)
      (hopen : r₀.status.closed = false) : (c.requests.insert other r').lookup id = some r :=
    hwrite fun r₁ hr₁ => by rwa [← Option.some.inj (hr₀.symm.trans hr₁)]
  cases heffect with
  | idle | register | bonds => exact hr
  | admitBacked hfresh | admitBonded hfresh => exact hnew hfresh
  | restatus hr₀ hopen | close _ hr₀ hopen | pay _ _ hr₀ hopen => exact hold hr₀ hopen
  | fraud => exact hr

def Covenant.Used (c : Covenant A) (txid : Hash256) : Prop :=
  txid ∈ c.consumedPayouts ∨ txid ∈ c.consumedFraudSpends

theorem Covenant.Unused.not_used {txid : Hash256} (h : c.Unused sha256 txid) : ¬ c.Used txid := by
  rintro (hpayout | hfraud)
  · obtain ⟨-, ⟨-, hno⟩ | ⟨hno, -⟩⟩ := consumed_eq_ok.mp h.1
    · cases hno
    · exact hno hpayout
  · obtain ⟨-, ⟨-, hno⟩ | ⟨hno, -⟩⟩ := consumed_eq_ok.mp h.2
    · cases hno
    · exact hno hfraud

theorem Effect.used (heffect : Effect sha256 c call c') :
    (∀ txid, call.consumes = some txid → ¬ c.Used txid) ∧
      ∀ txid, c'.Used txid ↔ c.Used txid ∨ call.consumes = some txid := by
  have hfree' {call : Call} (hfree : call.consumes = none) :
      (∀ txid, call.consumes = some txid → ¬ c.Used txid) ∧
        ∀ txid, c.Used txid ↔ c.Used txid ∨ call.consumes = some txid := by
    simp [hfree]
  cases heffect with
  | idle hfree => exact hfree' hfree
  | register => exact hfree' rfl
  | bonds hfree => exact hfree' hfree
  | admitBacked | admitBonded | restatus => exact hfree' rfl
  | close hfree => exact hfree' hfree
  | @pay _ id txid r st huses hnew =>
    refine ⟨fun other hother => ?_, fun other => ?_⟩
    · obtain rfl := Option.some.inj (huses.symm.trans hother)
      exact hnew.not_used
    · rw [huses, Option.some.injEq, eq_comm (a := txid)]
      simp only [Covenant.Used, Covenant.close, mem_cons]
      tauto
  | @fraud txid hnew =>
    refine ⟨fun other hother => ?_, fun other => ?_⟩
    · obtain rfl := Option.some.inj hother
      exact hnew.not_used
    · simp only [Call.consumes, Option.some.injEq, Covenant.Used, mem_cons, eq_comm (a := txid)]
      tauto

/-! ## Runs that keep every record -/

section
variable {k k' : Covenant forgetful} {trace : List (Call × Option SlashVerdict)}

theorem performKept_closed {v : Option SlashVerdict} (hkeyed : Keyed k.requests)
    (hcall : call.performKept P sha256 k = .ok v k') (hr : k.requests.lookup id = some r)
    (hclosed : r.status.closed) : k'.requests.lookup id = some r := by
  cases hblock : call.isBlock with
  | false =>
    rw [Call.performKept_eq hblock] at hcall
    exact (effect_of_perform hkeyed hblock hcall).closed hr hclosed
  | true =>
    obtain ⟨_, _, _, -, rfl⟩ := block_of_performKept hblock hcall
    exact hr

theorem performKept_used {v : Option SlashVerdict} (hkeyed : Keyed k.requests)
    (hcall : call.performKept P sha256 k = .ok v k') :
    (∀ txid, call.consumes = some txid → ¬ k.Used txid) ∧
      ∀ txid, k'.Used txid ↔ k.Used txid ∨ call.consumes = some txid := by
  cases hblock : call.isBlock with
  | false =>
    rw [Call.performKept_eq hblock] at hcall
    exact (effect_of_perform hkeyed hblock hcall).used
  | true =>
    obtain ⟨_, _, _, -, rfl⟩ := block_of_performKept hblock hcall
    have hfree : call.consumes = none := by cases call <;> first | rfl | cases hblock
    simp [hfree, Covenant.Used]

section
variable (hrun : Run (Call.performKept P sha256) k trace k') (hwf : k.WellFormed K)
  (hnamed : ∀ step ∈ trace, step.1.Named K)
include hrun hwf hnamed

theorem runKept_closed (hr : k.requests.lookup id = some r) (hclosed : r.status.closed) :
    k'.requests.lookup id = some r := by
  induction hrun with
  | nil => exact hr
  | cons hcall _ ih =>
    obtain ⟨hfirst, hrest⟩ := forall_mem_cons.mp hnamed
    exact ih (performKept_wellFormed hwf hfirst hcall) hrest
      (performKept_closed hwf.keyed hcall hr hclosed)

theorem runKept_used :
    (trace.filterMap fun step => step.1.consumes).Nodup ∧
      ∀ txid ∈ trace.filterMap fun step => step.1.consumes, ¬ k.Used txid := by
  induction hrun with
  | nil => simp
  | @cons k k₁ k' call v trace hcall _ ih =>
    obtain ⟨hfirst, hrest⟩ := forall_mem_cons.mp hnamed
    obtain ⟨hnodup, hlater⟩ := ih (performKept_wellFormed hwf hfirst hcall) hrest
    obtain ⟨hnew, hused⟩ := performKept_used hwf.keyed hcall
    have hlater' : ∀ txid ∈ trace.filterMap fun step => step.1.consumes,
        ¬ k.Used txid ∧ call.consumes ≠ some txid := fun txid htxid =>
      not_or.mp fun hno => hlater txid htxid ((hused txid).mpr hno)
    cases hconsumes : call.consumes with
    | none =>
      simp only [filterMap_cons, hconsumes]
      exact ⟨hnodup, fun txid htxid => (hlater' txid htxid).1⟩
    | some txid =>
      simp only [filterMap_cons, hconsumes]
      refine ⟨nodup_cons.mpr ⟨fun hmem => (hlater' txid hmem).2 hconsumes, hnodup⟩,
        forall_mem_cons.mpr ⟨hnew txid hconsumes, fun other hother => (hlater' other hother).1⟩⟩

end

end

end

theorem empty_wellFormed {A : RedeemArchive} (K : Set (Nat × Bytes)) :
    (Covenant.empty A).WellFormed K where
  keyed _ _ hr := by cases hr
  requests _ _ hr := by cases hr
  backed _ hid := by cases hid
  payouts _ hid := by cases hid
  frauds _ hid := by cases hid
  signers _ _ hs := by cases hs

/-- **The books of the covenant.** Along every run from the empty covenant: the locks of the signers
add up to the open requests that hold a lock; no signer has more locked than the plans of the run
put on it; every open request can release its lock, which takes what the request holds and no more;
a closed request stays what it is, whatever follows; and no Bitcoin transaction is used twice, as a
payout or as a fraud. -/
theorem covenant_books {P : Profile} {sha256 : Bytes → Hash256} {B : Archive.Backend}
    {W : Set Bytes} {K : Set (Nat × Bytes)}
    (hrecords : Set.InjOn (Archive.hashRecord sha256) W) (hstore : B.Within W)
    (hkeys : Set.InjOn (fun i : Nat × Bytes => archiveKey sha256 i.1 i.2) K)
    {c : Covenant (Archive.archive sha256 B)} {trace : List (Call × Option SlashVerdict)}
    (hnamed : ∀ step ∈ trace, step.1.Named K)
    (hrun : Run (Call.perform P sha256) (Covenant.empty _) trace c) :
    totalLocked c.signers = c.openLocks ∧
    (∀ addr, lockedOf c.signers addr ≤
      lockedInRun P sha256 (trace.map Prod.fst) (Covenant.empty (Archive.archive sha256 B)) addr) ∧
    (∀ id r, c.requests.lookup id = some r → r.status.closed = false →
      ∃ c', releaseRequestLock id r.amountSats c = .ok () c' ∧
        totalLocked c'.signers + r.locks c.reserveBackedRequests = totalLocked c.signers) ∧
    (∀ id r later c' found c'', (1, id.bytes) ∈ K →
      getCopy sha256 id c = .ok (some r) c → r.status.closed →
      (∀ step ∈ later, step.1.Named K) → Run (Call.perform P sha256) c later c' →
      getCopy sha256 id c' = .ok found c'' → found = some r) ∧
    (trace.filterMap fun step => step.1.consumes).Nodup := by
  have hA := Archive.archive_sound hrecords hstore
  have hstart : (Covenant.empty (Archive.archive sha256 B)).Unarchived := ⟨rfl, rfl⟩
  have hkept : (Covenant.empty (Archive.archive sha256 B)).kept.WellFormed K := empty_wellFormed K
  obtain ⟨hbalanced, hwf, hlocked⟩ := run_locks hrun rfl (empty_wellFormed K) hnamed
  rw [← kept_archiving sha256 hstart] at hrun
  obtain ⟨k, S, hmirror, rfl, hfits, hwf'⟩ :=
    run_kept hkeys hA (kept_fits hA (empty_wellFormed K)) hkept hnamed hrun
  refine ⟨hbalanced, fun addr => ?_, fun id r hr hopen => ?_, ?_, ?_⟩
  · have hbound := hlocked addr
    rwa [show lockedOf (Covenant.empty (Archive.archive sha256 B)).signers addr = 0 from rfl,
      zero_add] at hbound
  · have hrelease := hbalanced.releasable hwf.keyed hr hopen
    exact ⟨_, releaseRequestLock_eq_ok.mpr ⟨hrelease, rfl⟩,
      totalLocked_released hwf.keyed hr hopen hrelease⟩
  · intro id r later c' found c'' hid hcopy hclosed hlater hrun' hcopy'
    obtain ⟨k', S', hmirror', rfl, hfits', hwf''⟩ := run_kept hkeys hA hfits hwf' hlater hrun'
    -- both answers are those of the covenant that keeps everything
    obtain ⟨answer, hanswer, hgiven, -⟩ := getCopy_same hA hfits hwf' hid
    obtain ⟨answer', hanswer', hgiven', -⟩ := getCopy_same hA hfits' hwf'' hid
    rw [getCopy_forgetful] at hanswer hanswer'
    have hr : k.requests.lookup id = some r :=
      (EStateM.Result.ok.inj hanswer).1.trans (hgiven _ _ hcopy).1.symm
    have hr' := runKept_closed hmirror' hwf' hlater hr hclosed
    rw [(hgiven' _ _ hcopy').1, ← hr', (EStateM.Result.ok.inj hanswer').1]
  · exact (runKept_used hmirror hkept hnamed).1

def bondedRequest : RedeemRequest := { paidRequest with status := .lockedIn, fulfilledTxid := .zero }

def bondedNames : List (Nat × Bytes) := [(4, [0x62]), (1, bondedRequest.requestId.bytes)]

/-- A signer bonds 8000 and a request locks 5000 of it. -/
def bondedTrace : List (Call × Option SlashVerdict) :=
  [(.register [0x62] 8000, none), (.activate [0x62], none), (.addRequest bondedRequest false, none)]

theorem bondedTrace_accepted : ∃ c : Covenant (Archive.archive lengthHash (memory [])),
    Run (Call.perform Profile.sample lengthHash) (Covenant.empty _) bondedTrace c := by
  exact ⟨_, .cons (silently_eq_ok.mpr ⟨register_eq_ok.mpr ⟨by decide, by decide, rfl⟩, rfl⟩)
    (.cons (silently_eq_ok.mpr ⟨activate_eq_ok.mpr ⟨rfl, _, rfl, by decide, rfl⟩, rfl⟩)
    (.cons (silently_eq_ok.mpr ⟨addRequest_eq_ok.mpr ⟨by decide +kernel, .inr ⟨rfl, rfl, .inr
      ⟨rfl, by decide +kernel, rfl⟩⟩⟩, rfl⟩) (.nil _)))⟩

theorem covenant_books_bonded : ∃ c : Covenant (Archive.archive lengthHash (memory [])),
    Run (Call.perform Profile.sample lengthHash) (Covenant.empty _) bondedTrace c ∧
      totalLocked c.signers = c.openLocks := by
  obtain ⟨c, hrun⟩ := bondedTrace_accepted
  have hkeys : ∀ i ∈ bondedNames, ∀ j ∈ bondedNames,
      archiveKey lengthHash i.1 i.2 = archiveKey lengthHash j.1 j.2 → i = j := by decide +kernel
  have hnamed : ∀ step ∈ bondedTrace, step.1.Named { i | i ∈ bondedNames } := by
    simp [bondedTrace, Call.Named, bondedNames]
    constructor <;> decide
  exact ⟨c, hrun, (covenant_books (fun _ hno => absurd hno not_mem_nil) (memory_within [])
    (fun i hi j hj => hkeys i hi j hj) hnamed hrun).1⟩

end Veld.Btcveld
