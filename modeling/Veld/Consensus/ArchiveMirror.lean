import Veld.Consensus.CovenantRuns

/-!
# The archive is invisible

The covenant that archives is compared with one that keeps every record in memory. In every run both give the
same answers.
-/

namespace Veld.Btcveld

open Wire hiding bind_eq_ok
open Program Btcspv List Table

/-! ## The archived form of a request -/

theorem readField_putLenPrefixed {s : Bytes} (h : s.length ≤ uint32Max) (rest : Bytes) :
    readField (putLenPrefixed s ++ rest) = some (s, rest) := by
  have hlt : s.length < 256 ^ 4 := by
    have : uint32Max = 256 ^ 4 - 1 := by decide
    omega
  rw [putLenPrefixed, append_assoc, readField]
  refine bind_step (readLE_putLE hlt _) ?_
  exact takeN_append s rest

theorem ReqStatus.ofCode_code (st : ReqStatus) : ReqStatus.ofCode st.code = some st := by
  cases st <;> rfl

theorem decodeRequest_encodeRequest {r : RedeemRequest} (h : r.Typed) :
    decodeRequest (encodeRequest r) = some r := by
  have hwide {v : Nat} (hv : v ≤ uint64Max) : v < 256 ^ 8 := by
    have : uint64Max = 256 ^ 8 - 1 := by decide
    omega
  have hcode : r.status.code < 256 ^ 1 := by cases r.status <;> decide
  have hlast := readLE_putLE (hwide h.observed) []
  rw [append_nil] at hlast
  have hbody : encodeRequest r = r.requestId.bytes ++ (putLE 8 r.amountSats ++
      (putLenPrefixed r.destSpk ++ (putLE 8 r.requestHeight ++ (putLE 8 r.deadlineHeight ++
      (putLE 1 r.status.code ++ (r.fulfilledTxid.bytes ++ (putLenPrefixed r.veldRecipient ++
      (r.requestCommitment.bytes ++ putLE 8 r.btcObservedHeight)))))))) := by
    simp only [encodeRequest, append_assoc]
  have hid := (congrArg readHash hbody).trans (readHash_bytes _ _)
  unfold decodeRequest
  refine bind_step hid ?_
  refine bind_step (readLE_putLE (hwide h.amount) _) ?_
  refine bind_step (readField_putLenPrefixed h.dest _) ?_
  refine bind_step (readLE_putLE (hwide h.height) _) ?_
  refine bind_step (readLE_putLE (hwide h.deadline) _) ?_
  refine bind_step (readLE_putLE hcode _) ?_
  refine bind_step (ReqStatus.ofCode_code _) ?_
  refine bind_step (readHash_bytes _ _) ?_
  refine bind_step (readField_putLenPrefixed h.recipient _) ?_
  refine bind_step (readHash_bytes _ _) ?_
  refine bind_step hlast ?_
  exact bind_of_eq_some (guard_pos ⟨rfl, rfl⟩) _

/-! ## Rows of the archive -/

section
variable {A : RedeemArchive} {holds : A.Root → (Hash256 → Option Bytes) → Prop}
  {sha256 : Bytes → Hash256} {K : Set (Nat × Bytes)} {c : Covenant A}
variable {rows : List (Hash256 × Bytes)}

theorem archiveRows_eq_some (hA : A.Sound holds) {root root' : A.Root} {m : Hash256 → Option Bytes}
    (hm : holds root m) (h : archiveRows root rows = some root') :
    ∃ m', holds root' m' ∧ ∀ key v, m' key = some v ↔ m key = some v ∨ (key, v) ∈ rows := by
  induction rows generalizing root m with
  | nil =>
    cases h
    exact ⟨m, hm, by simp⟩
  | cons row rows ih =>
    simp only [archiveRows, foldlM_cons, bind_eq_some] at h
    obtain ⟨root₁, hinsert, h⟩ := h
    obtain ⟨hfree, hm₁⟩ := hA.insert hm hinsert
    obtain ⟨m', hm', hrows⟩ := ih hm₁ h
    refine ⟨m', hm', fun key v => ?_⟩
    rw [hrows, mem_cons, ← or_assoc]
    refine or_congr_left ?_
    by_cases hkey : key = row.1
    · subst hkey
      rw [Function.update_self, Option.some.injEq, Prod.ext_iff]
      constructor
      · rintro rfl
        exact .inr ⟨rfl, rfl⟩
      · rintro (hold | ⟨-, rfl⟩)
        · rcases hfree with hnone | hsome
          · rw [hnone] at hold
            cases hold
          · exact Option.some.inj (hsome.symm.trans hold)
        · rfl
    · rw [Function.update_of_ne hkey]
      simp [hkey, Prod.ext_iff]

theorem mem_orderedHashes {hs : List Hash256} {h : Hash256} : h ∈ orderedHashes hs ↔ h ∈ hs :=
  mem_mergeSort

variable {kind : Nat} {key : Hash256}

theorem mem_spendRows {ids : List Hash256} {v : Bytes} :
    (key, v) ∈ spendRows sha256 kind ids ↔
      ∃ id ∈ ids, key = archiveKey sha256 kind id.bytes ∧ v = [] := by
  simp only [spendRows, mem_map, mem_orderedHashes, Prod.mk.injEq]
  exact exists_congr fun id => and_congr_right fun _ =>
    and_congr (eq_comm) (eq_comm)

theorem mem_closedRequestRows {v : Bytes} :
    (key, v) ∈ closedRequestRows sha256 c ↔ ∃ id r, c.requests.lookup id = some r ∧
      r.status.closed ∧ key = archiveKey sha256 1 id.bytes ∧ v = encodeRequest r := by
  simp only [closedRequestRows, mem_filterMap, mem_orderedHashes, Option.bind_eq_some_iff]
  constructor
  · rintro ⟨id, -, r, hr, h⟩
    split_ifs at h with hclosed
    cases h
    exact ⟨id, r, hr, hclosed, rfl, rfl⟩
  · rintro ⟨id, r, hr, hclosed, rfl, rfl⟩
    have hmem : id ∈ c.requests.keys := AList.lookup_isSome.mp (by rw [hr]; rfl)
    exact ⟨id, hmem, r, hr, by rw [if_pos hclosed]⟩

theorem mem_signerRows {v : Bytes} (h : (key, v) ∈ signerRows sha256 c) :
    ∃ addr s, c.signers.lookup addr = some s ∧ key = archiveKey sha256 4 addr := by
  simp only [signerRows, mem_filterMap, Option.map_eq_some_iff, Prod.mk.injEq] at h
  obtain ⟨addr, -, s, hs, rfl, -⟩ := h
  exact ⟨addr, s, hs, rfl⟩

/-! Among named records a row is told by its kind and identity. -/

section
variable (hinj : Set.InjOn (fun i : Nat × Bytes => archiveKey sha256 i.1 i.2) K)
  (hwf : c.WellFormed K) {kind : Nat} {ident v : Bytes} (hnamed : (kind, ident) ∈ K)
include hinj hnamed

theorem key_mem_spendRows {kind' : Nat} {ids : List Hash256} (hids : ∀ id ∈ ids, (kind', id.bytes) ∈ K) :
    (archiveKey sha256 kind ident, v) ∈ spendRows sha256 kind' ids ↔
      kind = kind' ∧ v = [] ∧ ∃ id ∈ ids, ident = id.bytes := by
  rw [mem_spendRows]
  constructor
  · rintro ⟨id, hid, hkey, rfl⟩
    obtain ⟨rfl, rfl⟩ := Prod.mk.inj (hinj hnamed (hids id hid) hkey)
    exact ⟨rfl, rfl, id, hid, rfl⟩
  · rintro ⟨rfl, rfl, id, hid, rfl⟩
    exact ⟨id, hid, rfl, rfl⟩

include hwf

theorem key_mem_closedRequestRows :
    (archiveKey sha256 kind ident, v) ∈ closedRequestRows sha256 c ↔ kind = 1 ∧
      ∃ id, (∃ r, c.requests.lookup id = some r ∧ r.status.closed ∧ v = encodeRequest r) ∧
        ident = id.bytes := by
  rw [mem_closedRequestRows]
  constructor
  · rintro ⟨id, r, hr, hclosed, hkey, rfl⟩
    obtain ⟨rfl, rfl⟩ := Prod.mk.inj (hinj hnamed (hwf.requests id r hr).1 hkey)
    exact ⟨rfl, id, ⟨r, hr, hclosed, rfl⟩, rfl⟩
  · rintro ⟨rfl, id, ⟨r, hr, hclosed, rfl⟩, rfl⟩
    exact ⟨id, r, hr, hclosed, rfl, rfl⟩

theorem key_mem_signerRows (h : (archiveKey sha256 kind ident, v) ∈ signerRows sha256 c) :
    kind = 4 := by
  obtain ⟨addr, s, hs, hkey⟩ := mem_signerRows h
  exact (Prod.mk.inj (hinj hnamed (hwf.signers addr s hs) hkey)).1

end

structure Retires (sha256 : Bytes → Hash256) (K : Set (Nat × Bytes)) (c : Covenant A)
    (rows : List (Hash256 × Bytes)) : Prop where
  requests : ∀ id v, (1, id.bytes) ∈ K → ((archiveKey sha256 1 id.bytes, v) ∈ rows ↔
    ∃ r, c.requests.lookup id = some r ∧ r.status.closed ∧ v = encodeRequest r)
  payouts : ∀ txid v, (2, txid.bytes) ∈ K → ((archiveKey sha256 2 txid.bytes, v) ∈ rows ↔
    v = [] ∧ txid ∈ c.consumedPayouts)
  frauds : ∀ txid v, (3, txid.bytes) ∈ K → ((archiveKey sha256 3 txid.bytes, v) ∈ rows ↔
    v = [] ∧ txid ∈ c.consumedFraudSpends)

theorem exists_bytes_eq {p : Hash256 → Prop} {id : Hash256} :
    (∃ id', p id' ∧ id.bytes = id'.bytes) ↔ p id :=
  ⟨fun ⟨_, hp, heq⟩ => Hash256.ext_bytes heq ▸ hp, fun hp => ⟨id, hp, rfl⟩⟩

section
variable (hinj : Set.InjOn (fun i : Nat × Bytes => archiveKey sha256 i.1 i.2) K)
  (hwf : c.WellFormed K)
include hinj hwf

theorem retires_blockRows : Retires sha256 K c (blockRows sha256 c) := by
  refine ⟨fun id v hnamed => ?_, fun txid v hnamed => ?_, fun txid v hnamed => ?_⟩ <;>
    rw [blockRows, mem_append, mem_append, key_mem_closedRequestRows hinj hwf hnamed,
      key_mem_spendRows hinj hnamed hwf.payouts, key_mem_spendRows hinj hnamed hwf.frauds]
  all_goals simp [exists_bytes_eq]

theorem retires_migrationRows (hfund : (5, ascii "legacy-insurance") ∈ K) :
    Retires sha256 K c (migrationRows sha256 c) := by
  -- the rows of signers and of the insurance fund have kinds of their own
  have hlegacy {kind : Nat} {ident v : Bytes} (hnamed : (kind, ident) ∈ K) (hkind : kind ≤ 3) :
      (archiveKey sha256 kind ident, v) ∈ migrationRows sha256 c ↔
        (archiveKey sha256 kind ident, v) ∈ blockRows sha256 c := by
    have hsigner : (archiveKey sha256 kind ident, v) ∉ signerRows sha256 c := fun h => by
      have := key_mem_signerRows hinj hwf hnamed h
      omega
    have hinsurance : (archiveKey sha256 kind ident, v) ≠ insuranceRow sha256 c := fun h => by
      have := (Prod.mk.inj (hinj hnamed hfund (Prod.mk.inj h).1)).1
      omega
    simp only [migrationRows, blockRows, mem_append, mem_singleton, hsigner, hinsurance,
      false_or]
    tauto
  obtain ⟨hrequests, hpayouts, hfrauds⟩ := retires_blockRows hinj hwf
  exact ⟨fun id v hnamed => (hlegacy hnamed (by decide)).trans (hrequests id v hnamed),
    fun txid v hnamed => (hlegacy hnamed (by decide)).trans (hpayouts txid v hnamed),
    fun txid v hnamed => (hlegacy hnamed (by decide)).trans (hfrauds txid v hnamed)⟩

end

/-! ## The covenant that archives, seen from the one that keeps everything -/

structure Shelf (A : RedeemArchive) where
  root : A.Root
  content : Hash256 → Option Bytes
  payouts : List Hash256
  frauds : List Hash256

/-- The covenant that archives: the other one without the requests on the shelf. -/
def Covenant.archiving (sha256 : Bytes → Hash256) (k : Covenant forgetful) (S : Shelf A) :
    Covenant A where
  signers := k.signers
  requests := Table.keep (fun id _ => (S.content (archiveKey sha256 1 id.bytes)).isNone) k.requests
  consumedPayouts := S.payouts
  consumedFraudSpends := S.frauds
  reserveBackedRequests := k.reserveBackedRequests
  insuranceFundSats := k.insuranceFundSats
  archiveRoot := S.root
  stateMigrationActive := k.stateMigrationActive

/-- The shelf holds what the covenant that keeps everything has in memory. -/
structure Shelf.Fits (holds : A.Root → (Hash256 → Option Bytes) → Prop) (sha256 : Bytes → Hash256)
    (K : Set (Nat × Bytes)) (k : Covenant forgetful) (S : Shelf A) : Prop where
  root : holds S.root S.content
  before : k.stateMigrationActive = false → S.content = fun _ => none
  requests : ∀ id v, (1, id.bytes) ∈ K → S.content (archiveKey sha256 1 id.bytes) = some v →
    ∃ r, k.requests.lookup id = some r ∧ r.status.closed ∧ v = encodeRequest r
  payouts : ∀ txid, (2, txid.bytes) ∈ K → (txid ∈ k.consumedPayouts ↔
    txid ∈ S.payouts ∨ (S.content (archiveKey sha256 2 txid.bytes)).isSome)
  frauds : ∀ txid, (3, txid.bytes) ∈ K → (txid ∈ k.consumedFraudSpends ↔
    txid ∈ S.frauds ∨ (S.content (archiveKey sha256 3 txid.bytes)).isSome)
  named : (∀ txid ∈ S.payouts, (2, txid.bytes) ∈ K) ∧ ∀ txid ∈ S.frauds, (3, txid.bytes) ∈ K

variable {P : Profile} {k : Covenant forgetful} {S : Shelf A} {id txid : Hash256} {r : RedeemRequest}

theorem lookup_archiving : (k.archiving sha256 S).requests.lookup id = some r ↔
    k.requests.lookup id = some r ∧ S.content (archiveKey sha256 1 id.bytes) = none := by
  rw [Covenant.archiving, lookup_keep, Option.isNone_iff_eq_none]

theorem insert_archiving (hoff : S.content (archiveKey sha256 1 id.bytes) = none) :
    (k.archiving sha256 S).requests.insert id r =
      Table.keep (fun id _ => (S.content (archiveKey sha256 1 id.bytes)).isNone)
        (k.requests.insert id r) :=
  (keep_insert (by rw [hoff]; rfl)).symm

theorem close_archiving (hoff : S.content (archiveKey sha256 1 id.bytes) = none) :
    (k.archiving sha256 S).close id r = (k.close id r).archiving sha256 S := by
  unfold Covenant.close
  rw [insert_archiving hoff]
  rfl

/-! ## Questions -/

/-- The archive answers for a record, if it is asked. -/
def Covenant.Readable (sha256 : Bytes → Hash256) (c : Covenant A) (kind : Nat) (id : Hash256) : Prop :=
  c.stateMigrationActive →
    (A.get c.archiveRoot (archiveKey sha256 kind id.bytes)).isSome = true

variable {c' : Covenant A}

theorem archived_forgetful : archived sha256 kind id k = .ok false k := by
  refine archived_eq_ok.mpr ⟨rfl, ?_⟩
  cases hactive : k.stateMigrationActive with
  | false => exact .inl ⟨rfl, rfl⟩
  | true => exact .inr ⟨rfl, none, rfl, rfl⟩

def SameAnswer {α : Type} (question : CovenantM A α) (question' : CovenantM forgetful α)
    (c : Covenant A) (k : Covenant forgetful) (readable : Prop) : Prop :=
  ∃ answer, question' k = .ok answer k ∧
    (∀ given c', question c = .ok given c' → given = answer ∧ c' = c) ∧
    (readable → question c = .ok answer c)

section
variable (hA : A.Sound holds) (h : S.Fits holds sha256 K k)
include hA h

theorem archived_archiving {b : Bool}
    (harchived : archived sha256 kind id (k.archiving sha256 S) = .ok b c') :
    b = (S.content (archiveKey sha256 kind id.bytes)).isSome := by
  obtain ⟨-, ⟨hbefore, rfl⟩ | ⟨-, found, hfound, rfl⟩⟩ := archived_eq_ok.mp harchived
  · rw [h.before hbefore]
    rfl
  · rw [hA.get h.root hfound]

theorem archived_readable
    (hread : (k.archiving sha256 S).Readable sha256 kind id) :
    archived sha256 kind id (k.archiving sha256 S) =
      .ok (S.content (archiveKey sha256 kind id.bytes)).isSome (k.archiving sha256 S) := by
  refine archived_eq_ok.mpr ⟨rfl, ?_⟩
  cases hactive : k.stateMigrationActive with
  | false => exact .inl ⟨hactive, by rw [h.before hactive]; rfl⟩
  | true =>
    obtain ⟨found, hfound⟩ := Option.isSome_iff_exists.mp (hread hactive)
    exact .inr ⟨hactive, found, hfound, by rw [hA.get h.root hfound]⟩

theorem consumed_same {used : Covenant A → List Hash256} {used' : Covenant forgetful → List Hash256}
    (hused : txid ∈ used' k ↔ txid ∈ used (k.archiving sha256 S) ∨
      (S.content (archiveKey sha256 kind txid.bytes)).isSome = true) :
    SameAnswer
      (do
        let c ← get
        if txid ∈ used c then return true else archived sha256 kind txid)
      (do
        let c ← get
        if txid ∈ used' c then return true else archived sha256 kind txid)
      (k.archiving sha256 S) k ((k.archiving sha256 S).Readable sha256 kind txid) := by
  refine ⟨decide (txid ∈ used' k), consumed_eq_ok.mpr ⟨rfl, ?_⟩, fun b c' hb => ?_, fun hread => ?_⟩
  · by_cases hmem : txid ∈ used' k
    · exact .inl ⟨hmem, decide_eq_true hmem⟩
    · exact .inr ⟨hmem, by rw [archived_forgetful, decide_eq_false hmem]⟩
  · obtain ⟨rfl, ⟨hmem, rfl⟩ | ⟨hmem, harchived⟩⟩ := consumed_eq_ok.mp hb
    · exact ⟨(decide_eq_true (hused.mpr (.inl hmem))).symm, rfl⟩
    · refine ⟨?_, rfl⟩
      rw [archived_archiving hA h harchived, Bool.eq_iff_iff, decide_eq_true_iff, hused]
      exact (or_iff_right hmem).symm
  · refine consumed_eq_ok.mpr ⟨rfl, ?_⟩
    by_cases hmem : txid ∈ used (k.archiving sha256 S)
    · exact .inl ⟨hmem, decide_eq_true (hused.mpr (.inl hmem))⟩
    · refine .inr ⟨hmem, (archived_readable hA h hread).trans ?_⟩
      congr 1
      rw [Bool.eq_iff_iff, decide_eq_true_iff, hused]
      exact (or_iff_right hmem).symm

theorem isConsumedPayout_same (hnamed : (2, txid.bytes) ∈ K) :
    SameAnswer (isConsumedPayout sha256 txid) (isConsumedPayout sha256 txid) (k.archiving sha256 S) k
      ((k.archiving sha256 S).Readable sha256 2 txid) :=
  consumed_same hA h (h.payouts txid hnamed)

theorem isConsumedFraudSpend_same (hnamed : (3, txid.bytes) ∈ K) :
    SameAnswer (isConsumedFraudSpend sha256 txid) (isConsumedFraudSpend sha256 txid)
      (k.archiving sha256 S) k ((k.archiving sha256 S).Readable sha256 3 txid) :=
  consumed_same hA h (h.frauds txid hnamed)

theorem unused_forgetful (hnamed : (2, txid.bytes) ∈ K ∧ (3, txid.bytes) ∈ K)
    (hunused : (k.archiving sha256 S).Unused sha256 txid) : k.Unused sha256 txid := by
  obtain ⟨payout, hpayout, hgiven, -⟩ := isConsumedPayout_same hA h hnamed.1
  obtain ⟨fraud, hfraud, hgiven', -⟩ := isConsumedFraudSpend_same hA h hnamed.2
  obtain ⟨rfl, -⟩ := hgiven false _ hunused.1
  obtain ⟨rfl, -⟩ := hgiven' false _ hunused.2
  exact ⟨hpayout, hfraud⟩

end

theorem request_cases (h : S.Fits holds sha256 K k) (hwf : k.WellFormed K)
    (hnamed : (1, id.bytes) ∈ K) :
    (∃ r, k.requests.lookup id = some r ∧ (k.archiving sha256 S).requests.lookup id = some r) ∨
      (k.archiving sha256 S).requests.lookup id = none ∧
        ((∃ r, k.requests.lookup id = some r ∧ r.status.closed ∧ r.Typed ∧ r.requestId = id ∧
            S.content (archiveKey sha256 1 id.bytes) = some (encodeRequest r)) ∨
          k.requests.lookup id = none ∧ S.content (archiveKey sha256 1 id.bytes) = none) := by
  have hgone (hmiss : ∀ r, ¬(k.requests.lookup id = some r ∧
      S.content (archiveKey sha256 1 id.bytes) = none)) :
      (k.archiving sha256 S).requests.lookup id = none := by
    rw [Option.eq_none_iff_forall_ne_some]
    exact fun r hr => hmiss r (lookup_archiving.mp hr)
  cases hcontent : S.content (archiveKey sha256 1 id.bytes) with
  | some v =>
    obtain ⟨r, hr, hclosed, rfl⟩ := h.requests id v hnamed hcontent
    refine .inr ⟨hgone fun _ hno => ?_, .inl ⟨r, hr, hclosed, (hwf.requests id r hr).2,
      hwf.keyed id r hr, rfl⟩⟩
    rw [hcontent] at hno
    exact absurd hno.2 (by simp)
  | none =>
    cases hr : k.requests.lookup id with
    | some r => exact .inl ⟨r, rfl, lookup_archiving.mpr ⟨hr, hcontent⟩⟩
    | none =>
      refine .inr ⟨hgone fun r hno => ?_, .inr ⟨rfl, rfl⟩⟩
      rw [hr] at hno
      exact absurd hno.1 (by simp)

theorem getCopy_forgetful : getCopy sha256 id k = .ok (k.requests.lookup id) k := by
  refine getCopy_eq_ok.mpr ⟨rfl, ?_⟩
  cases hr : k.requests.lookup id with
  | some r => exact .inl ⟨r, rfl, rfl⟩
  | none =>
    cases hactive : k.stateMigrationActive with
    | false => exact .inr ⟨rfl, .inl ⟨rfl, rfl⟩⟩
    | true => exact .inr ⟨rfl, .inr ⟨rfl, none, rfl, .inl ⟨rfl, rfl⟩⟩⟩

theorem getCopy_same (hA : A.Sound holds) (h : S.Fits holds sha256 K k) (hwf : k.WellFormed K)
    (hnamed : (1, id.bytes) ∈ K) :
    SameAnswer (getCopy sha256 id) (getCopy sha256 id) (k.archiving sha256 S) k
      ((k.archiving sha256 S).Readable sha256 1 id) := by
  have hright (hread : (k.archiving sha256 S).Readable sha256 1 id) :
      getCopy sha256 id (k.archiving sha256 S) =
        .ok (k.requests.lookup id) (k.archiving sha256 S) := by
    refine getCopy_eq_ok.mpr ⟨rfl, ?_⟩
    obtain ⟨r, hr, hr'⟩ | ⟨hgone, hcase⟩ := request_cases h hwf hnamed
    · exact .inl ⟨r, hr', hr⟩
    refine .inr ⟨hgone, ?_⟩
    cases hactive : k.stateMigrationActive with
    | false =>
      rw [h.before hactive] at hcase
      obtain ⟨_, -, -, -, -, hno⟩ | ⟨hnone, -⟩ := hcase
      · cases hno
      · exact .inl ⟨hactive, hnone⟩
    | true =>
      obtain ⟨wire, hwire⟩ := Option.isSome_iff_exists.mp (hread hactive)
      refine .inr ⟨hactive, wire, hwire, ?_⟩
      rw [hA.get h.root hwire]
      obtain ⟨r, hr, hclosed, htyped, hid, hcontent⟩ | ⟨hnone, hcontent⟩ := hcase
      · exact .inr ⟨_, r, hcontent, decodeRequest_encodeRequest htyped, ⟨hid, hclosed⟩, hr⟩
      · exact .inl ⟨hcontent, hnone⟩
  refine ⟨_, getCopy_forgetful, fun found c' hfound => ?_, hright⟩
  obtain ⟨rfl, ⟨r, hr, rfl⟩ | ⟨-, hasked⟩⟩ := getCopy_eq_ok.mp hfound
  · exact ⟨(lookup_archiving.mp hr).1.symm, rfl⟩
  · -- an answer from the archive is one that could be read
    have hread : (k.archiving sha256 S).Readable sha256 1 id := by
      intro hactive
      obtain ⟨hbefore, -⟩ | ⟨-, wire, hwire, -⟩ := hasked
      · rw [hactive] at hbefore
        cases hbefore
      · rw [hwire]
        rfl
    exact ⟨(EStateM.Result.ok.inj (hfound.symm.trans (hright hread))).1, rfl⟩

theorem dueForDefault_archiving (h : S.Fits holds sha256 K k) (hwf : k.WellFormed K) (height : Nat) :
    (k.archiving sha256 S).dueForDefault height = k.dueForDefault height := by
  unfold Covenant.dueForDefault
  congr 2
  change (k.requests.entries.filter _).filter _ = _
  rw [filter_filter]
  refine filter_congr fun row hrow => ?_
  have hr := lookup_of_mem hrow
  cases hcontent : S.content (archiveKey sha256 1 row.1.bytes) with
  | none => simp [hcontent]
  | some v =>
    obtain ⟨r, hr', hclosed, -⟩ := h.requests row.1 v (hwf.requests _ _ hr).1 hcontent
    obtain rfl := Option.some.inj (hr.symm.trans hr')
    have hopen : row.2.status.isOpen = false := by
      cases hst : row.2.status <;> simp_all [ReqStatus.closed, ReqStatus.isOpen]
    simp [hopen]

theorem addRequest_readable (hA : A.Sound holds) (h : S.Fits holds sha256 K k) (hwf : k.WellFormed K)
    (hnamed : (1, r.requestId.bytes) ∈ K) {reserveBacked : Bool} {k' : Covenant forgetful}
    (hread : (k.archiving sha256 S).Readable sha256 1 r.requestId)
    (hadd : addRequest sha256 r reserveBacked k = .ok () k') :
    ∃ c', addRequest sha256 r reserveBacked (k.archiving sha256 S) = .ok () c' := by
  obtain ⟨hadm, ⟨hsame, hbacked, -⟩ | ⟨hnone, -, hcase⟩⟩ := addRequest_eq_ok.mp hadd
  · -- a replay of an open request finds it in memory
    refine ⟨_, addRequest_eq_ok.mpr ⟨hadm, .inl ⟨?_, hbacked, rfl⟩⟩⟩
    obtain ⟨r', hr, hr'⟩ | ⟨-, ⟨r', hr, hclosed, -⟩ | ⟨hno, -⟩⟩ := request_cases h hwf hnamed
    · rw [hr', ← hr, hsame]
    · obtain rfl := Option.some.inj (hsame.symm.trans hr)
      have hopen : r.status = .lockedIn := hadm.2.2.2.2.2.1
      change r.status.closed = true at hclosed
      rw [hopen] at hclosed
      cases hclosed
    · rw [hno] at hsame
      cases hsame
  · obtain ⟨r', hr, -⟩ | ⟨hgone, ⟨r', hr, -⟩ | ⟨-, hcontent⟩⟩ := request_cases h hwf hnamed
    · rw [hnone] at hr
      cases hr
    · rw [hnone] at hr
      cases hr
    · have harchived := archived_readable hA h hread
      rw [hcontent] at harchived
      obtain ⟨hb, hnew, -⟩ | ⟨hb, hleft, -⟩ := hcase
      · exact ⟨_, addRequest_eq_ok.mpr ⟨hadm, .inr ⟨hgone, harchived, .inl ⟨hb, hnew, rfl⟩⟩⟩⟩
      · exact ⟨_, addRequest_eq_ok.mpr ⟨hadm, .inr ⟨hgone, harchived, .inr ⟨hb, hleft, rfl⟩⟩⟩⟩

/-! ## Calls -/

namespace Shelf.Fits

section
variable (h : S.Fits holds sha256 K k)
include h

theorem insert {signers : Table Bytes SignerBond} {backed : List Hash256}
    (hoff : S.content (archiveKey sha256 1 id.bytes) = none) :
    S.Fits holds sha256 K { k with
      signers, reserveBackedRequests := backed, requests := k.requests.insert id r } := by
  refine ⟨h.root, h.before, fun other v hother hv => ?_, h.payouts, h.frauds, h.named⟩
  obtain ⟨r', hr', hclosed, rfl⟩ := h.requests other v hother hv
  refine ⟨r', ?_, hclosed, rfl⟩
  dsimp only
  rw [lookup_insert_ite, if_neg, hr']
  rintro rfl
  rw [hoff] at hv
  cases hv

theorem consume (hnamed : (2, txid.bytes) ∈ K) :
    ({ S with payouts := txid :: S.payouts }).Fits holds sha256 K
      { k with consumedPayouts := txid :: k.consumedPayouts } := by
  refine ⟨h.root, h.before, h.requests, fun other hother => ?_, h.frauds,
    forall_mem_cons.mpr ⟨hnamed, h.named.1⟩, h.named.2⟩
  simp only [mem_cons, h.payouts other hother, or_assoc]

theorem consumeFraud (hnamed : (3, txid.bytes) ∈ K) :
    ({ S with frauds := txid :: S.frauds }).Fits holds sha256 K
      { k with consumedFraudSpends := txid :: k.consumedFraudSpends } := by
  refine ⟨h.root, h.before, h.requests, h.payouts, fun other hother => ?_, h.named.1,
    forall_mem_cons.mpr ⟨hnamed, h.named.2⟩⟩
  simp only [mem_cons, h.frauds other hother, or_assoc]

theorem bonds {signers : Table Bytes SignerBond} {insuranceFundSats : Nat} :
    S.Fits holds sha256 K { k with signers, insuranceFundSats } :=
  ⟨h.root, h.before, h.requests, h.payouts, h.frauds, h.named⟩

theorem wellFormed (hwf : k.WellFormed K) :
    (k.archiving sha256 S).WellFormed K where
  keyed id r hr := hwf.keyed id r (lookup_archiving.mp hr).1
  requests id r hr := hwf.requests id r (lookup_archiving.mp hr).1
  backed id hid := by
    obtain ⟨r, hr, hopen⟩ := hwf.backed id hid
    refine ⟨r, lookup_archiving.mpr ⟨hr, ?_⟩, hopen⟩
    rw [Option.eq_none_iff_forall_ne_some]
    intro v hv
    obtain ⟨r', hr', hclosed, -⟩ := h.requests id v (hwf.requests id r hr).1 hv
    obtain rfl := Option.some.inj (hr.symm.trans hr')
    rw [hopen] at hclosed
    cases hclosed
  payouts := h.named.1
  frauds := h.named.2
  signers := hwf.signers

end

end Shelf.Fits

theorem admitBacked_archiving (hoff : S.content (archiveKey sha256 1 r.requestId.bytes) = none) :
    (k.archiving sha256 S).admitBacked r = (k.admitBacked r).archiving sha256 S := by
  unfold Covenant.admitBacked
  rw [insert_archiving hoff]
  rfl

theorem admitBonded_archiving (hoff : S.content (archiveKey sha256 1 r.requestId.bytes) = none) :
    (k.archiving sha256 S).admitBonded r = (k.admitBonded r).archiving sha256 S := by
  unfold Covenant.admitBonded
  rw [insert_archiving hoff]
  rfl

theorem applySlash_archiving (v : SlashVerdict) :
    (k.archiving sha256 S).applySlash v = (k.applySlash v).archiving sha256 S := by
  unfold Covenant.applySlash
  dsimp only
  rw [apply_ite (fun k : Covenant forgetful => k.archiving sha256 S)]
  rfl

/-- The covenant that keeps everything takes the step as well, and the two fit again. -/
def Mirrored {α : Type} (holds : A.Root → (Hash256 → Option Bytes) → Prop) (sha256 : Bytes → Hash256)
    (K : Set (Nat × Bytes)) (program : CovenantM forgetful α) (k : Covenant forgetful) (v : α) (c' : Covenant A) :
    Prop :=
  ∃ k' S', program k = .ok v k' ∧ c' = k'.archiving sha256 S' ∧ Shelf.Fits holds sha256 K k' S'

variable {v : Option SlashVerdict}

theorem silently_mirrored {program : CovenantM A Unit} {program' : CovenantM forgetful Unit}
    (hstep : ∀ c', program c = .ok () c' → Mirrored holds sha256 K program' k () c')
    (hcall : silently program c = .ok v c') : Mirrored holds sha256 K (silently program') k v c' := by
  obtain ⟨hdone, rfl⟩ := silently_eq_ok.mp hcall
  obtain ⟨k', S', hkept, hrest⟩ := hstep c' hdone
  exact ⟨k', S', silently_eq_ok.mpr ⟨hkept, rfl⟩, hrest⟩

section
variable (hA : A.Sound holds) (h : S.Fits holds sha256 K k)
include hA h

theorem addRequest_kept {reserveBacked : Bool}
    (hadd : addRequest sha256 r reserveBacked (k.archiving sha256 S) = .ok () c') :
    Mirrored holds sha256 K (addRequest sha256 r reserveBacked) k () c' := by
  obtain ⟨hadm, ⟨hsame, hbacked, rfl⟩ | ⟨hnone, harchived, hcase⟩⟩ := addRequest_eq_ok.mp hadd
  · exact ⟨k, S, addRequest_eq_ok.mpr ⟨hadm, .inl ⟨(lookup_archiving.mp hsame).1, hbacked, rfl⟩⟩, rfl, h⟩
  have hoff : S.content (archiveKey sha256 1 r.requestId.bytes) = none :=
    Option.isNone_iff_eq_none.mp
      (Option.isSome_eq_false_iff.mp (archived_archiving hA h harchived).symm)
  have hfresh : k.requests.lookup r.requestId = none := by
    rw [Option.eq_none_iff_forall_ne_some]
    intro r' hr'
    rw [lookup_archiving.mpr ⟨hr', hoff⟩] at hnone
    cases hnone
  obtain ⟨hb, hnew, rfl⟩ | ⟨hb, hleft, rfl⟩ := hcase
  · exact ⟨_, S, addRequest_eq_ok.mpr ⟨hadm, .inr ⟨hfresh, archived_forgetful, .inl ⟨hb, hnew, rfl⟩⟩⟩,
      admitBacked_archiving hoff, h.insert hoff⟩
  · exact ⟨_, S, addRequest_eq_ok.mpr ⟨hadm, .inr ⟨hfresh, archived_forgetful, .inr ⟨hb, hleft, rfl⟩⟩⟩,
      admitBonded_archiving hoff, h.insert hoff⟩

variable (hwf : k.WellFormed K)
include hwf

theorem perform_kept {call : Call} (hnamed : call.Named K) (hblock : call.isBlock = false)
    (hcall : call.perform P sha256 (k.archiving sha256 S) = .ok v c') :
    Mirrored holds sha256 K (call.perform P sha256) k v c' := by
  cases call with
  | register addr bondSats =>
    refine silently_mirrored (fun c' hdone => ?_) hcall
    obtain ⟨hok, hfits, rfl⟩ := register_eq_ok.mp hdone
    exact ⟨_, S, register_eq_ok.mpr ⟨hok, hfits, rfl⟩, rfl, h.bonds⟩
  | activate addr =>
    refine silently_mirrored (fun c' hdone => ?_) hcall
    obtain ⟨hold, s, hs, hbond, rfl⟩ := activate_eq_ok.mp hdone
    exact ⟨_, S, activate_eq_ok.mpr ⟨hold, s, hs, hbond, rfl⟩, rfl, h.bonds⟩
  | addRequest r reserveBacked => exact silently_mirrored (fun _ => addRequest_kept hA h) hcall
  | setStatus id st =>
    refine silently_mirrored (fun c' hdone => ?_) hcall
    obtain ⟨hidle, rfl⟩ | ⟨r, hr, hne, hopen, hst, hcase⟩ := setStatus_eq_ok.mp hdone
    · refine ⟨k, S, setStatus_eq_ok.mpr (.inl ⟨fun r hr => ?_, rfl⟩), rfl, h⟩
      obtain ⟨r', hr', hr''⟩ | ⟨-, ⟨r', hr', hclosed, -⟩ | ⟨hno, -⟩⟩ :=
        request_cases h hwf (hwf.requests id r hr).1
      · exact hidle r (hr''.trans (hr'.symm.trans hr))
      · exact .inr (Option.some.inj (hr'.symm.trans hr) ▸ hclosed)
      · rw [hr] at hno
        cases hno
    · obtain ⟨hr, hoff⟩ := lookup_archiving.mp hr
      obtain ⟨rfl, hrelease, rfl⟩ | ⟨hdefault, rfl⟩ := hcase
      · exact ⟨_, S, setStatus_eq_ok.mpr (.inr ⟨r, hr, hne, hopen, hst, .inl ⟨rfl, hrelease, rfl⟩⟩),
          close_archiving hoff, h.insert hoff⟩
      · refine ⟨_, S, setStatus_eq_ok.mpr (.inr ⟨r, hr, hne, hopen, hst, .inr ⟨hdefault, rfl⟩⟩), ?_,
          h.insert hoff⟩
        rw [insert_archiving hoff]
        rfl
  | markFulfilled id txid sats spk =>
    refine silently_mirrored (fun c' hdone => ?_) hcall
    obtain ⟨r, hr, hpaid, hrelease, rfl⟩ := markFulfilled_eq_ok.mp hdone
    obtain ⟨hr, hoff⟩ := lookup_archiving.mp hr
    exact ⟨_, S, markFulfilled_eq_ok.mpr ⟨r, hr, hpaid, hrelease, rfl⟩, close_archiving hoff, h.insert hoff⟩
  | markAuthorizedReservePayout id txid sats spk =>
    refine silently_mirrored (fun c' hdone => ?_) hcall
    obtain ⟨hzero, hunused, r, hr, hpaid, hrelease, rfl⟩ :=
      markAuthorizedReservePayout_eq_ok.mp hdone
    obtain ⟨hr, hoff⟩ := lookup_archiving.mp hr
    refine ⟨_, { S with payouts := txid :: S.payouts }, markAuthorizedReservePayout_eq_ok.mpr
      ⟨hzero, unused_forgetful hA h hnamed hunused, r, hr, hpaid, hrelease, rfl⟩, ?_,
      (h.insert hoff).consume hnamed.1⟩
    rw [close_archiving hoff]
    rfl
  | resolveProvenPayout proof custodySpk =>
    obtain ⟨r, correct, hr, hopen, hbound, hunused, hcorrect, hrelease, rfl, rfl⟩ :=
      (resolveProvenPayout_eq_ok (h.wellFormed hwf).keyed).mp hcall
    obtain ⟨hr, hoff⟩ := lookup_archiving.mp hr
    refine ⟨_, { S with payouts := proof.payoutTxid :: S.payouts },
      (resolveProvenPayout_eq_ok hwf.keyed).mpr ⟨r, correct, hr, hopen, hbound,
        unused_forgetful hA h hnamed hunused, hcorrect, hrelease, rfl, rfl⟩, ?_,
      (h.insert hoff).consume hnamed.1⟩
    rw [close_archiving hoff]
    rfl
  | consumeFraudSpend txid =>
    refine silently_mirrored (fun c' hdone => ?_) hcall
    obtain ⟨hzero, hunused, rfl⟩ := consumeFraudSpend_eq_ok.mp hdone
    exact ⟨_, { S with frauds := txid :: S.frauds }, consumeFraudSpend_eq_ok.mpr
      ⟨hzero, unused_forgetful hA h hnamed hunused, rfl⟩, rfl, h.consumeFraud hnamed.2⟩
  | applySlash v =>
    refine silently_mirrored (fun c' hdone => ?_) hcall
    obtain rfl := modify_eq_ok.mp hdone
    refine ⟨_, S, modify_eq_ok.mpr rfl, applySlash_archiving v, ?_⟩
    rw [applySlash_frame]
    exact h.bonds
  | beginBlock height | finishBlock => cases hblock

end

/-! ## Blocks -/

section
variable {rows : List (Hash256 × Bytes)} {m : Hash256 → Option Bytes}
  (hm : ∀ key v, m key = some v ↔ S.content key = some v ∨ (key, v) ∈ rows)
include hm

theorem isSome_content :
    (m key).isSome ↔ (S.content key).isSome ∨ ∃ v, (key, v) ∈ rows := by
  simp only [Option.isSome_iff_exists, hm, exists_or]

theorem keep_open_archiving (hwf : k.WellFormed K)
    (hretires : Retires sha256 K (k.archiving sha256 S) rows) :
    Table.keep (fun _ r => !r.status.closed) (k.archiving sha256 S).requests =
      Table.keep (fun id _ => (m (archiveKey sha256 1 id.bytes)).isNone) k.requests := by
  unfold Covenant.archiving
  rw [keep_keep]
  refine keep_congr fun id r hr => ?_
  have hnamed := (hwf.requests id r hr).1
  rw [← Option.not_isSome, ← Option.not_isSome, ← Bool.not_or, Bool.not_inj_iff, Bool.eq_iff_iff,
    Bool.or_eq_true, isSome_content hm]
  cases hcontent : S.content (archiveKey sha256 1 id.bytes) with
  | some v => simp
  | none =>
    simp only [hretires.requests id _ hnamed, lookup_archiving, hr, hcontent, Option.some.injEq,
      Option.isSome_none, Bool.false_eq_true, false_or, or_false, and_true]
    constructor
    · exact fun hclosed => ⟨_, r, rfl, hclosed, rfl⟩
    · rintro ⟨_, _, rfl, hclosed, -⟩
      exact hclosed

end

theorem retire_archiving (hA : A.Sound holds) (h : S.Fits holds sha256 K k) (hwf : k.WellFormed K)
    {root : A.Root} (hrows : archiveRows S.root rows = some root)
    (hretires : Retires sha256 K (k.archiving sha256 S) rows) (signers : Table Bytes SignerBond)
    (insurance : Nat) :
    ∃ S' : Shelf A, ({ ({ k.archiving sha256 S with signers } : Covenant A).retire root with
        stateMigrationActive := true, insuranceFundSats := insurance } : Covenant A) =
      ({ k with
        signers := dropUnlocked signers
        stateMigrationActive := true
        insuranceFundSats := insurance } : Covenant forgetful).archiving sha256 S' ∧
      S'.Fits holds sha256 K { k with
        signers := dropUnlocked signers
        stateMigrationActive := true
        insuranceFundSats := insurance } := by
  obtain ⟨m, hroot, hm⟩ := archiveRows_eq_some hA h.root hrows
  have hbacked : k.reserveBackedRequests.filter (fun id =>
      !(((k.archiving sha256 S).requests.lookup id).any fun r => r.status.closed)) =
      k.reserveBackedRequests := by
    refine filter_eq_self.mpr fun id hid => ?_
    obtain ⟨r, hr, hopen⟩ := (h.wellFormed hwf).backed id hid
    rw [hr, Option.any_some, hopen]
    rfl
  refine ⟨⟨root, m, [], []⟩, ?_, ?_⟩
  · unfold Covenant.retire
    dsimp only
    rw [keep_open_archiving hm hwf hretires]
    simp only [Covenant.archiving, dropUnlocked, Covenant.mk.injEq, true_and, and_true]
    exact hbacked
  · refine ⟨hroot, fun hno => ?_, fun id v hnamed hv => ?_, fun txid hnamed => ?_,
      fun txid hnamed => ?_, ?_⟩
    · cases hno
    · rcases (hm _ v).mp hv with hold | hnew
      · exact h.requests id v hnamed hold
      · obtain ⟨r, hr, hclosed, rfl⟩ := (hretires.requests id v hnamed).mp hnew
        exact ⟨r, (lookup_archiving.mp hr).1, hclosed, rfl⟩
    · refine (h.payouts txid hnamed).trans ?_
      simp only [isSome_content hm, hretires.payouts txid _ hnamed, exists_eq_left]
      simp [or_comm, Covenant.archiving]
    · refine (h.frauds txid hnamed).trans ?_
      simp only [isSome_content hm, hretires.frauds txid _ hnamed, exists_eq_left]
      simp [or_comm, Covenant.archiving]
    · simp

section
variable (hinj : Set.InjOn (fun i : Nat × Bytes => archiveKey sha256 i.1 i.2) K)
  (hA : A.Sound holds) (h : S.Fits holds sha256 K k) (hwf : k.WellFormed K)
include hinj hA h hwf

theorem beginBlock_kept (hfund : (5, ascii "legacy-insurance") ∈ K) {height : Nat}
    (hcall : beginBlock sha256 P height (k.archiving sha256 S) = .ok () c') :
    Mirrored holds sha256 K (beginKept P height) k () c' := by
  obtain ⟨hphase, rfl⟩ | ⟨hafter, hbefore, root, hroot, rfl⟩ := beginBlock_eq_ok hcall
  · exact ⟨k, S, beginKept_idle hphase, rfl, h⟩
  · obtain ⟨S', heq, hfits⟩ := retire_archiving hA h hwf hroot
      (retires_migrationRows hinj (h.wellFormed hwf) hfund) (deactivate k.signers) 0
    exact ⟨_, S', beginKept_migrates hafter hbefore, heq, hfits⟩

theorem finishBlock_kept (hcall : finishBlock sha256 (k.archiving sha256 S) = .ok () c') :
    Mirrored holds sha256 K finishKept k () c' := by
  obtain ⟨hbefore, rfl⟩ | ⟨hactive, root, hroot, rfl⟩ := finishBlock_eq_ok hcall
  · exact ⟨k, S, finishKept_idle hbefore, rfl, h⟩
  · obtain ⟨S', heq, hfits⟩ := retire_archiving hA h hwf hroot
      (retires_blockRows hinj (h.wellFormed hwf)) k.signers k.insuranceFundSats
    change k.stateMigrationActive = true at hactive
    rw [← hactive] at heq hfits
    exact ⟨_, S', finishKept_active hactive, heq, hfits⟩

/-- Every call that the first covenant accepts is accepted by the other one, with the same result. -/
theorem performKept_of_perform {call : Call} (hnamed : call.Named K)
    (hcall : call.perform P sha256 (k.archiving sha256 S) = .ok v c') :
    Mirrored holds sha256 K (call.performKept P sha256) k v c' := by
  cases hblock : call.isBlock with
  | false =>
    rw [Call.performKept_eq hblock]
    exact perform_kept hA h hwf hnamed hblock hcall
  | true =>
    cases call with
    | beginBlock height => exact silently_mirrored (fun _ => beginBlock_kept hinj hA h hwf hnamed) hcall
    | finishBlock => exact silently_mirrored (fun _ => finishBlock_kept hinj hA h hwf) hcall
    | _ => cases hblock

theorem run_kept {trace : List (Call × Option SlashVerdict)}
    (hnamed : ∀ step ∈ trace, step.1.Named K)
    (hrun : Run (Call.perform P sha256) (k.archiving sha256 S) trace c') :
    ∃ k' S', Run (Call.performKept P sha256) k trace k' ∧ c' = k'.archiving sha256 S' ∧
      S'.Fits holds sha256 K k' ∧ k'.WellFormed K := by
  generalize hstart : k.archiving sha256 S = c at hrun
  induction hrun generalizing k S with
  | nil c => exact ⟨k, S, .nil k, hstart.symm, h, hwf⟩
  | cons hcall _ ih =>
    subst hstart
    obtain ⟨hfirst, hrest⟩ := forall_mem_cons.mp hnamed
    obtain ⟨k₁, S₁, hkept, rfl, hfits⟩ := performKept_of_perform hinj hA h hwf hfirst hcall
    obtain ⟨k', S', hrun', hdone⟩ := ih hfits (performKept_wellFormed hwf hfirst hkept) hrest rfl
    exact ⟨k', S', .cons hkept hrun', hdone⟩

end

/-! ## Every run -/

/-- The covenant as one that keeps everything, before anything is archived. -/
def Covenant.kept (c : Covenant A) : Covenant forgetful where
  signers := c.signers
  requests := c.requests
  consumedPayouts := c.consumedPayouts
  consumedFraudSpends := c.consumedFraudSpends
  reserveBackedRequests := c.reserveBackedRequests
  insuranceFundSats := c.insuranceFundSats
  archiveRoot := ()
  stateMigrationActive := c.stateMigrationActive

/-- Nothing is archived yet. -/
def Covenant.Unarchived (c : Covenant A) : Prop :=
  c.stateMigrationActive = false ∧ c.archiveRoot = A.emptyRoot

theorem kept_archiving (sha256 : Bytes → Hash256) (hstart : c.Unarchived) :
    c.kept.archiving sha256 ⟨A.emptyRoot, fun _ => none, c.consumedPayouts, c.consumedFraudSpends⟩ =
      c := by
  unfold Covenant.archiving Covenant.kept
  rw [← hstart.2]
  have hall : Table.keep (fun _ _ => Option.isNone (none : Option Bytes)) c.requests = c.requests :=
    keep_true c.requests
  dsimp only
  rw [hall]

theorem kept_fits (hA : A.Sound holds) (hwf : c.WellFormed K) :
    Shelf.Fits holds sha256 K c.kept
      ⟨A.emptyRoot, fun _ => none, c.consumedPayouts, c.consumedFraudSpends⟩ := by
  refine ⟨hA.empty, fun _ => rfl, fun id v _ hv => ?_, fun txid _ => ?_, fun txid _ => ?_, hwf.payouts,
    hwf.frauds⟩
  · cases hv
  · simp [Covenant.kept]
  · simp [Covenant.kept]

/-- Two covenants answer every question about named records alike. -/
structure SameAnswers (sha256 : Bytes → Hash256) (K : Set (Nat × Bytes)) (c : Covenant A)
    (k : Covenant forgetful) : Prop where
  request : ∀ id, (1, id.bytes) ∈ K →
    SameAnswer (getCopy sha256 id) (getCopy sha256 id) c k (c.Readable sha256 1 id)
  payout : ∀ txid, (2, txid.bytes) ∈ K →
    SameAnswer (isConsumedPayout sha256 txid) (isConsumedPayout sha256 txid) c k
      (c.Readable sha256 2 txid)
  fraud : ∀ txid, (3, txid.bytes) ∈ K →
    SameAnswer (isConsumedFraudSpend sha256 txid) (isConsumedFraudSpend sha256 txid) c k
      (c.Readable sha256 3 txid)
  admitted : ∀ r reserveBacked c', (1, r.requestId.bytes) ∈ K →
    addRequest sha256 r reserveBacked c = .ok () c' →
      ∃ k', addRequest sha256 r reserveBacked k = .ok () k'
  admits : ∀ r reserveBacked k', (1, r.requestId.bytes) ∈ K → c.Readable sha256 1 r.requestId →
    addRequest sha256 r reserveBacked k = .ok () k' →
      ∃ c', addRequest sha256 r reserveBacked c = .ok () c'
  due : ∀ height, c.dueForDefault height = k.dueForDefault height

theorem Shelf.Fits.sameAnswers (hA : A.Sound holds) (h : S.Fits holds sha256 K k)
    (hwf : k.WellFormed K) : SameAnswers sha256 K (k.archiving sha256 S) k where
  request _ hnamed := getCopy_same hA h hwf hnamed
  payout _ hnamed := isConsumedPayout_same hA h hnamed
  fraud _ hnamed := isConsumedFraudSpend_same hA h hnamed
  admitted _ _ _ _ hadd := (addRequest_kept hA h hadd).imp fun _ ⟨_, hkept, _⟩ => hkept
  admits _ _ _ hnamed hread hadd := addRequest_readable hA h hwf hnamed hread hadd
  due := dueForDefault_archiving h hwf

end

/-- **The archive is invisible.** Whatever a covenant does before and after its records move to the
archive, a covenant that never archives does the same, with the same results, and both give the same
answers. The store may fail at any time; the hash tells the records of the store and the records of
the run apart. -/
theorem archive_invisible {P : Profile} {sha256 : Bytes → Hash256} {B : Archive.Backend}
    {W : Set Bytes} {K : Set (Nat × Bytes)}
    (hrecords : Set.InjOn (Archive.hashRecord sha256) W) (hstore : B.Within W)
    (hkeys : Set.InjOn (fun i : Nat × Bytes => archiveKey sha256 i.1 i.2) K)
    {start c : Covenant (Archive.archive sha256 B)} (hstart : start.Unarchived)
    (hwf : start.WellFormed K) {trace : List (Call × Option SlashVerdict)}
    (hnamed : ∀ step ∈ trace, step.1.Named K) (hrun : Run (Call.perform P sha256) start trace c) :
    ∃ k, Run (Call.performKept P sha256) start.kept trace k ∧ SameAnswers sha256 K c k := by
  have hA := Archive.archive_sound hrecords hstore
  rw [← kept_archiving sha256 hstart] at hrun
  obtain ⟨k, S, hkept, rfl, hfits, hwf'⟩ :=
    run_kept hkeys hA (kept_fits hA hwf) ⟨hwf.1, hwf.2, hwf.3, hwf.4, hwf.5, hwf.6⟩ hnamed hrun
  exact ⟨k, hkept, hfits.sameAnswers hA hwf'⟩

/-! A run that archives a paid request. -/

def memory (W : List Bytes) : Archive.Backend where
  Store := List (Hash256 × Bytes)
  initial := []
  available := true
  read store hash := ((store.find? fun row => row.1 = hash).map (·.2)).filter (· ∈ W)
  write store records := if ∀ row ∈ records, row.2 ∈ W then some (records ++ store) else none

theorem memory_within (W : List Bytes) : (memory W).Within { record | record ∈ W } where
  read_mem h := of_decide_eq_true (Option.filter_eq_some_iff.mp h).2
  write_mem h := by
    simp only [memory] at h
    split at h
    · assumption
    · cases h

/-- A hash that tells strings of different lengths apart. -/
def lengthHash (bs : Bytes) : Hash256 := ⟨UInt8.ofNat bs.length :: List.replicate 31 1, by simp⟩

def paidRequest : RedeemRequest where
  requestId := .ones
  amountSats := 5000
  destSpk := [0x51]
  requestHeight := 1
  deadlineHeight := 2
  status := .fulfilled
  fulfilledTxid := .fill 2
  veldRecipient := [0x61]
  btcObservedHeight := 0

/-- The two leaves of the archive and the branch above them. -/
def paidRecords : List Bytes :=
  let fund := archiveKey lengthHash 5 (ascii "legacy-insurance")
  let paid := archiveKey lengthHash 1 paidRequest.requestId.bytes
  let first := Archive.stage lengthHash [] (Archive.leafRecord fund (putLE 8 0))
  let second := Archive.stagePath lengthHash paid (encodeRequest paidRequest)
    ((Archive.splitOf paid fund).getD 0) [] first.child
  (first.records ++ second.records).map (·.2)

def paidNames : List (Nat × Bytes) :=
  [(5, ascii "legacy-insurance"), (1, paidRequest.requestId.bytes)]

def paidCovenant : Covenant (Archive.archive lengthHash (memory paidRecords)) :=
  { Covenant.empty _ with
    requests := (∅ : Table Hash256 RedeemRequest).insert paidRequest.requestId paidRequest }

theorem paidCovenant_lookup {id : Hash256} {r : RedeemRequest}
    (hr : paidCovenant.requests.lookup id = some r) : id = paidRequest.requestId ∧ r = paidRequest := by
  obtain hrow | ⟨-, hr⟩ := lookup_insert_eq_some.mp hr
  · exact hrow
  · cases hr

theorem paidCovenant_wellFormed : paidCovenant.WellFormed { i | i ∈ paidNames } where
  keyed id r hr := by
    obtain ⟨rfl, rfl⟩ := paidCovenant_lookup hr
    rfl
  requests id r hr := by
    obtain ⟨rfl, rfl⟩ := paidCovenant_lookup hr
    exact ⟨by simp [paidNames], by constructor <;> decide⟩
  backed := by simp [paidCovenant, Covenant.empty]
  payouts := by simp [paidCovenant, Covenant.empty]
  frauds := by simp [paidCovenant, Covenant.empty]
  signers addr s hs := by cases hs

theorem paidCovenant_migrates :
    ∃ c, beginBlock lengthHash Profile.sample 3840 paidCovenant = .ok () c := by
  have hok : (match beginBlock lengthHash Profile.sample 3840 paidCovenant with
    | .ok _ _ => true
    | .error _ _ => false) = true := by decide +kernel
  split at hok
  · rename_i c hc
    exact ⟨c, hc⟩
  · cases hok

theorem archive_invisible_paid :
    ∃ c k, Run (Call.perform Profile.sample lengthHash) paidCovenant [(.beginBlock 3840, none)] c ∧
      Run (Call.performKept Profile.sample lengthHash) paidCovenant.kept [(.beginBlock 3840, none)] k ∧
      SameAnswers lengthHash { i | i ∈ paidNames } c k := by
  obtain ⟨c, hc⟩ := paidCovenant_migrates
  have hrecords : ∀ a ∈ paidRecords, ∀ b ∈ paidRecords,
      Archive.hashRecord lengthHash a = Archive.hashRecord lengthHash b → a = b := by decide +kernel
  have hkeys : ∀ i ∈ paidNames, ∀ j ∈ paidNames,
      archiveKey lengthHash i.1 i.2 = archiveKey lengthHash j.1 j.2 → i = j := by decide +kernel
  have hrun : Run (Call.perform Profile.sample lengthHash) paidCovenant [(.beginBlock 3840, none)] c :=
    .cons (silently_eq_ok.mpr ⟨hc, rfl⟩) (.nil c)
  obtain ⟨k, hkept, hsame⟩ := archive_invisible (fun a ha b hb => hrecords a ha b hb)
    (memory_within paidRecords) (fun i hi j hj => hkeys i hi j hj) ⟨rfl, rfl⟩ paidCovenant_wellFormed
    (forall_mem_singleton.mpr mem_cons_self) hrun
  exact ⟨c, k, hrun, hkept, hsame⟩

end Veld.Btcveld
