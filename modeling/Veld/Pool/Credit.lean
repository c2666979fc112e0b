import Veld.Lib.Wire
import Veld.Pool.Coordinator

/-!
# Work of the pool is credited once

Over every run of the coordinator, with crashes at every append and restarts from the journal: the ranges that the
journal leases for a template do not overlap, and a share has one receipt and is credited at most once.
-/

namespace Veld.Pool

open Wire List Table Option

/-! ## Events in their order -/

/-- What an event asks of the tables before it. -/
def Appendable (p : Projection) : PoolEvent → Prop
  | .lease l => p.mark l.template ≤ l.start ∧ l.start ≤ l.stop
  | .receipt identity _ _ => p.receipts.lookup identity = none
  | .verification identity status =>
    ∃ r, p.receipts.lookup identity = some r ∧ r.status.waiting ∧ status ≠ .pending
  | _ => True

/-- A journal whose every event is appendable, with its projection. -/
inductive Ordered : List PoolEvent → Projection → Prop where
  | nil : Ordered [] .empty
  | append {history : List PoolEvent} {p p' : Projection} {e : PoolEvent} (ordered : Ordered history p)
    (appendable : Appendable p e) (applied : p.apply e = some p') : Ordered (history ++ [e]) p'

/-- Events that can be appended one after the other. -/
def Fits : Projection → List PoolEvent → Prop
  | _, [] => True
  | p, e :: rest => Appendable p e ∧ ∃ p', p.apply e = some p' ∧ Fits p' rest

variable {history events : List PoolEvent} {p p' : Projection} {e : PoolEvent}

theorem Ordered.extend (h : Ordered history p) (hfits : Fits p events) {part : List PoolEvent}
    (hpart : part <+: events) :
    ∃ p', Ordered (history ++ part) p' ∧ part.foldlM Projection.apply p = some p' := by
  induction part generalizing history p events with
  | nil =>
    rw [append_nil]
    exact ⟨p, h, rfl⟩
  | cons e rest ih =>
    obtain ⟨after, rfl⟩ := hpart
    obtain ⟨happendable, p₁, happly, hrest⟩ := hfits
    obtain ⟨p', hordered, hfold⟩ := ih (.append h happendable happly) hrest (prefix_append rest after)
    rw [append_assoc, singleton_append] at hordered
    refine ⟨p', hordered, ?_⟩
    rw [foldlM_cons, happly]
    exact hfold

theorem Ordered.replay (h : Ordered history p) : replayEvents history = some p := by
  induction h with
  | nil => rfl
  | append ordered appendable applied ih =>
    rw [replayEvents, foldlM_append, ← replayEvents, ih]
    simpa using applied

/-! ## What an ordered journal says -/

def PoolEvent.asLease : PoolEvent → Option NonceLease
  | .lease l => some l
  | _ => none

def PoolEvent.received : PoolEvent → Option Identity
  | .receipt identity _ _ => some identity
  | _ => none

def PoolEvent.credited : PoolEvent → Option Identity
  | .verification identity .verified => some identity
  | _ => none

def leasesOf (history : List PoolEvent) : List NonceLease := history.filterMap PoolEvent.asLease

/-- The ranges of one template follow each other. -/
def Before (a b : NonceLease) : Prop := a.template = b.template → a.stop ≤ b.start

def creditedShares (p : Projection) (account : String) : Int :=
  Table.total (fun r : Receipt => if r.account = account ∧ r.status = .verified then (1 : Int) else 0) p.receipts

/-- What holds of an ordered journal and its tables. -/
structure Audited (history : List PoolEvent) (p : Projection) : Prop where
  ranges : ∀ l ∈ leasesOf history, l.start ≤ l.stop
  leases : (leasesOf history).Pairwise Before
  marks : ∀ l ∈ leasesOf history, l.stop ≤ p.mark l.template
  receipts : (history.filterMap PoolEvent.received).Nodup
  known : ∀ identity ∈ history.filterMap PoolEvent.received, (p.receipts.lookup identity).isSome
  credited : (history.filterMap PoolEvent.credited).Nodup
  verified : ∀ identity ∈ history.filterMap PoolEvent.credited,
    ∃ r, p.receipts.lookup identity = some r ∧ r.status = .verified
  counts : ∀ account, (p.verifiedCounts.lookup account).getD 0 = creditedShares p account

theorem Audited.empty : Audited [] .empty where
  ranges _ h := nomatch h
  leases := .nil
  marks _ h := nomatch h
  receipts := nodup_nil
  known _ h := nomatch h
  credited := nodup_nil
  verified _ h := nomatch h
  counts _ := rfl

section

variable {α β : Type} {f : α → Option β} {l : List α} {a : α}

theorem filterMap_concat : (l ++ [a]).filterMap f = l.filterMap f ++ (f a).toList := by
  cases h : f a <;> simp [h]

theorem forall_mem_concat {P : β → Prop} (h : ∀ b ∈ l.filterMap f, P b) (hlast : ∀ b, f a = some b → P b) :
    ∀ b ∈ (l ++ [a]).filterMap f, P b := by
  intro b hb
  rw [filterMap_concat, mem_append, mem_toList] at hb
  exact hb.elim (h b) (hlast b)

theorem pairwise_concat {R : β → β → Prop} (h : (l.filterMap f).Pairwise R)
    (hlast : ∀ b, f a = some b → ∀ b' ∈ l.filterMap f, R b' b) : ((l ++ [a]).filterMap f).Pairwise R := by
  rw [filterMap_concat, pairwise_append]
  refine ⟨h, ?_, fun b' hb' b hb => hlast b (mem_toList.mp hb) b' hb'⟩
  cases f a <;> simp

end

def Projection.Verified (p : Projection) (identity : Identity) : Prop :=
  ∃ r, p.receipts.lookup identity = some r ∧ r.status = .verified

theorem Audited.step (h : Audited history p)
    (hlease : ∀ l, e.asLease = some l → p.mark l.template ≤ l.start ∧ l.start ≤ l.stop ∧ l.stop ≤ p'.mark l.template)
    (hmark : ∀ template, p.mark template ≤ p'.mark template)
    (hreceived : ∀ identity, e.received = some identity →
      p.receipts.lookup identity = none ∧ (p'.receipts.lookup identity).isSome)
    (hknown : ∀ identity, (p.receipts.lookup identity).isSome → (p'.receipts.lookup identity).isSome)
    (hcredited : ∀ identity, e.credited = some identity → ¬p.Verified identity ∧ p'.Verified identity)
    (hverified : ∀ identity, p.Verified identity → p'.Verified identity)
    (hcounts : ∀ account, (p'.verifiedCounts.lookup account).getD 0 = creditedShares p' account) :
    Audited (history ++ [e]) p' where
  ranges := forall_mem_concat h.ranges fun l hl => (hlease l hl).2.1
  leases := pairwise_concat h.leases fun l hl l' hl' heq => (h.marks l' hl').trans (heq ▸ (hlease l hl).1)
  marks := forall_mem_concat (fun l hl => (h.marks l hl).trans (hmark l.template)) fun l hl => (hlease l hl).2.2
  receipts := pairwise_concat h.receipts fun identity hnew identity' hmem heq => by
    have hold := h.known identity' hmem
    rw [heq, (hreceived identity hnew).1] at hold
    cases hold
  known := forall_mem_concat (fun identity hmem => hknown identity (h.known identity hmem)) fun identity hnew =>
    (hreceived identity hnew).2
  credited := pairwise_concat h.credited fun identity hnew identity' hmem heq =>
    (hcredited identity hnew).1 (heq ▸ h.verified identity' hmem)
  verified := forall_mem_concat (fun identity hmem => hverified identity (h.verified identity hmem))
    fun identity hnew =>
    (hcredited identity hnew).2
  counts := hcounts

variable {l : NonceLease}

theorem Audited.lease (h : Audited history p) (hl : p.mark l.template ≤ l.start ∧ l.start ≤ l.stop) :
    Audited (history ++ [.lease l]) { p with
      leases := p.leases.insert l.id l
      highwater := p.highwater.insert l.template (max (p.mark l.template) l.stop) } := by
  -- the mark of the template goes up to the end of the range
  refine h.step (fun l' hl' => ?_) (fun template => ?_) nofun (fun _ => id) nofun (fun _ => id) h.counts
  · cases hl'
    refine ⟨hl.1, hl.2, ?_⟩
    rw [Projection.mark, AList.lookup_insert]
    exact le_max_right _ _
  · rw [Projection.mark, Projection.mark, lookup_insert_ite]
    split_ifs with heq
    · exact heq ▸ le_max_left _ _
    · exact le_rfl

variable {identity : Identity}
variable {account : String}

theorem Audited.receipt {lease : String} (h : Audited history p)
    (hfresh : p.receipts.lookup identity = none) :
    Audited (history ++ [.receipt identity account lease]) { p with
      receipts := p.receipts.insert identity ⟨account, lease, .pending⟩
      unverifiedCount := p.unverifiedCount + 1 } := by
  refine h.step nofun (fun _ => le_rfl) (fun identity' hnew => ?_) (fun identity' hknown => ?_) nofun
    (fun identity' => ?_)
    fun account' => ?_
  · cases hnew
    exact ⟨hfresh, by rw [AList.lookup_insert]; rfl⟩
  · rw [lookup_insert_ite]
    split_ifs
    · rfl
    · exact hknown
  · rintro ⟨r, hr, hstatus⟩
    refine ⟨r, lookup_insert_eq_some.mpr (.inr ⟨?_, hr⟩), hstatus⟩
    rintro rfl
    rw [hfresh] at hr
    cases hr
  · refine (h.counts account').trans ?_
    rw [creditedShares, creditedShares, total_insert_of_fresh hfresh, if_neg (fun hverified => nomatch hverified.2),
      add_zero]

variable {status : Status}
variable {r : Receipt}

theorem Audited.verification (h : Audited history p) (hr : p.receipts.lookup identity = some r)
    (hwaiting : r.status.waiting)
    (happly : p.apply (.verification identity status) = some p') :
    Audited (history ++ [.verification identity status]) p' := by
  have hunverified : r.status ≠ .verified := by
    intro hverified
    rw [hverified] at hwaiting
    cases hwaiting
  simp only [Projection.apply, hr, Option.some.injEq] at happly
  subst happly
  -- the share was not credited before
  have hnew : ¬p.Verified identity := by
    rintro ⟨r', hr', hverified⟩
    exact hunverified (Option.some.inj (hr'.symm.trans hr) ▸ hverified)
  refine h.step nofun (fun _ => le_rfl) nofun (fun identity' hknown => ?_) (fun identity' hcredited => ?_)
    (fun identity' => ?_) fun account => ?_
  · rw [lookup_insert_ite]
    split_ifs
    · rfl
    · exact hknown
  · cases status with
    | verified =>
      cases hcredited
      exact ⟨hnew, _, AList.lookup_insert _, rfl⟩
    | _ => cases hcredited
  · rintro ⟨r', hr', hverified⟩
    refine ⟨r', lookup_insert_eq_some.mpr (.inr ⟨?_, hr'⟩), hverified⟩
    rintro rfl
    exact hnew ⟨r', hr', hverified⟩
  · have htotal := total_insert_of_lookup (v := { r with status })
      (f := fun r : Receipt => if r.account = account ∧ r.status = .verified then (1 : Int) else 0) hr
    have hold := h.counts account
    unfold creditedShares at hold ⊢
    rw [lookup_insert_ite]
    dsimp only at htotal ⊢
    by_cases haccount : account = r.account
    · rw [if_pos haccount, getD_some, ← haccount, hold, if_neg hunverified]
      simp only [haccount, true_and, if_neg hunverified] at htotal ⊢
      rw [sub_zero, ← htotal, add_zero]
    · rw [if_neg haccount, hold]
      have hne : ¬ r.account = account := fun heq => haccount heq.symm
      simp only [hne, false_and, if_false, add_zero] at htotal
      exact htotal.symm

theorem Ordered.audited (h : Ordered history p) : Audited history p := by
  induction h with
  | nil => exact .empty
  | @append history p p' e ordered appendable applied ih =>
    cases e with
    | job jobId template =>
      cases applied
      exact ih.step nofun (fun _ => le_rfl) nofun (fun _ => id) nofun (fun _ => id) ih.counts
    | lease l =>
      cases applied
      exact ih.lease appendable
    | receipt identity account lease =>
      cases applied
      exact ih.receipt appendable
    | verification identity status =>
      obtain ⟨r, hr, hwaiting, -⟩ := appendable
      exact ih.verification hr hwaiting applied
    | other =>
      cases applied
      exact ih.step nofun (fun _ => le_rfl) nofun (fun _ => id) nofun (fun _ => id) ih.counts

/-! ## The operations -/

theorem fits_leaseRanges (account job : String) {template : String} (count : Nat) (ids : List String) {start : Nat}
    (hmark : p.mark template ≤ start) : Fits p ((leaseRanges account job template count ids start).map .lease) := by
  induction ids generalizing p start with
  | nil => trivial
  | cons id ids ih =>
    refine ⟨⟨hmark, Nat.le_add_right _ _⟩, _, rfl, ih ?_⟩
    unfold Projection.mark
    dsimp only
    rw [lookup_insert_ite, if_pos rfl, getD_some]
    exact max_le (hmark.trans (Nat.le_add_right _ _)) le_rfl

theorem fits_deferred {identities : List Identity} (hnodup : identities.Nodup)
    (hpending : ∀ identity ∈ identities, ∃ r, p.receipts.lookup identity = some r ∧ r.status = .pending) :
    Fits p (identities.map (.verification · .deferred)) := by
  induction identities generalizing p with
  | nil => trivial
  | cons identity rest ih =>
    rw [nodup_cons] at hnodup
    obtain ⟨r, hr, hstatus⟩ := hpending identity mem_cons_self
    have happly : ∃ p', p.apply (.verification identity .deferred) = some p' ∧
        p'.receipts = p.receipts.insert identity { r with status := .deferred } := by
      simp only [Projection.apply, hr]
      exact ⟨_, rfl, rfl⟩
    obtain ⟨p', happly, hreceipts⟩ := happly
    refine ⟨⟨r, hr, by rw [hstatus]; rfl, nofun⟩, p', happly, ih hnodup.2 fun identity' hmem => ?_⟩
    obtain ⟨r', hr', hstatus'⟩ := hpending identity' (mem_cons_of_mem _ hmem)
    refine ⟨r', ?_, hstatus'⟩
    rw [hreceipts, lookup_insert_ite, if_neg, hr']
    rintro rfl
    exact hnodup.1 hmem

theorem fits_pending (p : Projection) : Fits p (p.pending.map (.verification · .deferred)) := by
  refine fits_deferred ?_ fun identity hmem => ?_
  · exact p.receipts.nodupKeys.sublist filter_sublist
  · obtain ⟨row, hrow, rfl⟩ := mem_map.mp hmem
    obtain ⟨hentry, hstatus⟩ := mem_filter.mp hrow
    exact ⟨row.2, lookup_of_mem hentry, of_decide_eq_true hstatus⟩

/-- A running coordinator on its journal: its tables are those of the journal, a verification that runs has its receipt
waiting, and the leases in reserve are in the journal. -/
structure Sound (history : List PoolEvent) (c : Coordinator) : Prop where
  ordered : Ordered history c.projection
  running : ∀ {identity}, c.inflight.lookup identity = some false →
    ∃ r, c.projection.receipts.lookup identity = some r ∧ r.status.waiting
  reserve : ∀ entry ∈ c.leaseReserve, ∀ l ∈ entry.2, .lease l ∈ history

/-- What an operation may do: events that fit, verifications that run on waiting receipts, and leases of the journal or
of the batch. -/
structure Planned (history : List PoolEvent) (c : Coordinator) (events : List PoolEvent) (c' : Coordinator)
    (lease : Option NonceLease) : Prop where
  projection : c'.projection = c.projection
  fits : Fits c.projection events
  running : ∀ {p' identity}, events.foldlM Projection.apply c.projection = some p' →
    c'.inflight.lookup identity = some false → ∃ r, p'.receipts.lookup identity = some r ∧ r.status.waiting
  reserve : ∀ entry ∈ c'.leaseReserve, ∀ l ∈ entry.2, .lease l ∈ history ++ events
  lease : ∀ {l}, lease = some l → .lease l ∈ history ++ events

variable {key : String × String × Nat}

theorem mem_keepReserve {others : List ((String × String × Nat) × List NonceLease)}
    {rest : List NonceLease} {entry : (String × String × Nat) × List NonceLease}
    (h : entry ∈ keepReserve others key rest) : entry ∈ others ∨ entry = (key, rest) := by
  unfold keepReserve at h
  dsimp only at h
  split_ifs at h
  · exact .inl h
  · exact (mem_append.mp (mem_of_mem_tail h)).imp_right mem_singleton.mp
  · exact (mem_append.mp h).imp_right mem_singleton.mp

variable {c c' : Coordinator} {lease : Option NonceLease}

theorem Sound.planned (h : Sound history c) (hprojection : c'.projection = c.projection)
    (hfits : Fits c.projection events) (hinflight : c'.inflight = c.inflight)
    (hreceipts : ∀ {p'}, events.foldlM Projection.apply c.projection = some p' → p'.receipts = c.projection.receipts)
    (hreserve : ∀ entry ∈ c'.leaseReserve, ∀ l ∈ entry.2, .lease l ∈ history ++ events)
    (hlease : ∀ {l}, lease = some l → .lease l ∈ history ++ events) : Planned history c events c' lease where
  projection := hprojection
  fits := hfits
  running hfold hrunning := by
    rw [hreceipts hfold]
    exact h.running (hinflight ▸ hrunning)
  reserve := hreserve
  lease := hlease

variable {leases : List NonceLease}

theorem receipts_of_leases (h : (leases.map .lease).foldlM Projection.apply p = some p') :
    p'.receipts = p.receipts := by
  induction leases generalizing p with
  | nil =>
    cases h
    rfl
  | cons l rest ih =>
    rw [map_cons, foldlM_cons] at h
    obtain ⟨p₁, happly, hrest⟩ := bind_eq_some.mp h
    cases happly
    have hreceipts := ih hrest
    exact hreceipts

theorem popReserve_mem (h : l ∈ (c.popReserve key).1) : ∃ entry ∈ c.leaseReserve, l ∈ entry.2 := by
  unfold Coordinator.popReserve at h
  cases hfind : c.leaseReserve.find? (·.1 = key) with
  | none =>
    rw [hfind] at h
    cases h
  | some entry =>
    rw [hfind] at h
    exact ⟨entry, mem_of_find?_eq_some hfind, h⟩

section
variable (h : Sound history c)
include h

theorem planned_work {count : Nat} {ids : List String}
    (hplan : (Operation.work account count ids).plan c = some (events, c', lease)) :
    Planned history c events c' lease := by
  unfold Operation.plan at hplan
  simp only [bind_eq_some, guard_eq_some', exists_const] at hplan
  obtain ⟨-, job, -, template, -, hplan⟩ := hplan
  have hothers {entry : (String × String × Nat) × List NonceLease}
      (hmem : entry ∈ (c.popReserve (job, account, count)).2) : ∀ l ∈ entry.2, .lease l ∈ history :=
    h.reserve entry (mem_filter.mp hmem).1
  cases hreserve : (c.popReserve (job, account, count)).1 with
  | cons first rest =>
    simp only [hreserve, pure_eq_some, Prod.mk.injEq] at hplan
    obtain ⟨rfl, rfl, rfl⟩ := hplan
    have hmem {l : NonceLease} (hl : l ∈ first :: rest) : .lease l ∈ history := by
      obtain ⟨entry, hentry, hin⟩ := popReserve_mem (hreserve ▸ hl)
      exact h.reserve entry hentry l hin
    rw [← append_nil history] at hmem hothers
    refine h.planned rfl trivial rfl (fun hfold => by cases hfold; rfl) (fun entry hentry => ?_) fun hl => ?_
    · rcases mem_keepReserve hentry with hold | rfl
      · exact hothers hold
      · exact fun l hl => hmem (mem_cons_of_mem _ hl)
    · cases hl
      exact hmem mem_cons_self
  | nil =>
    simp only [hreserve, bind_eq_some, guard_eq_some', exists_const] at hplan
    obtain ⟨-, -, hplan⟩ := hplan
    have hfits := fits_leaseRanges account job count ids (le_refl (c.projection.mark template))
    cases hranges : leaseRanges account job template count ids (c.projection.mark template) with
    | nil =>
      simp only [hranges] at hplan
      cases hplan
    | cons first rest =>
      simp only [hranges, pure_eq_some, Prod.mk.injEq] at hplan hfits
      obtain ⟨rfl, rfl, rfl⟩ := hplan
      have hmem {l : NonceLease} (hl : l ∈ first :: rest) : .lease l ∈ history ++ (first :: rest).map .lease :=
        mem_append_right _ (mem_map_of_mem hl)
      refine h.planned rfl hfits rfl receipts_of_leases (fun entry hentry => ?_) fun hl => ?_
      · rcases mem_keepReserve hentry with hold | rfl
        · exact fun l hl => mem_append_left _ (hothers hold l hl)
        · exact fun l hl => hmem (mem_cons_of_mem _ hl)
      · cases hl
        exact hmem mem_cons_self

theorem Sound.marks {recorded : Bool} (hfits : Fits c.projection events)
    (hstart : recorded = false → ∀ {p'}, events.foldlM Projection.apply c.projection = some p' →
      ∃ r, p'.receipts.lookup identity = some r ∧ r.status.waiting)
    (hothers : ∀ {p' identity'}, events.foldlM Projection.apply c.projection = some p' → identity' ≠ identity →
      p'.receipts.lookup identity' = c.projection.receipts.lookup identity') :
    Planned history c events { c with inflight := c.inflight.insert identity recorded } none where
  projection := rfl
  fits := hfits
  running {p' identity'} hfold hrunning := by
    obtain ⟨rfl, hrecorded⟩ | ⟨hne, hrunning⟩ := lookup_insert_eq_some.mp hrunning
    · exact hstart hrecorded.symm hfold
    · rw [hothers hfold hne]
      exact h.running hrunning
  reserve entry hentry l hl := mem_append_left _ (h.reserve entry hentry l hl)
  lease hnone := nomatch hnone

theorem Sound.restarts (hr : c.projection.receipts.lookup identity = some r)
    (hdeferred : r.status = .deferred) :
    Planned history c [] { c with inflight := c.inflight.insert identity false } none := by
  refine h.marks trivial (fun _ p' hfold => ?_) fun hfold _ => ?_
  · cases hfold
    exact ⟨r, hr, by rw [hdeferred]; rfl⟩
  · cases hfold
    rfl

theorem planned_submit {leaseId : String} {nonce : Nat} {current : Bool}
    (hplan : (Operation.submit account leaseId nonce current).plan c = some (events, c', lease)) :
    Planned history c events c' lease := by
  unfold Operation.plan at hplan
  simp only [bind_eq_some, guard_eq_some', exists_const] at hplan
  obtain ⟨l, -, -, template, -, -, hplan⟩ := hplan
  cases hprior : c.projection.receipts.lookup (template, nonce) with
  | none =>
    simp only [hprior, bind_eq_some, guard_eq_some', exists_const, pure_eq_some, Prod.mk.injEq] at hplan
    obtain ⟨-, rfl, rfl, rfl⟩ := hplan
    refine h.marks ⟨hprior, _, rfl, trivial⟩ (fun _ p' hfold => ?_) fun hfold hne => ?_
    · cases hfold
      exact ⟨_, AList.lookup_insert _, rfl⟩
    · cases hfold
      exact AList.lookup_insert_ne hne
  | some prior =>
    simp only [hprior, bind_eq_some, guard_eq_some', exists_const, pure_eq_some, Prod.mk.injEq] at hplan
    obtain ⟨hdeferred, rfl, rfl, rfl⟩ := hplan
    exact h.restarts hprior hdeferred

theorem planned_retry (hplan : (Operation.retry identity).plan c = some (events, c', lease)) :
    Planned history c events c' lease := by
  unfold Operation.plan at hplan
  simp only [bind_eq_some, guard_eq_some', exists_const, pure_eq_some, Prod.mk.injEq] at hplan
  obtain ⟨receipt, hreceipt, ⟨hdeferred, -⟩, rfl, rfl, rfl⟩ := hplan
  exact h.restarts hreceipt hdeferred

end

theorem lookup_of_verification {identity' : Identity} (hr : p.receipts.lookup identity = some r)
    (happly : [PoolEvent.verification identity status].foldlM Projection.apply p = some p')
    (hne : identity' ≠ identity) : p'.receipts.lookup identity' = p.receipts.lookup identity' := by
  rw [foldlM_cons] at happly
  obtain ⟨p₁, happly, hnil⟩ := bind_eq_some.mp happly
  cases hnil
  simp only [Projection.apply, hr, Option.some.injEq] at happly
  rw [← happly]
  exact AList.lookup_insert_ne hne

theorem fits_verification (hr : p.receipts.lookup identity = some r)
    (hwaiting : r.status.waiting) (hstatus : status ≠ .pending) :
    Fits p [.verification identity status] := by
  refine ⟨⟨r, hr, hwaiting, hstatus⟩, ?_⟩
  simp only [Projection.apply, hr]
  exact ⟨_, rfl, trivial⟩

theorem planned_conclude (h : Sound history c)
    (hplan : (Operation.conclude identity status).plan c = some (events, c', lease)) :
    Planned history c events c' lease := by
  unfold Operation.plan at hplan
  simp only [bind_eq_some, guard_eq_some', exists_const, pure_eq_some, Prod.mk.injEq] at hplan
  obtain ⟨⟨hrunning, hstatus⟩, rfl, rfl, rfl⟩ := hplan
  obtain ⟨r, hr, hwaiting⟩ := h.running hrunning
  exact h.marks (fits_verification hr hwaiting hstatus) nofun (lookup_of_verification hr)

theorem planned_fail (h : Sound history c)
    (hplan : (Operation.fail identity).plan c = some (events, c', lease)) :
    Planned history c events c' lease := by
  unfold Operation.plan at hplan
  simp only [bind_eq_some, guard_eq_some', exists_const, pure_eq_some, Prod.mk.injEq] at hplan
  obtain ⟨-, receipt, hreceipt, rfl, rfl, rfl⟩ := hplan
  split_ifs with hpending
  · exact h.marks (fits_verification hreceipt (by rw [hpending]; rfl) nofun) nofun (lookup_of_verification hreceipt)
  · refine h.marks trivial nofun fun hfold _ => ?_
    cases hfold
    rfl

theorem Operation.planned (op : Operation) (h : Sound history c) (hplan : op.plan c = some (events, c', lease)) :
    Planned history c events c' lease := by
  have hreserve : ∀ entry ∈ c.leaseReserve, ∀ l ∈ entry.2, ∀ events, .lease l ∈ history ++ events :=
    fun entry hentry l hl _ => mem_append_left _ (h.reserve entry hentry l hl)
  cases op with
  | refresh id template =>
    cases hplan
    exact h.planned rfl ⟨trivial, _, rfl, trivial⟩ rfl (fun hfold => by cases hfold; rfl) nofun
      nofun
  | work account count ids => exact planned_work h hplan
  | submit account leaseId nonce current => exact planned_submit h hplan
  | retry identity => exact planned_retry h hplan
  | conclude identity status => exact planned_conclude h hplan
  | fail identity => exact planned_fail h hplan
  | finish identity =>
    cases hplan
    refine ⟨rfl, trivial, fun hfold hrunning => ?_, fun entry hentry l hl => hreserve entry hentry l hl _,
      nofun⟩
    cases hfold
    dsimp only at hrunning
    exact h.running (lookup_erase_eq_some.mp hrunning).2
  | drop =>
    cases hplan
    exact h.planned rfl trivial rfl (fun hfold => by cases hfold; rfl)
      (fun entry hentry l hl => hreserve entry hentry l hl _) nofun
  | record =>
    cases hplan
    exact h.planned rfl ⟨trivial, _, rfl, trivial⟩ rfl (fun hfold => by cases hfold; rfl)
      (fun entry hentry l hl => hreserve entry hentry l hl _) nofun

/-! ## Runs -/

/-- Processes on one journal: its events, the running coordinator and the leases given to workers. -/
inductive CoordinatorRun : List PoolEvent → Option Coordinator → List NonceLease → Prop where
  | fresh : CoordinatorRun [] none []
  | start {history : List PoolEvent} {given : List NonceLease} {p p' : Projection}
    (run : CoordinatorRun history none given)
    (replayed : replayEvents history = some p) (queueCapacity : Int)
    (deferred : (p.pending.map (PoolEvent.verification · .deferred)).foldlM Projection.apply p = some p') :
    CoordinatorRun (history ++ p.pending.map (PoolEvent.verification · .deferred))
      (some ⟨p', none, [], ∅, queueCapacity⟩) given
  | startStopped {history part : List PoolEvent} {given : List NonceLease} {p : Projection}
    (run : CoordinatorRun history none given) (replayed : replayEvents history = some p)
    (appended : part <+: p.pending.map (PoolEvent.verification · .deferred)) :
    CoordinatorRun (history ++ part) none given
  | operation {history events : List PoolEvent} {given : List NonceLease} {c c' : Coordinator}
    {lease : Option NonceLease} {p' : Projection} (run : CoordinatorRun history (some c) given) (op : Operation)
    (plan : op.plan c = some (events, c', lease)) (applied : events.foldlM Projection.apply c.projection = some p') :
    CoordinatorRun (history ++ events) (some { c' with projection := p' }) (lease.toList ++ given)
  | stopped {history events part : List PoolEvent} {given : List NonceLease} {c c' : Coordinator}
    {lease : Option NonceLease} (run : CoordinatorRun history (some c) given) (op : Operation)
    (plan : op.plan c = some (events, c', lease)) (appended : part <+: events) :
    CoordinatorRun (history ++ part) none given

/-- The invariant of a run. -/
structure CoordinatorInv (history : List PoolEvent) (process : Option Coordinator) (given : List NonceLease) :
    Prop where
  ordered : ∃ p, Ordered history p
  sound : ∀ {c}, process = some c → Sound history c
  given : ∀ l ∈ given, .lease l ∈ history

theorem Ordered.unique (h : Ordered history p) (hreplay : replayEvents history = some p') : Ordered history p' := by
  obtain rfl := Option.some.inj (h.replay.symm.trans hreplay)
  exact h

theorem CoordinatorRun.inv {process : Option Coordinator} {given : List NonceLease}
    (run : CoordinatorRun history process given) : CoordinatorInv history process given := by
  induction run with
  | fresh => exact ⟨⟨_, .nil⟩, nofun, nofun⟩
  | @start history given p p' run replayed queueCapacity deferred ih =>
    obtain ⟨p₀, hordered₀⟩ := ih.ordered
    have hordered := hordered₀.unique replayed
    obtain ⟨p₁, hnew, hfold⟩ := hordered.extend (fits_pending p) (prefix_refl _)
    obtain rfl := Option.some.inj (hfold.symm.trans deferred)
    refine ⟨⟨_, hnew⟩, fun hc => ?_, fun l hl => mem_append_left _ (ih.given l hl)⟩
    cases hc
    exact ⟨hnew, nofun, nofun⟩
  | startStopped run replayed appended ih =>
    obtain ⟨p₀, hordered₀⟩ := ih.ordered
    obtain ⟨p₁, hnew, -⟩ := (hordered₀.unique replayed).extend (fits_pending _) appended
    exact ⟨⟨_, hnew⟩, nofun, fun l hl => mem_append_left _ (ih.given l hl)⟩
  | @operation history events given c c' lease p' run op plan applied ih =>
    have hsound := ih.sound rfl
    have hplanned := op.planned hsound plan
    obtain ⟨p₁, hnew, hfold⟩ := hsound.ordered.extend hplanned.fits (prefix_refl _)
    obtain rfl := Option.some.inj (hfold.symm.trans applied)
    refine ⟨⟨_, hnew⟩, fun hc => ?_, fun l hl => ?_⟩
    · cases hc
      exact ⟨hnew, fun hrunning => hplanned.running applied hrunning, hplanned.reserve⟩
    · rcases mem_append.mp hl with hfresh | hold
      · exact hplanned.lease (mem_toList.mp hfresh)
      · exact mem_append_left _ (ih.given l hold)
  | stopped run op plan appended ih =>
    have hsound := ih.sound rfl
    obtain ⟨p₁, hnew, -⟩ := hsound.ordered.extend (op.planned hsound plan).fits appended
    exact ⟨⟨_, hnew⟩, nofun, fun l hl => mem_append_left _ (ih.given l hl)⟩

theorem mem_leasesOf (h : .lease l ∈ history) :
    l ∈ leasesOf history := mem_filterMap.mpr ⟨_, h, rfl⟩

theorem eq_of_before (h : leases.Pairwise Before) {l' : NonceLease} {n : Nat} (hl : l ∈ leases)
    (hl' : l' ∈ leases) (htemplate : l.template = l'.template) (hin : l.start ≤ n ∧ n < l.stop)
    (hin' : l'.start ≤ n ∧ n < l'.stop) : l = l' := by
  by_contra hne
  have hor : Before l l' ∨ Before l' l := by
    have hsymm : Std.Symm fun a b : NonceLease => Before a b ∨ Before b a := ⟨fun _ _ => Or.symm⟩
    exact (h.imp fun hab => Or.inl hab : leases.Pairwise fun a b => Before a b ∨ Before b a).forall hl hl' hne
  rcases hor with hbefore | hbefore
  · have hle := hbefore htemplate
    omega
  · have hle := hbefore htemplate.symm
    omega

/-- Over every run: the ranges leased for one template do not overlap, so a nonce of a template is of one lease and one
account; a share has one receipt and is credited at most once; and the count of an account is that of its credited
shares. -/
theorem work_is_credited_once {process : Option Coordinator} {given : List NonceLease}
    (run : CoordinatorRun history process given) :
    (leasesOf history).Pairwise Before ∧
    (∀ {l l' n}, .lease l ∈ history → .lease l' ∈ history → l.template = l'.template → l.start ≤ n ∧ n < l.stop →
      l'.start ≤ n ∧ n < l'.stop → l = l') ∧
    (∀ l ∈ given, .lease l ∈ history) ∧ (history.filterMap PoolEvent.received).Nodup ∧
    (history.filterMap PoolEvent.credited).Nodup ∧
    ∀ {c}, process = some c → ∀ account,
      (c.projection.verifiedCounts.lookup account).getD 0 = creditedShares c.projection account := by
  have hinv := run.inv
  obtain ⟨p, hordered⟩ := hinv.ordered
  have haudited := hordered.audited
  exact ⟨haudited.leases, fun hl hl' => eq_of_before haudited.leases (mem_leasesOf hl) (mem_leasesOf hl'), hinv.given,
    haudited.receipts, haudited.credited, fun hc => (hinv.sound hc).ordered.audited.counts⟩

/-- Two workers lease and one submits a share. The coordinator crashes before the verification is on disk; after the
restart the deferred share is retried, and credited. -/
theorem work_is_credited_once_two_workers : ∃ history c given, CoordinatorRun history (some c) given ∧
    history.filterMap PoolEvent.credited = [("t", 290)] ∧ given.length = 2 ∧ (leasesOf history).Pairwise Before ∧
    (c.projection.verifiedCounts.lookup "b").getD 0 = creditedShares c.projection "b" := by
  have h₁ : CoordinatorRun _ _ _ := .operation (.start .fresh rfl 4 rfl) (.refresh "j" "t") rfl rfl
  have h₂ : CoordinatorRun _ _ _ :=
    .operation h₁ (.work "a" 32 ["0", "1", "2", "3", "4", "5", "6", "7"]) rfl rfl
  have h₃ : CoordinatorRun _ _ _ :=
    .operation h₂ (.work "b" 32 ["8", "9", "10", "11", "12", "13", "14", "15"]) rfl rfl
  have h₄ : CoordinatorRun _ _ _ := .operation h₃ (.submit "b" "9" 290 true) rfl rfl
  have hcrash : CoordinatorRun _ _ _ := .stopped h₄ (.conclude ("t", 290) .verified) rfl List.nil_prefix
  have hrestart : CoordinatorRun _ _ _ := .start hcrash rfl 4 rfl
  have hretry : CoordinatorRun _ _ _ := .operation hrestart (.retry ("t", 290)) rfl rfl
  have hend : CoordinatorRun _ _ _ := .operation hretry (.conclude ("t", 290) .verified) rfl rfl
  obtain ⟨hleases, -, -, -, -, hcounts⟩ := work_is_credited_once hend
  exact ⟨_, _, _, hend, rfl, rfl, hleases, hcounts rfl "b"⟩

end Veld.Pool
