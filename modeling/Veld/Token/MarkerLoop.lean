import Veld.Token.BlockSteps

/-!
# The marker loop of a transaction

`ApplyTransactionMarkersLocked_` as the source runs it: a pass that counts the markers, and a loop over
the outputs with the flag `applied`.
-/

namespace Veld

open Program
open Wire (Bytes ascii)

section
variable (P : Profile) (C : Crypto) (V : View) (gate : PegGate)

def isMarker (data : Bytes) : Bool := isSpvMarker data || isReservePublicFamily P data || isTokenMarker data

/-- The loop over the outputs; a marker after one that was applied is refused. -/
def markerLoop (spvOn : Bool) (K : Nat → Carrier) : List (Bytes × Nat) → Bool → LedgerM Bool
  | [], applied => pure applied
  | (data, vout) :: rest, applied =>
    if isMarker P data then do
      check (applied = false) Stop.reject
      applyMarker P C V gate spvOn (K vout) data
      markerLoop spvOn K rest true
    else markerLoop spvOn K rest applied

def applyMarkersByLoop (tx : Transaction) (height : Nat) (spvOn requireMarker prevalidated : Bool) (txIndex : Nat) :
    LedgerM Unit := do
  check ((markers P tx).length ≤ 1) Stop.reject
  check (requireMarker → (markers P tx).length = 1) Stop.reject
  let applied ← markerLoop P C V gate spvOn (fun vout => ⟨tx, height, txIndex, vout, prevalidated⟩)
    (payloads tx).zipIdx false
  check (markers P tx = [] ∨ applied) Stop.reject

/-- Markers applied one after another. -/
def applyAll (spvOn : Bool) (K : Nat → Carrier) : List (Bytes × Nat) → LedgerM Unit
  | [] => pure ()
  | (data, vout) :: rest => do
    applyMarker P C V gate spvOn (K vout) data
    applyAll spvOn K rest

end

section
variable {P : Profile} {C : Crypto} {V : View} {gate : PegGate} {spvOn : Bool} {K : Nat → Carrier} {l l' : Ledger}
variable {outs : List (Bytes × Nat)}

theorem markerLoop_none (h : outs.filter (isMarker P ·.1) = []) (applied : Bool) :
    markerLoop P C V gate spvOn K outs applied = pure applied := by
  induction outs with
  | nil => rfl
  | cons o outs ih =>
    obtain ⟨data, vout⟩ := o
    rw [List.filter_cons] at h
    split at h
    · cases h
    · rename_i hdata
      rw [markerLoop, if_neg hdata, ih h]

theorem markerLoop_one {data : Bytes} {vout : Nat}
    (h : outs.filter (isMarker P ·.1) = [(data, vout)]) : markerLoop P C V gate spvOn K outs false =
      applyMarker P C V gate spvOn (K vout) data >>= fun _ => pure true := by
  induction outs with
  | nil => cases h
  | cons o outs ih =>
    obtain ⟨data', vout'⟩ := o
    rw [List.filter_cons] at h
    split at h
    · rename_i hdata
      obtain ⟨⟨rfl, rfl⟩, hrest⟩ := List.cons.inj h |>.imp_left Prod.mk.inj
      rw [markerLoop, if_pos hdata]
      simp only [markerLoop_none hrest]
      rfl
    · rename_i hdata
      rw [markerLoop, if_neg hdata, ih h]

/-- The loop is the case split on the markers that the block model runs. -/
theorem applyMarkersByLoop_eq_applyTransactionMarkers (tx : Transaction) (height txIndex : Nat)
    (requireMarker prevalidated : Bool) :
    applyMarkersByLoop P C V gate tx height spvOn requireMarker prevalidated txIndex =
      applyTransactionMarkers P C V gate tx height spvOn requireMarker prevalidated txIndex := by
  unfold applyTransactionMarkers
  rcases hm : markers P tx with _ | ⟨⟨data, vout⟩, _ | ⟨m, rest⟩⟩
  · cases requireMarker <;> simp [applyMarkersByLoop, hm, check, markerLoop_none hm]
  · simp [applyMarkersByLoop, hm, check, markerLoop_one hm]
  · simp only [applyMarkersByLoop, hm, check, List.length_cons]
    rw [if_neg (by omega)]
    rfl

theorem applyMarkersByLoop_eq {tx : Transaction} {height txIndex : Nat} {requireMarker prevalidated : Bool}
    (h : (markers P tx).length ≤ 1) :
    applyMarkersByLoop P C V gate tx height spvOn requireMarker prevalidated txIndex =
      (do check (requireMarker → (markers P tx).length = 1) Stop.reject
          applyAll P C V gate spvOn (fun vout => ⟨tx, height, txIndex, vout, prevalidated⟩) (markers P tx)) := by
  rw [applyMarkersByLoop_eq_applyTransactionMarkers, applyTransactionMarkers]
  rcases hm : markers P tx with _ | ⟨⟨data, vout⟩, _ | ⟨m, rest⟩⟩
  · cases requireMarker <;> simp [check, applyAll]
  · simp [check, applyAll]
  · simp [hm] at h

theorem guarded_applyAll {ms : List (Bytes × Nat)} (h : ms.length ≤ 1) : WorkKept (applyAll P C V gate spvOn K ms) := by
  rcases ms with _ | ⟨m, _ | ⟨m', rest⟩⟩
  · exact guarded_pure _
  · exact guarded_applyMarker.bind fun _ => guarded_pure _
  · simp at h

end

/-- A marker that is not applied changes nothing. For every ledger and every mix of outputs: a call that
is refused leaves the ledger as it was, and one that succeeds has applied at most one marker. -/
theorem unapplied_marker_changes_nothing (P : Profile) (C : Crypto) (V : View) (gate : PegGate) (tx : Transaction)
    (height : Nat) (spvOn requireMarker prevalidated : Bool) (txIndex : Nat) (l l' : Ledger) :
    (applyMarkersByLoop P C V gate tx height spvOn requireMarker prevalidated txIndex l = .error .reject l' → l' = l) ∧
    (applyMarkersByLoop P C V gate tx height spvOn requireMarker prevalidated txIndex l = .ok () l' →
      ∃ ms, ms.length ≤ 1 ∧ ms.Sublist (markers P tx) ∧
        applyAll P C V gate spvOn (fun vout => ⟨tx, height, txIndex, vout, prevalidated⟩) ms l = .ok () l') := by
  by_cases hcount : (markers P tx).length ≤ 1
  · rw [applyMarkersByLoop_eq hcount]
    refine ⟨fun h => (guarded_applyAll hcount).after_check.atomic l _ l' h (show Refused .reject from rfl), fun h => ?_⟩
    simp only [check_bind_eq_ok] at h
    obtain ⟨-, happly⟩ := h
    exact ⟨_, hcount, List.Sublist.refl _, happly⟩
  · -- a second marker stops the count before anything runs
    have hstop : applyMarkersByLoop P C V gate tx height spvOn requireMarker prevalidated txIndex l =
        .error .reject l := by
      simp only [applyMarkersByLoop, check, if_neg hcount]
      rfl
    rw [hstop]
    exact ⟨fun h => by cases h; rfl, fun h => by cases h⟩

/-- A transfer of more than the sender has: every check before the balance passes. -/
def sampleOverdraft : Transaction :=
  ⟨1, [], [⟨0, buildOpReturnScript (encodeTokenOp ⟨.transfer, ascii "T", aliceAddress, aliceAddress, 5, []⟩)⟩], 0⟩

def sampleHolding (balance : Int) : Ledger :=
  let l := Ledger.empty .sample Crypto.blank.sha256
  { l.putBalance (ascii "T") aliceAddress balance with tokens := l.tokens.insert (ascii "T") aliceAddress }

def sampleOutcome (balance : Int) : Option Stop :=
  match applyMarkersByLoop .sample .blank ⟨none, fun _ => none⟩ ⟨true, true, true⟩ sampleOverdraft 1 false true true 0
    (sampleHolding balance) with
  | .ok _ _ => none
  | .error e _ => some e

/-- With the balance the transfer is applied, without it the ledger stays. -/
theorem unapplied_marker_changes_nothing_sample : sampleOutcome 5 = none ∧
    ∃ l', applyMarkersByLoop .sample .blank ⟨none, fun _ => none⟩ ⟨true, true, true⟩ sampleOverdraft 1 false true true 0
      (sampleHolding 3) = .error .reject l' ∧ l' = sampleHolding 3 := by
  have houtcome : sampleOutcome 5 = none ∧ sampleOutcome 3 = some .reject := by decide +kernel
  obtain ⟨happlied, hrefused⟩ := houtcome
  unfold sampleOutcome at hrefused
  split at hrefused
  · cases hrefused
  · rename_i e l' he
    cases hrefused
    exact ⟨happlied, l', he, (unapplied_marker_changes_nothing _ _ _ _ _ _ _ _ _ _ _ _).1 he⟩

end Veld
