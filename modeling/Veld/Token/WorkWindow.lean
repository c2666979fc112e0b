import Veld.Token.BlockSteps

/-!
# The work window

The mint tier is read off the least work of a full window of blocks.
-/

namespace Veld

open Wire hiding bind_eq_ok
open Program List

namespace Ledger
variable (l : Ledger)

/-- `SustainedWorkLocked_`. -/
def sustainedWorkWith (prospectiveBlockBits : Option UInt32) : Nat :=
  let total := l.recentWork.length + if prospectiveBlockBits.isSome then 1 else 0
  if total < tierWindowBlocks then 0
  else
    let m := (l.recentWork.drop (total - tierWindowBlocks)).foldl min uint64Max
    match prospectiveBlockBits with
    | none => m
    | some bits => min m (blockWorkForTier bits.toNat)

theorem sustainedWork_eq : l.sustainedWork = l.sustainedWorkWith none := rfl

/-- The window after a block with these bits. -/
def pushedWork (bits : UInt32) : List Nat :=
  let work := l.recentWork ++ [blockWorkForTier bits.toNat]
  if tierWindowBlocks < work.length then work.drop 1 else work

end Ledger

/-- Pushing and evicting leaves the last entries of a full window; one that is not full only grows. -/
theorem least_pushed (works : List Nat) (w top : Nat) {window : Nat} (hpos : 0 < window) :
    let pushed := if window < (works ++ [w]).length then (works ++ [w]).drop 1 else works ++ [w]
    (if pushed.length < window then 0 else (pushed.drop (pushed.length - window)).foldl min top) =
      if works.length + 1 < window then 0
      else min ((works.drop (works.length + 1 - window)).foldl min top) w := by
  have hlength : (works ++ [w]).length = works.length + 1 := by simp
  by_cases hfull : window < works.length + 1
  · have hskip : 1 + (works.length - window) = works.length + 1 - window := by omega
    simp only [hlength, if_pos hfull, length_drop, Nat.add_sub_cancel, drop_drop, hskip]
    rw [if_neg (by omega), if_neg (by omega), drop_append_of_le_length (by omega), foldl_append]
    rfl
  · simp only [hlength, if_neg hfull]
    rw [show works.length + 1 - window = 0 by omega, drop_zero, drop_zero, foldl_append]
    rfl

theorem sustainedWork_of_pushed {l l' : Ledger} {bits : UInt32} (h : l'.recentWork = l.pushedWork bits) :
    l'.sustainedWork = l.sustainedWorkWith (some bits) := by
  rw [Ledger.sustainedWork, h]
  exact least_pushed l.recentWork _ uint64Max (by decide)

section
variable {P : Profile} {C : Crypto} {V : View} {gate : PegGate} {l l' : Ledger} {block : Block}

theorem maybeRegisterBtcVeld_recentWork (height : Nat) :
    (maybeRegisterBtcVeld P height l).recentWork = l.recentWork := by
  unfold maybeRegisterBtcVeld
  split <;> rfl

theorem processTransactions_recentWork {height : Nat} {spvOn : Bool} {txs : List (Transaction × Nat)}
    (h : processTransactions P C V gate height spvOn txs l = .ok () l') : l'.recentWork = l.recentWork := by
  induction txs generalizing l with
  | nil => rw [(pure_eq_ok.mp h).2]
  | cons t txs ih =>
    obtain ⟨m, hm, h⟩ := unit_bind_eq_ok.mp h
    rw [ih h]
    rcases processTransaction_eq_ok hm with rfl | ⟨data, -, vout, hm⟩
    · rfl
    · exact guarded_applyMarker.keeps _ _ _ hm

theorem processBody_recentWork {freeze : Bool} (h : processBody P C V gate block freeze l = .ok () l') :
    l'.recentWork = l.pushedWork block.header.bits := by
  simp only [processBody, get_bind_eq_ok, unit_bind_eq_ok, modify_eq_ok] at h
  obtain ⟨_, hfreeze, _, rfl, m, hrun, n, hcommit, _, rfl, hclose⟩ := h
  obtain ⟨r, rfl, -⟩ := freezeOnReorg_books hfreeze
  have hn : n.recentWork = m.recentWork := congrArg Prod.snd ((guarded_commitRedeems _).keeps _ _ _ hcommit)
  have hl : l'.recentWork = n.recentWork := by
    split at hclose
    · simp only [closeReserve, get_bind_eq_ok, check_bind_eq_ok, require_bind_eq_ok, set_bind_eq_ok,
        modify_eq_ok] at hclose
      obtain ⟨-, _, -, -, rfl⟩ := hclose
      rfl
    · rw [← (pure_eq_ok.mp hclose).2]
  rw [hl, hn, processTransactions_recentWork hrun, beginBlock, maybeRegisterBtcVeld_recentWork]
  rfl

variable (P) in
/-- The trial ledger of `FilterMempoolCandidates`. -/
def mempoolTrial (height : Nat) (prospectiveBlockBits : UInt32) (l : Ledger) : Ledger :=
  let l := { l with lastBlockRedeems := [], lastBlockReservePayouts := [] }
  let l := l.pruneC1Reservations height
  maybeRegisterBtcVeld P height { l with recentWork := l.pushedWork prospectiveBlockBits }

/-- Before a block is applied, its bits tell the sustained work of the ledger that judges its transactions, of the trial
ledger that judges the candidates for it, and of the ledger it leaves, whatever the window holds:
the mint tier is one. -/
theorem prospective_work_is_work_after (height : Nat) :
    (beginBlock P block l).sustainedWork = l.sustainedWorkWith (some block.header.bits) ∧
    (mempoolTrial P height block.header.bits l).sustainedWork = l.sustainedWorkWith (some block.header.bits) ∧
    ∀ l', processBlock P C V gate block l = .ok () l' →
      l'.sustainedWork = l.sustainedWorkWith (some block.header.bits) ∧ Tierladder.tierCap l'.sustainedWork =
        Tierladder.tierCap (mempoolTrial P height block.header.bits l).sustainedWork := by
  have htrial : (mempoolTrial P height block.header.bits l).sustainedWork =
      l.sustainedWorkWith (some block.header.bits) :=
    sustainedWork_of_pushed (maybeRegisterBtcVeld_recentWork height)
  refine ⟨sustainedWork_of_pushed (maybeRegisterBtcVeld_recentWork _), htrial, fun l' h => ?_⟩
  obtain ⟨freeze, hbody⟩ := processBlock_eq_ok h
  have hafter := sustainedWork_of_pushed (processBody_recentWork hbody)
  exact ⟨hafter, by rw [hafter, htrial]⟩

end

def sampleFullWindow : Ledger :=
  { Ledger.empty .sample Crypto.blank.sha256 with recentWork := List.replicate Ledger.tierWindowBlocks 7 }

theorem prospective_work_is_work_after_full : ∃ l', processBlock .sample .blank ⟨none, fun _ => none⟩ ⟨true, true, true⟩
      ⟨⟨1, .zero, .zero, 0, 0, 0⟩, [], 1⟩ sampleFullWindow = .ok () l' ∧
    l'.sustainedWork = sampleFullWindow.sustainedWorkWith (some 0) :=
  have hok := eq_ok_of_succeeds (by decide +kernel)
  ⟨_, hok, ((prospective_work_is_work_after 1).2.2 _ hok).1⟩

end Veld
