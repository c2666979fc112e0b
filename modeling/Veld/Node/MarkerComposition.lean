import Veld.Consensus.Governance
import Veld.Consensus.StakeBacking

/-!
# One protocol in a transaction

The guard of `core/marker_composition.h` against transactions that speak to two protocols.
-/

namespace Veld.Mining

open Wire List

/-- `kStatefulMarkerFamilies`. -/
def statefulMarkerFamilies (P : Profile) : List String :=
  ["VELD_TOKEN|", "VELD_MSPV|"] ++ (if P.transitionV1Required then ["VELD_RSV1|"] else []) ++
    ["VELD_AMM|", "VELD_STAKE|", "VELD_VALIDATOR|", "VELD_GOV|", "VELD_ANCHOR|", "VELD_BHDR|", "VELD_FRAUD|",
      "VELD_SBOND|", "VELD_PAYOUT|", "VELD_FINALITY|"]

/-- `MarkerOpReturnPayload`. -/
def markerOpReturnPayload : Bytes → Bytes
  | 0x6A :: op :: rest =>
    if op ≤ 75 then upTo op.toNat rest
    else match op, rest with
      | 0x4C, n :: data => upTo n.toNat data
      | 0x4D, lo :: hi :: data => upTo (lo.toNat + 256 * hi.toNat) data
      | _, _ => []
  | _ => []
where
  upTo (len : Nat) (data : Bytes) : Bytes := if len ≤ data.length then data.take len else []

def markerFamily (P : Profile) (out : TxOutput) : Option String :=
  (statefulMarkerFamilies P).find? (startsWith (markerOpReturnPayload out.scriptPubkey))

/-- The loop over the outputs, with the families seen so far. -/
def composes (P : Profile) : List String → List TxOutput → Bool
  | _, [] => false
  | seen, out :: rest =>
    match markerFamily P out with
    | none => composes P seen rest
    | some f =>
      if f ∈ seen then composes P seen rest
      else if 2 ≤ seen.length + 1 then true
      else composes P (f :: seen) rest

def txComposesMultipleProtocols (P : Profile) (tx : Transaction) : Bool := composes P [] tx.outputs

inductive MarkerModule
  | token
  | amm
  | staking
  | validators
  | governance
  | peg

def MarkerModule.parse : MarkerModule → Bytes → Bytes
  | .token | .amm | .peg => parseOpReturn
  | .staking | .validators => Validators.parseOpReturn
  | .governance => Governance.parseOpReturnPayload

/-! ## The decoders -/

theorem parseOpReturn_eq_marker {script : Bytes} : parseOpReturn script = markerOpReturnPayload script := by
  fun_cases markerOpReturnPayload script with
  | case1 op rest hshort => simp [parseOpReturn, hshort, markerOpReturnPayload.upTo]
  | case2 | case3 => rfl
  | case4 op rest hlong => simp [parseOpReturn, hlong]
  | case5 => simp [parseOpReturn]

theorem parseOpReturn_eq {script : Bytes} (h : Validators.parseOpReturn script ≠ []) :
    parseOpReturn script = Validators.parseOpReturn script := by
  have hexact {len : Nat} {data : Bytes} (h : Validators.parseOpReturn.exactly len data ≠ []) :
      Validators.parseOpReturn.exactly len data = data ∧ data.length = len := by
    unfold Validators.parseOpReturn.exactly at h ⊢
    split_ifs at h ⊢ with heq
    · exact ⟨rfl, heq⟩
    · exact absurd rfl h
  revert h
  fun_cases Validators.parseOpReturn script with
  | case1 push rest hshort =>
    intro h
    rw [(hexact h).1]
    simp [parseOpReturn, hshort, ← (hexact h).2]
  | case3 n data hmin | case5 lo hi data hmin =>
    intro h
    rw [(hexact h).1]
    simp [parseOpReturn, ← (hexact h).2]
  | case2 | case4 | case6 | case7 => exact fun h => absurd rfl h

theorem parseOpReturnPayload_eq {script : Bytes} (h : Governance.parseOpReturnPayload script ≠ []) :
    parseOpReturn script = Governance.parseOpReturnPayload script := by
  revert h
  fun_cases Governance.parseOpReturnPayload script with
  | case1 op rest hpush hlen => simp [parseOpReturn, hpush.2, ← hlen]
  | case3 n data hlen | case5 lo hi data hlen => simp [parseOpReturn, ← hlen.2]
  | case2 | case4 | case6 | case7 | case8 => exact fun h => absurd rfl h

theorem MarkerModule.parse_eq {m : MarkerModule} {script : Bytes} (h : m.parse script ≠ []) :
    markerOpReturnPayload script = m.parse script := by
  rw [← parseOpReturn_eq_marker]
  cases m with
  | token | amm | peg => rfl
  | staking | validators => exact parseOpReturn_eq h
  | governance => exact parseOpReturnPayload_eq h

/-! ## The families -/

variable {P : Profile} {tx : Transaction}

theorem families_apart : ∀ f ∈ statefulMarkerFamilies P, ascii f ≠ [] ∧
    ∀ g ∈ statefulMarkerFamilies P, ascii f <+: ascii g → f = g := by
  unfold statefulMarkerFamilies
  cases P.transitionV1Required <;> decide

theorem markerFamily_of_startsWith {out : TxOutput} {f : String} (hf : f ∈ statefulMarkerFamilies P)
    (h : startsWith (markerOpReturnPayload out.scriptPubkey) f) : markerFamily P out = some f := by
  obtain ⟨g, hg⟩ := Option.isSome_iff_exists.mp (List.find?_isSome.mpr ⟨f, hf, h⟩)
  have hmem := mem_of_find?_eq_some hg
  have hfound := List.find?_some hg
  rw [startsWith, isPrefixOf_iff_prefix] at h hfound
  obtain hfg | hgf := prefix_or_prefix_of_prefix h hfound
  · rw [(families_apart f hf).2 g hmem hfg]
    exact hg
  · rw [← (families_apart g hmem).2 f hf hgf]
    exact hg

theorem composes_family {seen : List String} {outs : List TxOutput} (h : composes P seen outs = false)
    (hseen : seen.length ≤ 1) : ∃ f, (∀ g ∈ seen, g = f) ∧ ∀ out ∈ outs, ∀ g, markerFamily P out = some g → g = f := by
  induction outs generalizing seen with
  | nil =>
    refine ⟨seen.headD "", fun g hg => ?_, nofun⟩
    obtain ⟨f, rfl⟩ := length_eq_one_iff.mp (le_antisymm hseen (length_pos_of_mem hg))
    exact mem_singleton.mp hg
  | cons first rest ih =>
    rw [composes] at h
    cases hfamily : markerFamily P first with
    | none =>
      rw [hfamily] at h
      obtain ⟨f, hf, hrest⟩ := ih h hseen
      exact ⟨f, hf, forall_mem_cons.mpr ⟨fun g hg => (nomatch hfamily.symm.trans hg), hrest⟩⟩
    | some g =>
      rw [hfamily] at h
      dsimp only at h
      split_ifs at h with hmem hfull
      · obtain ⟨f, hf, hrest⟩ := ih h hseen
        exact ⟨f, hf, forall_mem_cons.mpr ⟨fun g' hg' => Option.some.inj (hfamily.symm.trans hg') ▸ hf g hmem, hrest⟩⟩
      · obtain ⟨f, hf, hrest⟩ := ih h (by simpa using hfull)
        have hg := hf g mem_cons_self
        exact ⟨f, fun g' hg' => hf g' (mem_cons_of_mem _ hg'),
          forall_mem_cons.mpr ⟨fun g' hg' => Option.some.inj (hfamily.symm.trans hg') ▸ hg, hrest⟩⟩

/-- Of a transaction that passes the guard all modules together read markers of one family, and the guard reads
every marker as the modules do. -/
theorem one_protocol_per_transaction (h : txComposesMultipleProtocols P tx = false) :
    (∀ (m m' : MarkerModule), ∀ out ∈ tx.outputs, ∀ out' ∈ tx.outputs,
      ∀ f ∈ statefulMarkerFamilies P, ∀ f' ∈ statefulMarkerFamilies P,
      startsWith (m.parse out.scriptPubkey) f → startsWith (m'.parse out'.scriptPubkey) f' → f = f') ∧
    ∀ (m : MarkerModule) (script : Bytes), m.parse script ≠ [] →
      markerOpReturnPayload script = m.parse script := by
  obtain ⟨family, -, honly⟩ := composes_family h (Nat.zero_le 1)
  have hread {m : MarkerModule} {out : TxOutput} (hout : out ∈ tx.outputs) {f : String}
      (hf : f ∈ statefulMarkerFamilies P) (hstart : startsWith (m.parse out.scriptPubkey) f) : f = family := by
    refine honly out hout f (markerFamily_of_startsWith hf ?_)
    rwa [MarkerModule.parse_eq (m := m)]
    rintro hnil
    rw [hnil] at hstart
    exact (families_apart f hf).1 (prefix_nil.mp (List.isPrefixOf_iff_prefix.mp hstart))
  exact ⟨fun m m' out hout out' hout' f hf f' hf' hs hs' => (hread hout hf hs).trans (hread hout' hf' hs').symm,
    fun _ _ => MarkerModule.parse_eq⟩

def twoStakeMarkers : Transaction :=
  ⟨2, [], [⟨0, buildOpReturnScript (ascii "VELD_STAKE|LOCK|a|1|T1")⟩,
    ⟨0, buildOpReturnScript (ascii "VELD_STAKE|UNLOCK|a|1")⟩], 0⟩

theorem one_protocol_per_transaction_two : markerOpReturnPayload (buildOpReturnScript (ascii "VELD_STAKE|")) =
    MarkerModule.staking.parse (buildOpReturnScript (ascii "VELD_STAKE|")) :=
  (@one_protocol_per_transaction .publicMainnet twoStakeMarkers (by decide)).2 .staking _ (by decide)

end Veld.Mining
