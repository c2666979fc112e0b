import Veld.Core.BtcTx

/-!
# What a transaction id binds

The id of a Bitcoin transaction is the hash of its serialisation without witness. Serialisations
whose stripped forms do not collide therefore have the same inputs and outputs whenever they have
the same id, with or without witness and whatever limits the parser was given.
-/

namespace Veld.Btcspv

open Wire List

/-! ## The readers are local -/

theorem local_readHash : Local readHash := by
  intro bs h rest hr
  refine ⟨h.bytes, readHash_eq_put hr, fun rest' => readHash_bytes h rest'⟩

theorem local_readPrevout : Local readPrevout :=
  local_readHash.bind fun txid => (local_readLE 4).bind fun vout => local_pure (BtcPrevout.mk txid vout)

theorem local_readCanonicalVarint : Local readCanonicalVarint := by
  intro bs v rest h
  cases bs with
  | nil => cases h
  | cons c tail =>
    simp only [readCanonicalVarint, List.head?_cons, some_bind, bind_eq_some, Prod.exists,
      Option.guard_eq_some', pure_eq_some, Prod.mk.injEq] at h
    obtain ⟨v, rest, hread, _, hcanon, rfl, rfl⟩ := h
    obtain ⟨used, rfl, hused⟩ : ∃ used, tail = used ++ rest ∧
        ∀ rest', readVarint (c :: (used ++ rest')) = some (v, rest') := by
      rw [readVarint] at hread
      split at hread
      · rename_i hc
        cases hread
        exact ⟨[], rfl, fun rest' => by simp [readVarint, hc]⟩
      · rename_i hc
        obtain ⟨used, rfl, hused⟩ := local_readLE _ _ _ _ hread
        exact ⟨used, rfl, fun rest' => by simp only [readVarint, hc, if_false, hused]⟩
    refine ⟨c :: used, rfl, fun rest' => ?_⟩
    simp only [cons_append, readCanonicalVarint, List.head?_cons, some_bind, hused, guard_pos
      hcanon, Option.pure_def]

section
variable {varint : Bytes → Option (Nat × Bytes)} (hv : Local varint)
include hv

theorem local_readInput : Local (readInput varint) :=
  local_readPrevout.bind fun prev => hv.bind fun scriptLen =>
    (local_takeN (scriptLen + 4)).bind fun _ => local_pure prev

theorem local_readOutput : Local (readOutput varint) :=
  (local_readLE 8).bind fun value => hv.bind fun scriptLen =>
    (local_takeN scriptLen).bind fun spk => local_pure (BtcTxOut.mk value spk)

theorem local_readInputs (limit : Nat) : Local (readInputs varint limit) :=
  hv.bind fun vin => ((local_readInput hv).readMany vin).guard (vin ≠ 0 ∧ vin ≤ limit)

theorem local_readOutputs (limit : Nat) : Local (readOutputs varint limit) :=
  hv.bind fun vout => ((local_readOutput hv).readMany vout).guard (vout ≠ 0 ∧ vout ≤ limit)

end

/-! ## Limits -/

section
variable {varint : Bytes → Option (Nat × Bytes)}

theorem readInputs_limit {limit limit' : Nat} {bs rest : Bytes} {ins : List BtcPrevout}
    (h : readInputs varint limit bs = some (ins, rest)) (hle : ins.length ≤ limit') :
    ins.length ≤ limit ∧ readInputs varint limit' bs = some (ins, rest) := by
  simp only [readInputs, bind_eq_some, Prod.exists, Option.guard_eq_some'] at h ⊢
  obtain ⟨vin, r, hvin, _, ⟨hne, hlimit⟩, hmany⟩ := h
  have hlen := readMany_length hmany
  exact ⟨hlen ▸ hlimit, vin, r, hvin, (), ⟨hne, hlen ▸ hle⟩, hmany⟩

theorem readOutputs_limit {limit limit' : Nat} {bs rest : Bytes} {outs : List BtcTxOut}
    (h : readOutputs varint limit bs = some (outs, rest)) (hle : outs.length ≤ limit') :
    outs.length ≤ limit ∧ readOutputs varint limit' bs = some (outs, rest) := by
  simp only [readOutputs, bind_eq_some, Prod.exists, Option.guard_eq_some'] at h ⊢
  obtain ⟨vout, r, hvout, _, ⟨hne, hlimit⟩, hmany⟩ := h
  have hlen := readMany_length hmany
  exact ⟨hlen ▸ hlimit, vout, r, hvout, (), ⟨hne, hlen ▸ hle⟩, hmany⟩

end

variable {sha256 : Bytes → Hash256} {tx tx' : Bytes} {maxInputs maxOutputs : Nat}
  {t t' : WitnessAwareBtcTx}

theorem head_of_readInputs {bs rest : Bytes} {ins : List BtcPrevout}
    (h : readInputs readCanonicalVarint maxInputs bs = some (ins, rest)) : bs.head? ≠ some 0 := by
  intro hzero
  obtain ⟨tail, rfl⟩ := List.head?_eq_some_iff.mp hzero
  have hread : readCanonicalVarint (0 :: tail) = some (0, tail) := by
    simp [readCanonicalVarint, readVarint, guard]
  simp [readInputs, hread, guard] at h

theorem parse_legacy {version body mid locktime : Bytes} {ins : List BtcPrevout}
    {outs : List BtcTxOut} (htake : takeN 4 tx = some (version, body))
    (hins : readInputs readCanonicalVarint maxInputs body = some (ins, mid))
    (houts : readOutputs readCanonicalVarint maxOutputs mid = some (outs, locktime))
    (hlock : locktime.length = 4) :
    parseWitnessAwareBtcTx sha256 tx maxInputs maxOutputs =
      some ⟨hash256d sha256 tx, false, ins, outs⟩ := by
  have hhead := head_of_readInputs hins
  have hlen : 10 ≤ tx.length := by
    obtain ⟨rfl, hversion⟩ := takeN_eq_some.mp htake
    have hbody := Local.length_lt (local_readInputs local_readCanonicalVarint _) rfl hins
    have hmid := Local.length_lt (local_readOutputs local_readCanonicalVarint _) rfl houts
    rw [length_append]
    omega
  have hlimits : maxInputs ≠ 0 ∧ maxOutputs ≠ 0 := by
    simp only [readInputs, readOutputs, bind_eq_some, Prod.exists, Option.guard_eq_some'] at hins houts
    obtain ⟨_, _, -, _, hvin, -⟩ := hins
    obtain ⟨_, _, -, _, hvout, -⟩ := houts
    omega
  refine bind_step (guard_pos ⟨hlen, hlimits⟩) ?_
  refine bind_step htake ?_
  refine bind_step (guard_pos fun h => absurd h hhead) ?_
  simp only [hhead, if_false, hins, houts, some_bind, guard_pos hlock, Option.pure_def]

theorem parseWitnessAwareBtcTx_eq_some
    (h : parseWitnessAwareBtcTx sha256 tx maxInputs maxOutputs = some t) :
    ∃ version body mid rest, takeN 4 tx = some (version, body) ∧
      readInputs readCanonicalVarint maxInputs (if body.head? = some 0 then body.drop 2 else body) =
        some (t.prevouts, mid) ∧
      readOutputs readCanonicalVarint maxOutputs mid = some (t.outputs, rest) ∧
      ((body.head? = some 0 ∧ ∃ sizes locktime,
          readMany readWitnessStack t.prevouts.length rest = some (sizes, locktime) ∧
          locktime.length = 4 ∧ t.txid = hash256d sha256
            (version ++ (body.drop 2).take ((body.drop 2).length - rest.length) ++ locktime)) ∨
        (body.head? ≠ some 0 ∧ rest.length = 4 ∧ t.txid = hash256d sha256 tx)) := by
  obtain ⟨_, -, h⟩ := bind_eq_some.mp h
  obtain ⟨⟨version, body⟩, htake, h⟩ := bind_eq_some.mp h
  obtain ⟨_, -, h⟩ := bind_eq_some.mp h
  obtain ⟨⟨prevouts, mid⟩, hins, h⟩ := bind_eq_some.mp h
  obtain ⟨⟨outputs, rest⟩, houts, h⟩ := bind_eq_some.mp h
  refine ⟨version, body, mid, rest, htake, ?_⟩
  by_cases hw : body.head? = some 0
  · simp only [hw, if_true] at h hins ⊢
    obtain ⟨⟨sizes, locktime⟩, hstacks, h⟩ := bind_eq_some.mp h
    obtain ⟨_, -, h⟩ := bind_eq_some.mp h
    obtain ⟨_, hlock, h⟩ := bind_eq_some.mp h
    cases h
    exact ⟨hins, houts, .inl ⟨trivial, sizes, locktime, hstacks,
      (Option.guard_eq_some' ..).mp hlock, rfl⟩⟩
  · simp only [hw, if_false] at h hins ⊢
    obtain ⟨_, hlock, h⟩ := bind_eq_some.mp h
    cases h
    exact ⟨hins, houts, .inr ⟨hw, (Option.guard_eq_some' ..).mp hlock, rfl⟩⟩

/-! ## Stripped serialisations -/

/-- The serialisation a transaction id is the hash of. -/
def strippedTx (tx : Bytes) : Option Bytes := do
  let (version, body) ← takeN 4 tx
  if body.head? = some 0 then
    let (prevouts, mid) ← readInputs readCanonicalVarint 100000 (body.drop 2)
    let (_, rest) ← readOutputs readCanonicalVarint 100000 mid
    let (_, locktime) ← readMany readWitnessStack prevouts.length rest
    return version ++ (body.drop 2).take ((body.drop 2).length - rest.length) ++ locktime
  else return tx

/-- The inputs and outputs of a serialisation without witness. -/
def strippedContent (s : Bytes) : Option (List BtcPrevout × List BtcTxOut) := do
  let (_, body) ← takeN 4 s
  let (prevouts, mid) ← readInputs readCanonicalVarint 100000 body
  let (outputs, _) ← readOutputs readCanonicalVarint 100000 mid
  return (prevouts, outputs)

section
variable (h : parseWitnessAwareBtcTx sha256 tx maxInputs maxOutputs = some t)
  (hin : maxInputs ≤ 100000) (hout : maxOutputs ≤ 100000)
include h hin hout

theorem strippedTx_legacy :
    ∃ s version body mid locktime, strippedTx tx = some s ∧ t.txid = hash256d sha256 s ∧
      takeN 4 s = some (version, body) ∧
      readInputs readCanonicalVarint maxInputs body = some (t.prevouts, mid) ∧
      readOutputs readCanonicalVarint maxOutputs mid = some (t.outputs, locktime) ∧
      locktime.length = 4 := by
  obtain ⟨version, body, mid, rest, htake, hins, houts, hform⟩ := parseWitnessAwareBtcTx_eq_some h
  rcases hform with ⟨hw, sizes, locktime, hstacks, hlock, htxid⟩ | ⟨hw, hlock, htxid⟩
  · rw [if_pos hw] at hins
    have hins' := (readInputs_limit hins ((readInputs_limit hins le_rfl).1.trans hin)).2
    have houts' := (readOutputs_limit houts ((readOutputs_limit houts le_rfl).1.trans hout)).2
    obtain ⟨used, hbody, hused⟩ := local_readInputs local_readCanonicalVarint _ _ _ _ hins
    obtain ⟨used', rfl, hused'⟩ := local_readOutputs local_readCanonicalVarint _ _ _ _ houts
    have hpart : (body.drop 2).take ((body.drop 2).length - rest.length) = used ++ used' := by
      rw [hbody, ← append_assoc, length_append, Nat.add_sub_cancel, take_left]
    rw [hpart] at htxid
    refine ⟨version ++ (used ++ used') ++ locktime, version, used ++ (used' ++ locktime),
      used' ++ locktime, locktime, ?_, htxid, ?_, hused _, hused' _, hlock⟩
    · simp only [strippedTx, htake, some_bind, hw, if_true, hins', houts', hstacks, hpart,
        Option.pure_def]
    · rw [takeN_eq_some]
      exact ⟨by simp, (takeN_eq_some.mp htake).2⟩
  · rw [if_neg hw] at hins
    refine ⟨tx, version, body, mid, rest, ?_, htxid, htake, hins, houts, hlock⟩
    simp only [strippedTx, htake, some_bind, hw, if_false, Option.pure_def]

/-- The id is the hash of the stripped form, which has the same inputs and outputs. -/
theorem strippedTx_content :
    ∃ s, strippedTx tx = some s ∧ t.txid = hash256d sha256 s ∧
      strippedContent s = some (t.prevouts, t.outputs) := by
  obtain ⟨s, version, body, mid, locktime, hs, htxid, htake, hins, houts, -⟩ :=
    strippedTx_legacy h hin hout
  have hins := (readInputs_limit hins ((readInputs_limit hins le_rfl).1.trans hin)).2
  have houts := (readOutputs_limit houts ((readOutputs_limit houts le_rfl).1.trans hout)).2
  refine ⟨s, hs, htxid, ?_⟩
  simp only [strippedContent, htake, some_bind, hins, houts, Option.pure_def]

end

/-- What a transaction means does not depend on its witness: the stripped form is accepted with the
same id, inputs and outputs, which are those of every other accepted string it is the form of. -/
theorem witness_changes_no_meaning
    (h : parseWitnessAwareBtcTx sha256 tx maxInputs maxOutputs = some t)
    (hin : maxInputs ≤ 100000) (hout : maxOutputs ≤ 100000) :
    ∃ s, strippedTx tx = some s ∧
      parseWitnessAwareBtcTx sha256 s maxInputs maxOutputs =
        some { t with hasWitness := false } ∧
      ∀ tx' maxInputs' maxOutputs' t', maxInputs' ≤ 100000 → maxOutputs' ≤ 100000 →
        parseWitnessAwareBtcTx sha256 tx' maxInputs' maxOutputs' = some t' →
        strippedTx tx' = some s →
        t'.txid = t.txid ∧ t'.prevouts = t.prevouts ∧ t'.outputs = t.outputs := by
  obtain ⟨s, version, body, mid, locktime, hs, htxid, htake, hins, houts, hlock⟩ :=
    strippedTx_legacy h hin hout
  refine ⟨s, hs, ?_, ?_⟩
  · rw [parse_legacy htake hins houts hlock, ← htxid]
  · intro tx' maxInputs' maxOutputs' t' hin' hout' h' hs'
    obtain ⟨r, hr, hid, hc⟩ := strippedTx_content h hin hout
    obtain ⟨r', hr', hid', hc'⟩ := strippedTx_content h' hin' hout'
    obtain rfl : s = r := Option.some.inj (hs.symm.trans hr)
    obtain rfl : s = r' := Option.some.inj (hs'.symm.trans hr')
    obtain ⟨hprev, houts⟩ := Prod.mk.inj (Option.some.inj (hc'.symm.trans hc))
    exact ⟨hid'.trans hid.symm, hprev, houts⟩

theorem witness_changes_no_meaning_one :
    ∃ s, strippedTx (putLE 4 2 ++ [0, 1, 1] ++ putLE 41 0 ++ [1] ++ putLE 9 0 ++ [1, 0] ++ putLE 4 0) =
        some s ∧
      parseWitnessAwareBtcTx (fun _ => Hash256.zero) s 128 100000 =
        some ⟨.zero, false, [⟨.zero, 0⟩], [⟨0, []⟩]⟩ := by
  obtain ⟨s, hs, hparse, -⟩ := @witness_changes_no_meaning (fun _ => Hash256.zero)
    (putLE 4 2 ++ [0, 1, 1] ++ putLE 41 0 ++ [1] ++ putLE 9 0 ++ [1, 0] ++ putLE 4 0) 128 100000
    ⟨.zero, true, [⟨.zero, 0⟩], [⟨0, []⟩]⟩ (by decide +kernel) (by decide) le_rfl
  exact ⟨s, hs, hparse⟩

def NoCollision (sha256 : Bytes → Hash256) (tx tx' : Bytes) : Prop :=
  ∀ s s', strippedTx tx = some s → strippedTx tx' = some s' →
    hash256d sha256 s = hash256d sha256 s' → s = s'

theorem noCollision_self (sha256 : Bytes → Hash256) (tx : Bytes) : NoCollision sha256 tx tx :=
  fun _ _ hs hs' _ => Option.some.inj (hs.symm.trans hs')

/-- Two serialisations of one transaction. -/
def SameTx (sha256 : Bytes → Hash256) (tx tx' : Bytes) : Prop :=
  ∃ t t', parseWitnessAwareBtcTx sha256 tx 100000 100000 = some t ∧
    parseWitnessAwareBtcTx sha256 tx' 100000 100000 = some t' ∧ t.txid = t'.txid ∧
    t.prevouts = t'.prevouts ∧ t.outputs = t'.outputs

section
variable (h : parseWitnessAwareBtcTx sha256 tx maxInputs maxOutputs = some t)
include h

theorem parseWitnessAwareBtcTx_inputs_le : t.prevouts.length ≤ maxInputs := by
  obtain ⟨_, _, _, _, _, hins, -, -⟩ := parseWitnessAwareBtcTx_eq_some h
  exact (readInputs_limit hins le_rfl).1

theorem parseWitnessAwareBtcTx_outputs_le : t.outputs.length ≤ maxOutputs := by
  obtain ⟨_, _, _, _, _, -, houts, -⟩ := parseWitnessAwareBtcTx_eq_some h
  exact (readOutputs_limit houts le_rfl).1

theorem parseWitnessAwareBtcTx_limit {maxInputs' : Nat} (hle : t.prevouts.length ≤ maxInputs')
    (hne : maxInputs' ≠ 0) : parseWitnessAwareBtcTx sha256 tx maxInputs' maxOutputs = some t := by
  obtain ⟨_, _, _, _, htake, hins, -, -⟩ := parseWitnessAwareBtcTx_eq_some h
  obtain ⟨_, hguard, h⟩ := bind_eq_some.mp h
  obtain ⟨hlen, -, hmo⟩ := (Option.guard_eq_some' ..).mp hguard
  obtain ⟨⟨version, body⟩, htake', h⟩ := bind_eq_some.mp h
  obtain ⟨_, hflag, h⟩ := bind_eq_some.mp h
  cases htake.symm.trans htake'
  refine bind_step (guard_pos ⟨hlen, hne, hmo⟩) ?_
  refine bind_step htake ?_
  refine bind_step hflag ?_
  refine bind_step (readInputs_limit hins hle).2 ?_
  exact (bind_of_eq_some hins _).symm.trans h

end

theorem sameTx_of_txid {maxInputs' : Nat}
    (h : parseWitnessAwareBtcTx sha256 tx maxInputs 100000 = some t)
    (h' : parseWitnessAwareBtcTx sha256 tx' maxInputs' 100000 = some t')
    (hin : maxInputs ≤ 100000) (hin' : maxInputs' ≤ 100000) (hid : t.txid = t'.txid)
    (hfree : NoCollision sha256 tx tx') :
    SameTx sha256 tx tx' ∧ t.prevouts = t'.prevouts ∧ t.outputs = t'.outputs := by
  obtain ⟨s, hs, htxid, hc⟩ := strippedTx_content h hin le_rfl
  obtain ⟨s', hs', htxid', hc'⟩ := strippedTx_content h' hin' le_rfl
  obtain rfl := hfree s s' hs hs' (htxid.symm.trans (hid.trans htxid'))
  obtain ⟨hprev, houts⟩ := Prod.mk.inj (Option.some.inj (hc.symm.trans hc'))
  refine ⟨⟨t, t', ?_, ?_, hid, hprev, houts⟩, hprev, houts⟩
  · exact parseWitnessAwareBtcTx_limit h ((parseWitnessAwareBtcTx_inputs_le h).trans hin) (by decide)
  · exact parseWitnessAwareBtcTx_limit h' ((parseWitnessAwareBtcTx_inputs_le h').trans hin')
      (by decide)

theorem SameTx.parse (hs : SameTx sha256 tx tx')
    (h : parseWitnessAwareBtcTx sha256 tx maxInputs 100000 = some t) (hin : maxInputs ≤ 100000)
    (hne : maxInputs ≠ 0) :
    ∃ t', parseWitnessAwareBtcTx sha256 tx' maxInputs 100000 = some t' ∧ t'.txid = t.txid ∧
      t'.prevouts = t.prevouts ∧ t'.outputs = t.outputs := by
  obtain ⟨a, a', ha, ha', hid, hprev, houts⟩ := hs
  have hle := parseWitnessAwareBtcTx_inputs_le h
  have hwide := parseWitnessAwareBtcTx_limit h (hle.trans hin) (by decide)
  obtain rfl : t = a := Option.some.inj (hwide.symm.trans ha)
  exact ⟨a', parseWitnessAwareBtcTx_limit ha' (hprev ▸ hle) hne, hid.symm, hprev.symm, houts.symm⟩

/-! ## Writing a transaction -/

/-- The shortest CompactSize of a number below `2 ^ 16`. -/
def putVarint (n : Nat) : Bytes := if n < 0xfd then [UInt8.ofNat n] else 0xfd :: putLE 2 n

def putInput (i : BtcPrevout × Bytes) : Bytes :=
  i.1.txid.bytes ++ (putLE 4 i.1.vout ++ (putVarint i.2.length ++ (i.2 ++ putLE 4 0)))

def putOutput (o : BtcTxOut) : Bytes := putLE 8 o.value ++ (putVarint o.spk.length ++ o.spk)

/-- A transaction without witness. -/
def serializeTx (ins : List (BtcPrevout × Bytes)) (outs : List BtcTxOut) : Bytes :=
  putLE 4 2 ++ (putVarint ins.length ++ (ins.flatMap putInput ++ (putVarint outs.length ++
    (outs.flatMap putOutput ++ putLE 4 0))))

theorem readCanonicalVarint_putVarint {n : Nat} (hn : n < 2 ^ 16) (rest : Bytes) :
    readCanonicalVarint (putVarint n ++ rest) = some (n, rest) := by
  unfold putVarint
  split
  · rename_i hsmall
    have hval : (UInt8.ofNat n).toNat = n := by
      rw [UInt8.toNat_ofNat']
      omega
    have hlt : UInt8.ofNat n < 0xfd := by
      rw [UInt8.lt_iff_toNat_lt, hval]
      exact hsmall
    have hne : ∀ c : UInt8, 0xfd ≤ c → UInt8.ofNat n ≠ c := fun c hc heq =>
      absurd (heq ▸ hlt) (UInt8.not_lt.mpr hc)
    simp [readCanonicalVarint, readVarint, hlt, hval, guard, hne 0xfd (by decide),
      hne 0xfe (by decide), hne 0xff (by decide)]
  · rename_i hlarge
    have hread := readLE_putLE (n := 2) (v := n) (by omega) rest
    simp [readCanonicalVarint, readVarint, hread, guard, Nat.le_of_not_lt hlarge]

theorem readMany_map {α β : Type} {read : Bytes → Option (β × Bytes)} {write : α → Bytes}
    {f : α → β} {as : List α}
    (h : ∀ a ∈ as, ∀ rest, read (write a ++ rest) = some (f a, rest)) (rest : Bytes) :
    readMany read as.length (as.flatMap write ++ rest) = some (as.map f, rest) := by
  induction as with
  | nil => rfl
  | cons a as ih =>
    have ih := ih fun b hb => h b (mem_cons_of_mem _ hb)
    simp [readMany, h a mem_cons_self, ih]

theorem readInput_putInput {i : BtcPrevout × Bytes} (hvout : i.1.vout < 2 ^ 32)
    (hscript : i.2.length < 2 ^ 16) (rest : Bytes) :
    readInput readCanonicalVarint (putInput i ++ rest) = some (i.1, rest) := by
  have hread := readLE_putLE (n := 4) (v := i.1.vout) (by omega)
    (putVarint i.2.length ++ (i.2 ++ (putLE 4 0 ++ rest)))
  have htake : takeN (i.2.length + 4) (i.2 ++ (putLE 4 0 ++ rest)) =
      some (i.2 ++ putLE 4 0, rest) := by
    rw [takeN_eq_some]
    exact ⟨(append_assoc ..).symm, by simp⟩
  simp only [readInput, readPrevout, putInput, append_assoc, readHash_bytes, hread, some_bind,
    Option.pure_def, readCanonicalVarint_putVarint hscript, htake]

theorem readOutput_putOutput {o : BtcTxOut} (hvalue : o.value < 2 ^ 64)
    (hscript : o.spk.length < 2 ^ 16) (rest : Bytes) :
    readOutput readCanonicalVarint (putOutput o ++ rest) = some (o, rest) := by
  have hread := readLE_putLE (n := 8) (v := o.value) (by omega)
    (putVarint o.spk.length ++ (o.spk ++ rest))
  simp only [readOutput, putOutput, append_assoc, hread, some_bind,
    readCanonicalVarint_putVarint hscript, takeN_append, Option.pure_def]

theorem parse_serializeTx {ins : List (BtcPrevout × Bytes)} {outs : List BtcTxOut}
    (hins : ins ≠ []) (hinsLe : ins.length ≤ maxInputs) (hinsLt : ins.length < 2 ^ 16)
    (houts : outs ≠ []) (houtsLe : outs.length ≤ maxOutputs) (houtsLt : outs.length < 2 ^ 16)
    (hin : ∀ i ∈ ins, i.1.vout < 2 ^ 32 ∧ i.2.length < 2 ^ 16)
    (hout : ∀ o ∈ outs, o.value < 2 ^ 64 ∧ o.spk.length < 2 ^ 16) :
    parseWitnessAwareBtcTx sha256 (serializeTx ins outs) maxInputs maxOutputs =
      some ⟨hash256d sha256 (serializeTx ins outs), false, ins.map Prod.fst, outs⟩ := by
  have hinsPos : ins.length ≠ 0 := by simpa using hins
  have houtsPos : outs.length ≠ 0 := by simpa using houts
  have hreadIns := readMany_map (f := Prod.fst) (fun i hi => readInput_putInput (hin i hi).1 (hin i hi).2)
    (putVarint outs.length ++ (outs.flatMap putOutput ++ putLE 4 0))
  have hreadOuts := readMany_flatMap (fun o ho => readOutput_putOutput (hout o ho).1 (hout o ho).2)
    (putLE 4 0)
  refine parse_legacy (takeN_append (putLE 4 2) _)
    ((bind_of_eq_some (readCanonicalVarint_putVarint hinsLt _) _).trans
      ((bind_of_eq_some (guard_pos ⟨hinsPos, hinsLe⟩) _).trans hreadIns))
    ((bind_of_eq_some (readCanonicalVarint_putVarint houtsLt _) _).trans
      ((bind_of_eq_some (guard_pos ⟨houtsPos, houtsLe⟩) _).trans hreadOuts)) (putLE_length 4 0)

end Veld.Btcspv
