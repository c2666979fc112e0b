import Veld.Lib.Text
import Veld.Token.Op

/-!
# The text of a token operation

What `EncodeTokenOp` writes and `DecodeTokenOp` reads.
-/

namespace Wire

open List

section
variable {sep : UInt8} {p rest bs : Bytes}

theorem getlines_cons (h : sep ∉ p) : getlines sep (p ++ sep :: rest) = p :: getlines sep rest := by
  have hfields : fields sep (p ++ sep :: rest) = p :: fields sep rest :=
    splitOn_append_cons_self_of_not_mem h _
  have hne : fields sep rest ≠ [] := splitOn_ne_nil _ _
  unfold getlines
  rw [hfields]
  dsimp only
  rw [List.getLast?_cons_of_ne_nil hne, dropLast_cons_of_ne_nil hne]
  split <;> rfl

theorem joinWith_cons_cons (p q : Bytes) (pieces : List Bytes) :
    joinWith sep (p :: q :: pieces) = p ++ sep :: joinWith sep (q :: pieces) := by
  simp [joinWith]

theorem joinWith_concat_nil {pieces : List Bytes} (h : pieces ≠ []) :
    joinWith sep (pieces ++ [[]]) = joinWith sep pieces ++ [sep] := by
  induction pieces with
  | nil => exact absurd rfl h
  | cons p pieces ih =>
    cases pieces with
    | nil => simp [joinWith]
    | cons q pieces =>
      rw [cons_append, cons_append, joinWith_cons_cons, ← cons_append,
        ih (cons_ne_nil _ _), joinWith_cons_cons, append_assoc, cons_append]

theorem joinWith_getlines : joinWith sep (getlines sep bs) = bs ↔ bs.getLast? ≠ some sep := by
  have hjoin : joinWith sep (fields sep bs) = bs := intercalate_splitOn sep
  unfold getlines
  dsimp only
  split
  · rename_i hlast
    obtain ⟨init, hinit⟩ := List.getLast?_eq_some_iff.mp hlast
    rw [hinit, dropLast_concat]
    rw [hinit] at hjoin
    cases init with
    | nil =>
      obtain rfl : bs = [] := hjoin.symm
      exact iff_of_true rfl nofun
    | cons p init =>
      rw [joinWith_concat_nil (cons_ne_nil _ _)] at hjoin
      subst hjoin
      simp
  · rename_i hlast
    refine iff_of_true hjoin fun hsep => hlast ?_
    obtain ⟨init, rfl⟩ := List.getLast?_eq_some_iff.mp hsep
    have hfields : fields sep (init ++ [sep]) = fields sep init ++ [[]] :=
      splitOn_append_cons_self ..
    rw [hfields, List.getLast?_concat]

end

end Wire

namespace Veld

open Wire

/-- The fields of an operation are within their limits, and only the memo has separators. -/
structure TokenOpData.Valid (P : Profile) (op : TokenOpData) : Prop where
  tokenId : op.tokenId ≠ [] ∧ op.tokenId.length ≤ maxTokenIdBytes ∧ pipe ∉ op.tokenId
  fromAddr : op.fromAddr.length ≤ maxTokenAccountBytes ∧ pipe ∉ op.fromAddr
  toAddr : op.toAddr.length ≤ maxTokenAccountBytes ∧ pipe ∉ op.toAddr
  amount : 0 < op.amount ∧ op.amount ≤ int64Max
  memo : op.memo.length ≤ memoLimit P op.action op.tokenId

section
variable {P : Profile} {op : TokenOpData}

theorem encodeTokenOp_eq {n : Nat} (hn : op.amount = n) : encodeTokenOp op = ascii tokenOpReturnPrefix ++
    (op.action.text ++ pipe :: (op.tokenId ++ pipe :: (op.fromAddr ++ pipe :: (op.toAddr ++
      pipe :: (toDecimal n ++ pipe :: op.memo))))) := by
  have htext : ascii (toString op.amount) = toDecimal n := by
    rw [hn]
    rfl
  rw [encodeTokenOp, htext]
  simp [joinWith]

theorem TokenAction.text_facts (a : TokenAction) :
    pipe ∉ a.text ∧ TokenAction.ofText a.text = some a ∧ a.text.length ≤ 8 := by
  cases a <;> decide

theorem TokenOpData.Valid.length_le (h : op.Valid P) :
    (encodeTokenOp op).length ≤ maxTokenOpPayloadBytes P := by
  obtain ⟨n, hn⟩ := Int.eq_ofNat_of_zero_le h.amount.1.le
  have hdecimal : (toDecimal n).length ≤ 19 := by
    refine length_toDecimal (by decide) ?_
    have := h.amount.2
    rw [hn] at this
    exact lt_of_le_of_lt (Int.ofNat_le.mp this) (by decide)
  have htext := (TokenAction.text_facts op.action).2.2
  have hmemo : op.memo.length + 400 ≤ maxTokenOpPayloadBytes P := by
    have := h.memo
    unfold memoLimit maxTokenMemoBytes maxTokenFundMemoBytes maxTokenGeneralMemoBytes at this
    unfold maxTokenOpPayloadBytes
    split_ifs at this ⊢ <;> omega
  have hid := h.tokenId.2.1
  have hfrom := h.fromAddr.1
  have hto := h.toAddr.1
  have hprefix : (ascii tokenOpReturnPrefix).length = 11 := by decide
  unfold maxTokenIdBytes at hid
  unfold maxTokenAccountBytes at hfrom hto
  simp only [encodeTokenOp_eq hn, List.length_append, List.length_cons, hprefix]
  omega

theorem decodeTokenOp_encodeTokenOp (h : op.Valid P) :
    decodeTokenOp P (encodeTokenOp op) = some op ↔ joinWith pipe (getlines pipe op.memo) = op.memo := by
  obtain ⟨n, hn⟩ := Int.eq_ofNat_of_zero_le h.amount.1.le
  obtain ⟨htext, haction, -⟩ := TokenAction.text_facts op.action
  have hstart : startsWith (encodeTokenOp op) tokenOpReturnPrefix := by
    rw [startsWith, encodeTokenOp_eq hn, List.isPrefixOf_iff_prefix]
    exact List.prefix_append ..
  have hbehind : behind (encodeTokenOp op) tokenOpReturnPrefix = op.action.text ++ pipe ::
      (op.tokenId ++ pipe :: (op.fromAddr ++ pipe :: (op.toAddr ++ pipe ::
        (toDecimal n ++ pipe :: op.memo)))) := by
    rw [behind, encodeTokenOp_eq hn, List.drop_left]
  have hpieces : getlines pipe (behind (encodeTokenOp op) tokenOpReturnPrefix) = op.action.text ::
      op.tokenId :: op.fromAddr :: op.toAddr :: toDecimal n :: getlines pipe op.memo := by
    have hdigits : pipe ∉ toDecimal n := bar_notMem_of_digits fun c hc => isDigit_of_mem_toDecimal hc
    rw [hbehind, getlines_cons htext, getlines_cons h.tokenId.2.2, getlines_cons h.fromAddr.2,
      getlines_cons h.toAddr.2, getlines_cons hdigits]
  have hamount : readDecimal int64Max.toNat (toDecimal n) = some n := by
    refine readDecimal_toDecimal ?_
    have := h.amount.2
    omega
  have hn0 : n ≠ 0 := by
    have := h.amount.1
    omega
  have hlimits : op.tokenId ≠ [] ∧ op.tokenId.length ≤ maxTokenIdBytes ∧
      op.fromAddr.length ≤ maxTokenAccountBytes ∧ op.toAddr.length ≤ maxTokenAccountBytes :=
    ⟨h.tokenId.1, h.tokenId.2.1, h.fromAddr.1, h.toAddr.1⟩
  simp only [decodeTokenOp, guard_pos (And.intro h.length_le hstart), hpieces, haction, hamount,
    guard_pos hlimits, guard_pos hn0, some_bind, ← hn]
  constructor
  · intro hread
    obtain ⟨-, -, hop⟩ := bind_eq_some.mp hread
    exact congrArg TokenOpData.memo (Option.some.inj hop)
  · intro hmemo
    rw [hmemo, guard_pos ⟨h.memo, rfl⟩]
    rfl

end

/-- An operation with valid fields is read back from its text exactly when no separator ends its memo,
and each text that is read is the text of what it is read as. -/
theorem token_op_text (P : Profile) :
    (∀ op : TokenOpData, op.Valid P → (decodeTokenOp P (encodeTokenOp op) = some op ↔
      op.memo.getLast? ≠ some pipe)) ∧
    ∀ data op, decodeTokenOp P data = some op → encodeTokenOp op = data := by
  refine ⟨fun op h => (decodeTokenOp_encodeTokenOp h).trans joinWith_getlines, fun data op h => ?_⟩
  obtain ⟨-, -, h⟩ := bind_eq_some.mp h
  split at h
  · obtain ⟨_, -, h⟩ := bind_eq_some.mp h
    obtain ⟨-, -, h⟩ := bind_eq_some.mp h
    obtain ⟨_, -, h⟩ := bind_eq_some.mp h
    obtain ⟨-, -, h⟩ := bind_eq_some.mp h
    obtain ⟨_, hsame, h⟩ := bind_eq_some.mp h
    cases h
    simp only [Option.guard_eq_some'] at hsame
    exact hsame.2
  · cases h

def sampleTransfer (memo : String) : TokenOpData :=
  ⟨.transfer, ascii "T", ascii "a", ascii "b", 5, ascii memo⟩

theorem sampleTransfer_valid {memo : String} (h : (ascii memo).length ≤ 512) :
    (sampleTransfer memo).Valid .publicMainnet where
  tokenId := show ascii "T" ≠ [] ∧ (ascii "T").length ≤ 32 ∧ pipe ∉ ascii "T" by decide
  fromAddr := show (ascii "a").length ≤ 128 ∧ pipe ∉ ascii "a" by decide
  toAddr := show (ascii "b").length ≤ 128 ∧ pipe ∉ ascii "b" by decide
  amount := show (0 : Int) < 5 ∧ 5 ≤ int64Max by decide
  memo := h

theorem token_op_text_sample : decodeTokenOp .publicMainnet (encodeTokenOp (sampleTransfer "x|y")) =
    some (sampleTransfer "x|y") :=
  ((token_op_text .publicMainnet).1 _ (sampleTransfer_valid (by decide))).mpr (by decide)

/-- A memo that ends with the separator is written but not read. -/
theorem token_op_text_refused : (sampleTransfer "x|").Valid .publicMainnet ∧
    decodeTokenOp .publicMainnet (encodeTokenOp (sampleTransfer "x|")) ≠ some (sampleTransfer "x|") := by
  have hvalid : (sampleTransfer "x|").Valid .publicMainnet := sampleTransfer_valid (by decide)
  refine ⟨hvalid, fun h => ?_⟩
  exact joinWith_getlines.mp ((decodeTokenOp_encodeTokenOp hvalid).mp h) (by decide)

end Veld
