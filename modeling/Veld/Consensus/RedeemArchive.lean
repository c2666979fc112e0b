import Veld.Lib.RadixTrie
import Veld.Consensus.SignerBond

/-!
# The redeem archive

`consensus/redeem_archive.h`: an authenticated radix map. Its nodes are records in a store that knows nothing
but hashes; the covenant keeps a root hash and a count.
-/

namespace Veld.Btcveld.Archive

open Wire

/-- `Read` and `Write`, with the records they share. -/
structure Backend where
  Store : Type
  initial : Store
  available : Bool
  read : Store → Hash256 → Option Bytes
  write : Store → List (Hash256 × Bytes) → Option Store

/-- `Root`. The store is not part of the source's root: it is carried along because a read sees what
was written before. -/
structure Root (B : Backend) where
  hash : Hash256
  count : Nat
  store : B.Store

inductive Node where
  | leaf (key : Hash256) (value : Bytes)
  | branch (depth : Nat) (left right : Hash256)

def leafRecord (key : Hash256) (value : Bytes) : Bytes := 0 :: (key.bytes ++ value)

def branchRecord (depth : Nat) (left right : Hash256) : Bytes :=
  1 :: (putLE 2 depth ++ (left.bytes ++ right.bytes))

/-- A branch on the way down and the hash it was loaded from. -/
structure Passed where
  depth : Nat
  left : Hash256
  right : Hash256
  hash : Hash256

section
variable (sha256 : Bytes → Hash256) {B : Backend}

def hashRecord (record : Bytes) : Hash256 :=
  sha256Domain sha256 "VELD_REDEEM_ARCHIVE_NODE_v1|" record

def emptyRoot : Hash256 := hashRecord sha256 [2]

/-- The two shapes of a record. -/
def parseNode : Bytes → Option Node
  | 0 :: rest => do
    let (key, value) ← readHash rest
    return .leaf key value
  | 1 :: rest => do
    let (depth, r) ← readLE 2 rest
    let (left, r) ← readHash r
    let (right, r) ← readHash r
    guard (r = [] ∧ depth < 256 ∧ left ≠ emptyRoot sha256 ∧ right ≠ emptyRoot sha256)
    return .branch depth left right
  | _ => none

def load (store : B.Store) (hash : Hash256) : Option Node := do
  let raw ← B.read store hash
  guard (hashRecord sha256 raw = hash)
  parseNode sha256 raw

/-- The walk to a leaf: the branches passed, the leaf, and the leaf's hash. -/
def descend (store : B.Store) (key : Hash256) : Nat → Int → Hash256 →
    Option (List Passed × (Hash256 × Bytes) × Hash256)
  | 0, _, _ => none
  | steps + 1, previous, cursor => do
    match ← load sha256 store cursor with
    | .leaf k v => return ([], (k, v), cursor)
    | .branch depth left right =>
      guard (previous < depth)
      let (path, terminal, last) ←
        descend store key steps depth (if Btcnull.bitAt key depth then right else left)
      return (⟨depth, left, right, cursor⟩ :: path, terminal, last)

def CheckRoot (root : Root B) : Prop := root.count = 0 ↔ root.hash = emptyRoot sha256

instance (root : Root B) : Decidable (CheckRoot sha256 root) := by
  unfold CheckRoot; infer_instance

def get (root : Root B) (key : Hash256) : Option (Option Bytes) := do
  guard (CheckRoot sha256 root)
  if root.count = 0 then return none
  else
    let (_, terminal, _) ← descend sha256 root.store key 257 (-1) root.hash
    return if terminal.1 = key then some terminal.2 else none

/-- The records staged for a write and the hash of the last one. -/
structure Staged where
  records : List (Hash256 × Bytes)
  child : Hash256

def stage (records : List (Hash256 × Bytes)) (record : Bytes) : Staged :=
  ⟨records ++ [(hashRecord sha256 record, record)], hashRecord sha256 record⟩

/-- The new leaf beside the subtree it parts from. -/
def stageSplit (key : Hash256) (split : Nat) (oldSubtree : Hash256) (s : Staged) : Staged :=
  stage sha256 s.records (if Btcnull.bitAt key split then branchRecord split oldSubtree s.child
    else branchRecord split s.child oldSubtree)

/-- One ancestor with its child replaced. -/
def stageParent (key : Hash256) (parent : Passed) (s : Staged) : Staged :=
  stage sha256 s.records (if Btcnull.bitAt key parent.depth then
      branchRecord parent.depth parent.left s.child
    else branchRecord parent.depth s.child parent.right)

/-- The first bit where two keys differ. -/
def splitOf (a b : Hash256) : Option Nat :=
  (List.range 256).find? fun i => Btcnull.bitAt a i != Btcnull.bitAt b i

/-- The leaf, the split, and the ancestors above it, deepest first. -/
def stagePath (key : Hash256) (value : Bytes) (split : Nat) (path : List Passed)
    (cursor : Hash256) : Staged :=
  let ancestors := path.takeWhile fun p => p.depth < split
  let oldSubtree := ((path.drop ancestors.length).head?.map Passed.hash).getD cursor
  ancestors.foldr (stageParent sha256 key)
    (stageSplit sha256 key split oldSubtree (stage sha256 [] (leafRecord key value)))

/-- The root after a batch is written. -/
def publish (root : Root B) (s : Staged) : Option (Root B) := do
  let store ← B.write root.store s.records
  return ⟨s.child, root.count + 1, store⟩

/-- `Insert`. An exact repetition changes nothing, another value for a key is refused. -/
def insert (root : Root B) (key : Hash256) (value : Bytes) : Option (Root B) := do
  guard (CheckRoot sha256 root ∧ B.available)
  if root.count = 0 then publish root (stage sha256 [] (leafRecord key value))
  else
    let (path, terminal, cursor) ← descend sha256 root.store key 257 (-1) root.hash
    if terminal.1 = key then
      guard (terminal.2 = value)
      return root
    else
      guard (root.count ≠ uint64Max)
      let split ← splitOf key terminal.1
      publish root (stagePath sha256 key value split path cursor)

def archive (B : Backend) : RedeemArchive where
  Root := Root B
  emptyRoot := ⟨emptyRoot sha256, 0, B.initial⟩
  available := B.available
  get := get sha256
  insert := insert sha256

end

/-! ## Tries behind hashes -/

open RadixTrie

abbrev ArchiveTrie := Trie Hash256 Bytes

section
variable (sha256 : Bytes → Hash256)

/-- The hash of a trie, all of whose nodes are records. -/
def digest : ArchiveTrie → Hash256
  | .leaf key value => hashRecord sha256 (leafRecord key value)
  | .branch depth left right =>
    hashRecord sha256 (branchRecord depth (digest left) (digest right))

def record : ArchiveTrie → Bytes
  | .leaf key value => leafRecord key value
  | .branch depth left right => branchRecord depth (digest sha256 left) (digest sha256 right)

/-- What is read from the record at the top. -/
def top : ArchiveTrie → Node
  | .leaf key value => .leaf key value
  | .branch depth left right => .branch depth (digest sha256 left) (digest sha256 right)

def pathOf (key : Hash256) : ArchiveTrie → List Passed
  | .leaf _ _ => []
  | .branch depth left right =>
    ⟨depth, digest sha256 left, digest sha256 right, digest sha256 (.branch depth left right)⟩ ::
      if Btcnull.bitAt key depth then pathOf key right else pathOf key left

def Written (W : Set Bytes) : ArchiveTrie → Prop
  | .leaf key value => leafRecord key value ∈ W
  | .branch depth left right =>
    branchRecord depth (digest sha256 left) (digest sha256 right) ∈ W ∧ depth < 256 ∧
      Written W left ∧ Written W right

end

/-- A backend that holds and accepts records of `W` only. -/
structure Backend.Within (B : Backend) (W : Set Bytes) : Prop where
  read_mem : ∀ {store : B.Store} {hash : Hash256} {raw : Bytes},
    B.read store hash = some raw → raw ∈ W
  write_mem : ∀ {store store' : B.Store} {records : List (Hash256 × Bytes)},
    B.write store records = some store' → ∀ row ∈ records, row.2 ∈ W

section
variable {sha256 : Bytes → Hash256} {B : Backend} {W : Set Bytes} {store : B.Store} {t : ArchiveTrie}
  {key : Hash256} {value : Bytes}

theorem digest_eq (t : ArchiveTrie) : digest sha256 t = hashRecord sha256 (record sha256 t) := by
  cases t <;> rfl

theorem Written.record_mem (h : Written sha256 W t) : record sha256 t ∈ W := by
  cases t with
  | leaf k v => exact h
  | branch d l r => exact h.1

theorem parseNode_record (h : Written sha256 W t) {node : Node}
    (hnode : parseNode sha256 (record sha256 t) = some node) : node = top sha256 t := by
  cases t with
  | leaf k v =>
    simp only [record, leafRecord, parseNode, readHash_bytes, some_bind, Option.pure_def,
      Option.some.injEq] at hnode
    exact hnode.symm
  | branch d l r =>
    have hdepth : d < 256 ^ 2 := lt_trans h.2.1 (by decide)
    simp only [record, branchRecord, parseNode, readLE_putLE hdepth, readHash_bytes, some_bind,
      Option.pure_def] at hnode
    have hlast : readHash (digest sha256 r).bytes = some (digest sha256 r, []) := by
      simpa using readHash_bytes (digest sha256 r) []
    simp only [hlast, some_bind, bind_eq_some, Option.some.injEq] at hnode
    obtain ⟨-, -, hnode⟩ := hnode
    exact hnode.symm

theorem load_digest (hinj : Set.InjOn (hashRecord sha256) W) (hB : B.Within W)
    (h : Written sha256 W t) {node : Node} (hload : load sha256 store (digest sha256 t) = some node) :
    node = top sha256 t := by
  simp only [load, bind_eq_some, Option.guard_eq_some'] at hload
  obtain ⟨raw, hraw, -, hhash, hnode⟩ := hload
  rw [digest_eq] at hhash
  rw [hinj (hB.read_mem hraw) h.record_mem hhash] at hnode
  exact parseNode_record h hnode

variable {path : List Passed}

theorem descend_digest (hinj : Set.InjOn (hashRecord sha256) W) (hB : B.Within W)
    (h : Written sha256 W t) {steps : Nat} {previous : Int} {terminal : Hash256 × Bytes}
    {cursor : Hash256} (hwalk : descend sha256 store key steps previous (digest sha256 t) =
      some (path, terminal, cursor)) :
    path = pathOf sha256 key t ∧ terminal = t.terminal Btcnull.bitAt key ∧
      cursor = digest sha256 (.leaf terminal.1 terminal.2) := by
  induction t generalizing steps previous path with
  | leaf k v =>
    cases steps with
    | zero => cases hwalk
    | succ steps =>
      simp only [descend, bind_eq_some] at hwalk
      obtain ⟨node, hload, hwalk⟩ := hwalk
      rw [load_digest hinj hB h hload] at hwalk
      cases hwalk
      exact ⟨rfl, rfl, rfl⟩
  | branch d l r ihl ihr =>
    cases steps with
    | zero => cases hwalk
    | succ steps =>
      simp only [descend, bind_eq_some] at hwalk
      obtain ⟨node, hload, hwalk⟩ := hwalk
      rw [load_digest hinj hB h hload] at hwalk
      simp only [top, bind_eq_some, Prod.exists] at hwalk
      obtain ⟨-, -, path', _, _, last, hrest, heq⟩ := hwalk
      cases heq
      cases hbit : Btcnull.bitAt key d with
      | true =>
        rw [hbit, if_pos rfl] at hrest
        obtain ⟨hpath, hterminal, hcursor⟩ := ihr h.2.2.2 hrest
        simp only [pathOf, Trie.terminal, hbit, if_true]
        exact ⟨by rw [hpath], hterminal, hcursor⟩
      | false =>
        rw [hbit, if_neg (by decide)] at hrest
        obtain ⟨hpath, hterminal, hcursor⟩ := ihl h.2.2.1 hrest
        simp only [pathOf, Trie.terminal, hbit, Bool.false_eq_true, if_false]
        exact ⟨by rw [hpath], hterminal, hcursor⟩

/-! ## Insertion -/

variable {split : Nat}

theorem stagePath_below {p : Passed} (h : p.depth < split) (cursor : Hash256) :
    stagePath sha256 key value split (p :: path) cursor =
      stageParent sha256 key p (stagePath sha256 key value split path cursor) := by
  simp [stagePath, h]

theorem stagePath_at {p : Passed} (h : ¬ p.depth < split) (cursor : Hash256) :
    stagePath sha256 key value split (p :: path) cursor =
      stageSplit sha256 key split p.hash (stage sha256 [] (leafRecord key value)) := by
  simp [stagePath, h]

variable {records : List (Hash256 × Bytes)}

theorem stage_within {r : Bytes} :
    (∀ row ∈ (stage sha256 records r).records, row.2 ∈ W) ↔
      (∀ row ∈ records, row.2 ∈ W) ∧ r ∈ W := by
  simp [stage, or_imp, forall_and]

def Hashed (sha256 : Bytes → Hash256) (s : Staged) : Prop :=
  ∀ row ∈ s.records, row.1 = hashRecord sha256 row.2

theorem hashed_stage {r : Bytes} (h : ∀ row ∈ records, row.1 = hashRecord sha256 row.2) :
    Hashed sha256 (stage sha256 records r) := by
  intro row hrow
  rcases List.mem_append.mp hrow with hrow | hrow
  · exact h row hrow
  · rw [List.mem_singleton.mp hrow]

theorem hashed_stagePath {cursor : Hash256} :
    Hashed sha256 (stagePath sha256 key value split path cursor) := by
  have hsplit (oldSubtree : Hash256) : Hashed sha256
      (stageSplit sha256 key split oldSubtree (stage sha256 [] (leafRecord key value))) :=
    hashed_stage (hashed_stage nofun)
  induction path with
  | nil => exact hsplit cursor
  | cons p rest ih =>
    by_cases hlt : p.depth < split
    · rw [stagePath_below hlt]
      exact hashed_stage ih
    · rw [stagePath_at hlt]
      exact hsplit p.hash

def Makes (sha256 : Bytes → Hash256) (W : Set Bytes) (s : Staged) (t : ArchiveTrie) : Prop :=
  s.child = digest sha256 t ∧ ((∀ row ∈ s.records, row.2 ∈ W) → Written sha256 W t)

theorem makes_leaf : Makes sha256 W (stage sha256 [] (leafRecord key value)) (.leaf key value) :=
  ⟨rfl, fun hW => (stage_within.mp hW).2⟩

theorem makes_join (h : Written sha256 W t) (hsplit : split < 256) :
    Makes sha256 W (stageSplit sha256 key split (digest sha256 t)
      (stage sha256 [] (leafRecord key value))) (t.join Btcnull.bitAt key value split) := by
  unfold stageSplit Trie.join
  split
  · refine ⟨rfl, fun hW => ?_⟩
    obtain ⟨hleaf, hbranch⟩ := stage_within.mp hW
    exact ⟨hbranch, hsplit, h, makes_leaf.2 hleaf⟩
  · refine ⟨rfl, fun hW => ?_⟩
    obtain ⟨hleaf, hbranch⟩ := stage_within.mp hW
    exact ⟨hbranch, hsplit, makes_leaf.2 hleaf, h⟩

theorem makes_graft (h : Written sha256 W t) (hsplit : split < 256) :
    Makes sha256 W (stagePath sha256 key value split (pathOf sha256 key t)
      (digest sha256 (.leaf (t.terminal Btcnull.bitAt key).1 (t.terminal Btcnull.bitAt key).2)))
      (t.graft Btcnull.bitAt key value split) := by
  induction t with
  | leaf k v => exact makes_join h hsplit
  | branch d l r ihl ihr =>
    unfold Trie.graft
    by_cases hlt : d < split
    · rw [if_pos hlt, pathOf, stagePath_below hlt]
      cases hbit : Btcnull.bitAt key d with
      | true =>
        obtain ⟨hchild, hwritten⟩ := ihr h.2.2.2
        simp only [Trie.terminal, stageParent, hbit, if_true, hchild]
        refine ⟨rfl, fun hW => ?_⟩
        obtain ⟨hbelow, hbranch⟩ := stage_within.mp hW
        exact ⟨hbranch, h.2.1, h.2.2.1, hwritten hbelow⟩
      | false =>
        obtain ⟨hchild, hwritten⟩ := ihl h.2.2.1
        simp only [Trie.terminal, stageParent, hbit, Bool.false_eq_true, if_false, hchild]
        refine ⟨rfl, fun hW => ?_⟩
        obtain ⟨hbelow, hbranch⟩ := stage_within.mp hW
        exact ⟨hbranch, h.2.1, hwritten hbelow, h.2.2.2⟩
    · rw [if_neg hlt, pathOf, stagePath_at hlt]
      exact makes_join h hsplit

theorem splitOf_eq_some {a b : Hash256} (h : splitOf a b = some split) :
    split < 256 ∧ Btcnull.bitAt b split = !Btcnull.bitAt a split ∧
      ∀ i < split, Btcnull.bitAt b i = Btcnull.bitAt a i := by
  obtain ⟨hdiffer, hrange, hbefore⟩ := List.find?_range_eq_some.mp h
  refine ⟨List.mem_range.mp hrange, ?_, fun i hi => ?_⟩
  · cases ha : Btcnull.bitAt a split <;> simpa [ha] using hdiffer
  · have hsame := hbefore i hi
    simp only [Bool.not_eq_true', bne_eq_false_iff_eq] at hsame
    exact hsame.symm

/-! ## What a root holds -/

/-- The map an archive root stands for. -/
def Holds (sha256 : Bytes → Hash256) (W : Set Bytes) (root : Root B)
    (m : Hash256 → Option Bytes) : Prop :=
  root.count = 0 ∧ m = (fun _ => none) ∨
    root.count ≠ 0 ∧ ∃ t, root.hash = digest sha256 t ∧ Written sha256 W t ∧
      t.Sorted Btcnull.bitAt ∧ ∀ k v, m k = some v ↔ (k, v) ∈ t.entries

theorem holds_empty : Holds sha256 W (⟨emptyRoot sha256, 0, B.initial⟩ : Root B) fun _ => none :=
  .inl ⟨rfl, rfl⟩

variable {root root' : Root B} {m : Hash256 → Option Bytes}

theorem get_eq_some (hinj : Set.InjOn (hashRecord sha256) W) (hB : B.Within W)
    (h : Holds sha256 W root m) {answer : Option Bytes} (hget : get sha256 root key = some answer) :
    answer = m key := by
  simp only [get, bind_eq_some] at hget
  obtain ⟨-, -, hget⟩ := hget
  rcases h with ⟨hcount, rfl⟩ | ⟨hcount, t, hhash, hwritten, hsorted, hm⟩
  · rw [if_pos hcount] at hget
    cases hget
    rfl
  · rw [if_neg hcount, hhash] at hget
    simp only [bind_eq_some, Prod.exists] at hget
    obtain ⟨path, k, v, cursor, hwalk, heq⟩ := hget
    obtain ⟨-, hterminal, -⟩ := descend_digest hinj hB hwritten hwalk
    have hlookup : t.lookup Btcnull.bitAt key = answer := by
      rw [Trie.lookup, ← hterminal]
      exact Option.some.inj heq
    rw [← hlookup]
    refine Option.ext fun v => ?_
    rw [hsorted.lookup_eq_some, hm]

theorem holds_publish (hB : B.Within W) {s : Staged} (hmakes : Makes sha256 W s t)
    (hsorted : t.Sorted Btcnull.bitAt) (hm : ∀ k v, m k = some v ↔ (k, v) ∈ t.entries)
    (h : publish root s = some root') : Holds sha256 W root' m := by
  simp only [publish, bind_eq_some] at h
  obtain ⟨store, hwrite, heq⟩ := h
  cases heq
  exact .inr ⟨Nat.succ_ne_zero _, t, hmakes.1, hmakes.2 (hB.write_mem hwrite), hsorted, hm⟩

theorem update_eq_some {k : Hash256} {v : Bytes} (hnone : m key = none) :
    Function.update m key (some value) k = some v ↔ (k, v) = (key, value) ∨ m k = some v := by
  by_cases hk : k = key
  · subst hk
    simp [hnone, eq_comm]
  · simp [hk]

section
variable (hinj : Set.InjOn (hashRecord sha256) W) (hB : B.Within W)
include hinj hB

theorem insert_shape (hcount : root.count ≠ 0) (hhash : root.hash = digest sha256 t)
    (hwritten : Written sha256 W t) (hsorted : t.Sorted Btcnull.bitAt)
    (hinsert : insert sha256 root key value = some root') :
    (key, value) ∈ t.entries ∧ root' = root ∨
      (∀ v, (key, v) ∉ t.entries) ∧ ∃ s t', publish root s = some root' ∧ Hashed sha256 s ∧
        (∀ V, Written sha256 V t → Makes sha256 V s t') ∧ t'.Sorted Btcnull.bitAt ∧
        t'.entries.length = t.entries.length + 1 ∧
        ∀ x, x ∈ t'.entries ↔ x = (key, value) ∨ x ∈ t.entries := by
  simp only [insert, bind_eq_some] at hinsert
  obtain ⟨-, -, hinsert⟩ := hinsert
  rw [if_neg hcount, hhash] at hinsert
  simp only [bind_eq_some, Prod.exists] at hinsert
  obtain ⟨path, k, v, cursor, hwalk, hinsert⟩ := hinsert
  obtain ⟨rfl, hterminal, rfl⟩ := descend_digest hinj hB hwritten hwalk
  have hmem := Trie.terminal_mem Btcnull.bitAt t key
  rw [← hterminal] at hmem
  split at hinsert
  · rename_i hkey
    simp only [bind_eq_some, Option.guard_eq_some'] at hinsert
    obtain ⟨-, hvalue, heq⟩ := hinsert
    cases heq
    exact .inl ⟨by rwa [← hkey, ← hvalue], rfl⟩
  · rename_i hkey
    simp only [bind_eq_some] at hinsert
    obtain ⟨-, -, split, hsplit, hpublish⟩ := hinsert
    obtain ⟨hlt, hpart, hagree⟩ := splitOf_eq_some hsplit
    rw [show k = (t.terminal Btcnull.bitAt key).1 by rw [← hterminal]] at hpart hagree
    refine .inr ⟨fun v' hv' => ?_, _, t.graft Btcnull.bitAt key value split, hpublish,
      hashed_stagePath, fun V hV => ?_, hsorted.graft hagree hpart, Trie.length_graft, fun x => Trie.mem_graft⟩
    · have := hsorted.terminal_eq hv'
      rw [← hterminal] at this
      exact hkey (congrArg Prod.fst this)
    · have hmakes : Makes sha256 V (stagePath sha256 key value split (pathOf sha256 key t) _)
          (t.graft Btcnull.bitAt key value split) := makes_graft hV hlt
      rwa [← hterminal] at hmakes

theorem insert_eq_some (h : Holds sha256 W root m)
    (hinsert : insert sha256 root key value = some root') :
    (m key = none ∨ m key = some value) ∧
      Holds sha256 W root' (Function.update m key (some value)) := by
  rcases h with ⟨hcount, rfl⟩ | ⟨hcount, t, hhash, hwritten, hsorted, hm⟩
  · simp only [insert, bind_eq_some, if_pos hcount] at hinsert
    obtain ⟨-, -, hinsert⟩ := hinsert
    refine ⟨.inl rfl, holds_publish hB makes_leaf trivial (fun k v => ?_) hinsert⟩
    rw [update_eq_some rfl]
    simp [Trie.entries]
  · obtain ⟨hmem, rfl⟩ | ⟨hfresh, s, t', hpublish, -, hmakes, hsorted', -, hmem⟩ :=
      insert_shape hinj hB hcount hhash hwritten hsorted hinsert
    · have hsome : m key = some value := (hm _ _).mpr hmem
      refine ⟨.inr hsome, ?_⟩
      rw [← hsome, Function.update_eq_self]
      exact .inr ⟨hcount, t, hhash, hwritten, hsorted, hm⟩
    · have hnone : m key = none := by
        rw [Option.eq_none_iff_forall_ne_some]
        exact fun v hv => hfresh v ((hm _ _).mp hv)
      refine ⟨.inl hnone, holds_publish hB (hmakes W hwritten) hsorted' (fun k v => ?_) hpublish⟩
      rw [update_eq_some hnone, hm, hmem]

/-- The archive is a map: it may fail, but what it answers and accepts is right. -/
theorem archive_sound :
    (archive sha256 B).Sound (Holds sha256 W) where
  empty := holds_empty
  get h hget := get_eq_some hinj hB h hget
  insert h hinsert := insert_eq_some hinj hB h hinsert

end

end

end Veld.Btcveld.Archive
