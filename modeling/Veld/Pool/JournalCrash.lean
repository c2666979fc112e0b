import Veld.Lib.HashChain
import Veld.Pool.Journal

/-!
# The journal of the pool survives crashes

The anchor names the last acknowledged event by its digest, so every log that an open accepts starts with the
acknowledged events.
-/

namespace Veld.Pool

open Wire List

section
variable {J : Type} (C : Codec J) (sha256 : Bytes → Hash256)

def journalChain : HashChain.Scheme Position (Entry J) Bytes Hash256 where
  text p entry := C.encode (p.event entry)
  next p entry := p.next C sha256 entry
  length := Position.seq
  digest := Position.digest
  hash := sha256
  digest_next _ _ := rfl
  length_next _ _ := rfl
  text_inj {p q a b} h := by
    have hevent := C.encode_injective h
    simp only [Position.event, JournalEvent.mk.injEq, Nat.add_right_cancel_iff] at hevent
    obtain ⟨hseq, hdigest, hentry⟩ := hevent
    refine ⟨?_, hentry⟩
    cases p
    cases q
    cases hseq
    cases hdigest
    rfl

abbrev position (history : List (Entry J)) : Position := HashChain.run (journalChain C sha256) .start history

/-- The texts of a history are in `W`. -/
abbrev Within (W : Set Bytes) (history : List (Entry J)) : Prop :=
  HashChain.Within (journalChain C sha256) W .start history

end

section
variable {J : Type} {C : Codec J} {sha256 : Bytes → Hash256} {W : Set Bytes}

theorem position_concat (history : List (Entry J)) (entry : Entry J) :
    position C sha256 (history ++ [entry]) = (position C sha256 history).next C sha256 entry :=
  HashChain.run_concat ..

theorem foldlM_invariant {ε α β : Type} {f : α → β → Except ε α} {P : α → Prop}
    (hstep : ∀ {a b a'}, f a b = .ok a' → P a → P a') {l : List β} {a a' : α} (h : l.foldlM f a = .ok a') (ha : P a) :
    P a' := by
  induction l generalizing a with
  | nil =>
    cases h
    exact ha
  | cons b rest ih =>
    rw [foldlM_cons] at h
    obtain ⟨a₁, hb, hrest⟩ := bind_eq_ok.mp h
    exact ih hrest (hstep hb ha)

/-! ## Reading -/

variable {p : Position}

theorem readLine_ok {line : Bytes} {event : JournalEvent J} {digest : Hash256}
    (h : readLine C sha256 p line = .ok (event, digest)) :
    (⟨event.seq, digest⟩ : Position) = p.next C sha256 event.entry := by
  unfold readLine at h
  split_ifs at h
  split at h
  · cases h
  · split_ifs at h with horder hdigest
    cases h
    obtain ⟨hseq, hprevious⟩ := not_or.mp horder
    have hevent : event = p.event event.entry := by
      cases event
      cases not_not.mp hseq
      cases not_not.mp hprevious
      rfl
    rw [Position.next, ← hevent, not_not.mp hdigest, not_not.mp hseq]

/-- What a replay has: its position is that of its history, and the anchor is met on the way. -/
structure Replayed (C : Codec J) (sha256 : Bytes → Hash256) (marker : Position) (r : Replay J) : Prop where
  reached : r.position = position C sha256 r.history
  anchored : r.seenAnchor → ∃ anchored, anchored <+: r.history ∧ position C sha256 anchored = marker

theorem Replayed.line {marker : Position} {r r' : Replay J} {line : Bytes}
    (h : replayLine C sha256 marker r line = .ok r')
    (hr : Replayed C sha256 marker r) : Replayed C sha256 marker r' := by
  unfold replayLine at h
  obtain ⟨⟨event, digest⟩, hread, h⟩ := bind_eq_ok.mp h
  have hnext := readLine_ok hread
  have hposition : (⟨event.seq, digest⟩ : Position) = position C sha256 (r.history ++ [event.entry]) := by
    rw [hnext, hr.reached, position_concat]
  obtain ⟨_, hmatch, h⟩ := bind_eq_ok.mp h
  obtain ⟨index, -, h⟩ := bind_eq_ok.mp h
  cases h
  refine ⟨hposition, fun hseen => ?_⟩
  rcases (Bool.or_eq_true_iff.mp hseen) with hbefore | hhere
  · obtain ⟨anchored, hinitial, hmarker⟩ := hr.anchored hbefore
    exact ⟨anchored, hinitial.trans (prefix_append _ _), hmarker⟩
  · refine ⟨_, prefix_refl _, ?_⟩
    have hseq := of_decide_eq_true hhere
    rw [← hposition, hseq, ensure_eq_ok.mp hmatch hseq]

theorem replay_ok {d : Disk} {r : Replay J} (h : replay C sha256 d = .ok r) :
    r.position = position C sha256 r.history ∧ ∃ marker, readMarker C d.anchor = .ok marker ∧
      ∃ anchored, anchored <+: r.history ∧ position C sha256 anchored = marker := by
  unfold replay at h
  obtain ⟨_, -, h⟩ := bind_eq_ok.mp h
  obtain ⟨marker, hmarker, h⟩ := bind_eq_ok.mp h
  obtain ⟨r₁, hfold, h⟩ := bind_eq_ok.mp h
  have hstart : Replayed C sha256 marker ⟨.start, marker = .start, d.index, []⟩ :=
    ⟨rfl, fun hseen => ⟨[], prefix_refl _, (of_decide_eq_true hseen).symm⟩⟩
  have hreplayed := foldlM_invariant (fun hline hr => Replayed.line hline hr) hfold hstart
  obtain ⟨_, hseen, h⟩ := bind_eq_ok.mp h
  obtain ⟨_, -, h⟩ := bind_eq_ok.mp h
  cases h
  exact ⟨hreplayed.reached, marker, hmarker, hreplayed.anchored (ensure_eq_ok.mp hseen)⟩

variable {history : List (Entry J)} {j : Journal J}

theorem events_ok {d : Disk} (h : events C sha256 d j = .ok history) :
    position C sha256 history = j.position := by
  unfold events at h
  obtain ⟨⟨last, read⟩, hfold, h⟩ := bind_eq_ok.mp h
  have hread := foldlM_invariant (P := fun acc => acc.1 = position C sha256 acc.2) (fun {acc line acc'} hline hacc => by
    unfold eventsLine at hline
    obtain ⟨⟨event, digest⟩, hevent, hline⟩ := bind_eq_ok.mp hline
    cases hline
    exact (readLine_ok hevent).trans (hacc ▸ (position_concat acc.2 event.entry).symm)) hfold rfl
  obtain ⟨_, hlast, h⟩ := bind_eq_ok.mp h
  cases h
  exact hread.symm.trans (ensure_eq_ok.mp hlast).1

/-! ## Runs -/

variable (C sha256 W) in
/-- Processes one after the other, with the files, the open journal and the histories that were acknowledged. -/
inductive Run : Disk → Option (Journal J) → List (List (Entry J)) → Prop where
  | fresh : Run ⟨none, none, none, ∅⟩ none []
  | opened {d d' : Disk} {j : Journal J} {acks : List (List (Entry J))} (run : Run d none acks)
    (ok : (openJournal C sha256 d).result = .ok (d', j)) (within : Within C sha256 W j.history) :
    Run d' (some j) (j.history :: acks)
  | openStopped {d d' : Disk} {acks : List (List (Entry J))} (run : Run d none acks)
    (at_disk : d' ∈ (openJournal C sha256 d).disks)
    (within : ∀ {r}, replay C sha256 d = .ok r → Within C sha256 W r.history) : Run d' none acks
  | appended {d d' : Disk} {j j' : Journal J} {acks : List (List (Entry J))} {entries : List (Entry J)}
    (run : Run d (some j) acks) (ok : (appendMany C sha256 d j entries).result = .ok (d', j'))
    (within : Within C sha256 W j'.history) : Run d' (some j') (j'.history :: acks)
  | appendStopped {d d' : Disk} {j : Journal J} {acks : List (List (Entry J))} {entries : List (Entry J)}
    (run : Run d (some j) acks) (at_disk : d' ∈ (appendMany C sha256 d j entries).disks)
    (within : Within C sha256 W (j.history ++ entries)) : Run d' none acks
  | stopped {d : Disk} {j : Journal J} {acks : List (List (Entry J))} (run : Run d (some j) acks) : Run d none acks
  | lost {d : Disk} {acks : List (List (Entry J))} (run : Run d none acks) (log : Option Bytes)
    (index : Table Nat (Hash256 × Bytes)) {anchor kept : Option Bytes}
    (anchor_kept : anchor = d.anchor ∨ anchor = d.kept)
    (kept_kept : kept = d.anchor ∨ kept = d.kept) : Run ⟨log, anchor, kept, index⟩ none acks

variable (C sha256 W) in
/-- A history that has everything acknowledged. -/
structure Covers (acks : List (List (Entry J))) (history : List (Entry J)) : Prop where
  within : Within C sha256 W history
  acks : ∀ ack ∈ acks, ack <+: history

variable (C sha256 W) in
/-- An anchor that has everything acknowledged; without an anchor nothing is. -/
def Guards (acks : List (List (Entry J))) (anchor : Option Bytes) : Prop :=
  (anchor = none ∧ acks = []) ∨
    ∃ history, anchor = some (C.encodeMarker (position C sha256 history)) ∧ Covers C sha256 W acks history

variable {acks : List (List (Entry J))}

theorem Covers.guards (h : Covers C sha256 W acks history) (hp : p = position C sha256 history) :
    Guards C sha256 W acks (some (C.encodeMarker p)) :=
  .inr ⟨history, by rw [hp], h⟩

variable {entries : List (Entry J)}

theorem Covers.append (h : Covers C sha256 W acks history)
    (hwithin : Within C sha256 W (history ++ entries)) :
    Covers C sha256 W acks (history ++ entries) :=
  ⟨hwithin, fun ack hack => (h.acks ack hack).trans (prefix_append _ _)⟩

theorem Covers.cons (h : Covers C sha256 W acks history) :
    Covers C sha256 W (history :: acks) history :=
  ⟨h.within, forall_mem_cons.mpr ⟨prefix_refl _, h.acks⟩⟩

theorem Guards.replay {d : Disk} {r : Replay J} (hinj : Set.InjOn sha256 W)
    (h : Guards C sha256 W acks d.anchor) (hreplay : Pool.replay C sha256 d = .ok r)
    (hwithin : Within C sha256 W r.history) : Covers C sha256 W acks r.history := by
  refine ⟨hwithin, fun ack hack => ?_⟩
  obtain ⟨-, marker, hmarker, anchored, hinitial, hanchored⟩ := replay_ok hreplay
  rcases h with ⟨-, rfl⟩ | ⟨history, hanchor, hcovers⟩
  · cases hack
  · rw [hanchor, readMarker] at hmarker
    split at hmarker
    · cases hmarker
    · rename_i hdecode
      cases hmarker
      rw [C.decodeMarker_eq hdecode] at hanchored
      have heq := HashChain.run_injective (S := journalChain C sha256) hinj (hwithin.of_initial hinitial) hcovers.within
        hanchored
      exact (hcovers.acks ack hack).trans (heq ▸ hinitial)

theorem batch_last (p : Position) (entries : List (Entry J)) :
    (batch C sha256 p entries).2.2 = HashChain.run (journalChain C sha256) p entries := by
  induction entries generalizing p with
  | nil => rfl
  | cons entry rest ih =>
    rw [batch]
    exact ih _

variable (C sha256 W) in
/-- The invariant. -/
structure Safe (d : Disk) (process : Option (Journal J)) (acks : List (List (Entry J))) : Prop where
  anchor : Guards C sha256 W acks d.anchor
  kept : Guards C sha256 W acks d.kept
  process : ∀ {j}, process = some j → j.position = position C sha256 j.history ∧ Covers C sha256 W acks j.history

variable {process : Option (Journal J)}

theorem Safe.of_anchorDisks {d d₀ d' : Disk} (hd' : d' ∈ anchorDisks C d₀ p)
    (h : Safe C sha256 W d process acks) (hanchor : d₀.anchor = d.anchor) (hkept : d₀.kept = d.kept)
    (hcovers : Covers C sha256 W acks history) (hp : p = position C sha256 history) :
    Safe C sha256 W d' none acks := by
  have hnew := hcovers.guards hp
  have hold := hkept ▸ h.kept
  simp only [anchorDisks, mem_cons, not_mem_nil, or_false] at hd'
  rcases hd' with rfl | rfl | rfl
  · exact ⟨hanchor ▸ h.anchor, hold, nofun⟩
  · exact ⟨hnew, hold, nofun⟩
  · exact ⟨hnew, hnew, nofun⟩

variable {d d' : Disk}

theorem Safe.opened (hinj : Set.InjOn sha256 W) (h : Safe C sha256 W d none acks)
    (hok : (openJournal C sha256 d).result = .ok (d', j)) (hwithin : Within C sha256 W j.history) :
    Safe C sha256 W d' (some j) (j.history :: acks) := by
  unfold openJournal at hok
  dsimp only at hok
  cases hreplay : replay C sha256 d with
  | error e =>
    rw [hreplay] at hok
    cases hok
  | ok r =>
    rw [hreplay] at hok
    cases hok
    have hposition := (replay_ok hreplay).1
    have hcovers := (h.anchor.replay hinj hreplay hwithin).cons
    refine ⟨hcovers.guards hposition, hcovers.guards hposition, fun hj => ?_⟩
    cases hj
    exact ⟨hposition, hcovers⟩

theorem Safe.openStopped (hinj : Set.InjOn sha256 W) (h : Safe C sha256 W d none acks)
    (hd' : d' ∈ (openJournal C sha256 d).disks)
    (hwithin : ∀ {r}, replay C sha256 d = .ok r → Within C sha256 W r.history) :
    Safe C sha256 W d' none acks := by
  unfold openJournal at hd'
  dsimp only at hd'
  have hcreated : ∀ {d'}, d' ∈ [d, { d with log := some (d.log.getD []) }] → Safe C sha256 W d' none acks := by
    intro d' hmem
    simp only [mem_cons, not_mem_nil, or_false] at hmem
    rcases hmem with rfl | rfl <;> exact ⟨h.anchor, h.kept, nofun⟩
  cases hreplay : replay C sha256 d with
  | error e =>
    rw [hreplay] at hd'
    exact hcreated hd'
  | ok r =>
    rw [hreplay] at hd'
    rcases mem_append.mp hd' with hbefore | hanchor
    · exact hcreated hbefore
    · exact .of_anchorDisks hanchor h rfl rfl (h.anchor.replay hinj hreplay (hwithin hreplay)) (replay_ok hreplay).1

theorem batch_position (entries : List (Entry J)) (hj : j.position = position C sha256 j.history) :
    (batch C sha256 j.position entries).2.2 = position C sha256 (j.history ++ entries) := by
  rw [batch_last, hj]
  exact (foldl_append ..).symm

theorem Safe.appended {j' : Journal J} (h : Safe C sha256 W d (some j) acks)
    (hok : (appendMany C sha256 d j entries).result = .ok (d', j'))
    (hwithin : Within C sha256 W j'.history) :
    Safe C sha256 W d' (some j') (j'.history :: acks) := by
  obtain ⟨hposition, hcovers⟩ := h.process rfl
  have hlast := batch_position entries hposition
  unfold appendMany at hok
  dsimp only at hok
  split_ifs at hok
  split at hok
  · cases hok
  · cases hok
    have hnew := (hcovers.append hwithin).cons
    refine ⟨hnew.guards hlast, hnew.guards hlast, fun hj => ?_⟩
    cases hj
    exact ⟨hlast, hnew⟩

theorem Safe.appendStopped (h : Safe C sha256 W d (some j) acks)
    (hd' : d' ∈ (appendMany C sha256 d j entries).disks)
    (hwithin : Within C sha256 W (j.history ++ entries)) : Safe C sha256 W d' none acks := by
  obtain ⟨hposition, hcovers⟩ := h.process rfl
  have hlast := batch_position entries hposition
  have hnew := hcovers.append hwithin
  have hold : ∀ {d'}, d'.anchor = d.anchor → d'.kept = d.kept → Safe C sha256 W d' none acks :=
    fun ha hk => ⟨ha ▸ h.anchor, hk ▸ h.kept, nofun⟩
  have hdisks : ∀ {d'}, d' ∈ ((batch C sha256 j.position entries).2.1.inits.map fun part =>
      { d with log := some (d.log.getD [] ++ part) }) ++ anchorDisks C
        { d with log := some (d.log.getD [] ++ (batch C sha256 j.position entries).2.1) }
        (batch C sha256 j.position entries).2.2 → Safe C sha256 W d' none acks := by
    intro d' hmem
    rcases mem_append.mp hmem with hwrite | hanchor
    · obtain ⟨part, -, rfl⟩ := mem_map.mp hwrite
      exact hold rfl rfl
    · exact .of_anchorDisks hanchor h rfl rfl hnew hlast
  unfold appendMany at hd'
  dsimp only at hd'
  split_ifs at hd'
  · rw [mem_singleton.mp hd']
    exact hold rfl rfl
  · rw [mem_singleton.mp hd']
    exact hold rfl rfl
  · split at hd'
    · exact hdisks hd'
    · rcases mem_append.mp hd' with hbefore | hdone
      · exact hdisks hbefore
      · rw [mem_singleton.mp hdone]
        exact ⟨hnew.guards hlast, hnew.guards hlast, nofun⟩

theorem Run.safe (hinj : Set.InjOn sha256 W) (run : Run C sha256 W d process acks) :
    Safe C sha256 W d process acks := by
  induction run with
  | fresh => exact ⟨.inl ⟨rfl, rfl⟩, .inl ⟨rfl, rfl⟩, nofun⟩
  | opened run ok within ih => exact ih.opened hinj ok within
  | openStopped run at_disk within ih => exact ih.openStopped hinj at_disk within
  | appended run ok within ih => exact ih.appended ok within
  | appendStopped run at_disk within ih => exact ih.appendStopped at_disk within
  | stopped run ih => exact ⟨ih.anchor, ih.kept, nofun⟩
  | lost run log index anchor_kept kept_kept ih =>
    refine ⟨?_, ?_, nofun⟩
    · rcases anchor_kept with h | h
      · exact h ▸ ih.anchor
      · exact h ▸ ih.kept
    · rcases kept_kept with h | h
      · exact h ▸ ih.anchor
      · exact h ▸ ih.kept

/-- After any crashes, an open of any log against the surviving anchor refuses or yields a history that extends every
acknowledged one, and a complete read of an open journal yields its history. -/
theorem open_extends_acknowledged {d : Disk} {process : Option (Journal J)} {acks : List (List (Entry J))}
    (hinj : Set.InjOn sha256 W) (run : Run C sha256 W d process acks) :
    (∀ {log index anchor d' j}, anchor = d.anchor ∨ anchor = d.kept →
      (openJournal C sha256 ⟨log, anchor, d.kept, index⟩).result = .ok (d', j) → Within C sha256 W j.history →
        ∀ ack ∈ acks, ack <+: j.history) ∧
    (∀ {j}, process = some j → (∀ ack ∈ acks, ack <+: j.history) ∧
      ∀ {d' history}, events C sha256 d' j = .ok history → Within C sha256 W history → history = j.history) := by
  have hsafe := run.safe hinj
  refine ⟨fun {log index anchor d' j} hanchor hok hwithin => ?_, fun hj => ?_⟩
  · have hstart : Safe C sha256 W ⟨log, anchor, d.kept, index⟩ none acks := by
      refine ⟨?_, hsafe.kept, nofun⟩
      rcases hanchor with h | h
      · exact h ▸ hsafe.anchor
      · exact h ▸ hsafe.kept
    obtain ⟨-, hcovers⟩ := (hstart.opened hinj hok hwithin).process rfl
    exact fun ack hack => hcovers.acks ack (mem_cons_of_mem _ hack)
  · obtain ⟨hposition, hcovers⟩ := hsafe.process hj
    refine ⟨hcovers.acks, fun hevents hwithin => ?_⟩
    exact HashChain.run_injective (S := journalChain C sha256) hinj hwithin hcovers.within
      ((events_ok hevents).trans hposition)

end

/-! ## A journal with two events -/

section
/-- Numbers as runs of ones, each closed by a zero; a last run that is open is torn. -/
def unary (ns : List Nat) : Bytes := ns.flatMap fun n => List.replicate n 1 ++ [0]

def readUnary : Nat → Bytes → List Nat
  | _, [] => []
  | n, b :: rest => if b = 0 then n :: readUnary 0 rest else readUnary (n + 1) rest

theorem readUnary_ones (n k : Nat) (rest : Bytes) :
    readUnary n (List.replicate k 1 ++ 0 :: rest) = (n + k) :: readUnary 0 rest := by
  induction k generalizing n with
  | zero => rfl
  | succ k ih =>
    rw [replicate_succ, cons_append, readUnary, if_neg (by decide), ih, Nat.add_right_comm, Nat.add_assoc]

/-- A line is read with its line feed. -/
theorem readUnary_unary (ns : List Nat) (tail : Bytes) (htail : readUnary 0 tail = []) :
    readUnary 0 (unary ns ++ tail) = ns := by
  induction ns with
  | nil => exact htail
  | cons n ns ih =>
    rw [unary, flatMap_cons, append_assoc, append_assoc, singleton_append, readUnary_ones, Nat.zero_add]
    exact congrArg _ ih

def hashNumbers (h : Hash256) : List Nat := h.bytes.map UInt8.toNat

def hashOf (ns : List Nat) : Hash256 :=
  ⟨(ns.map UInt8.ofNat ++ List.replicate 32 0).take 32, Hash256.size_leading _⟩

theorem hashOf_numbers (h : Hash256) (rest : List Nat) :
    hashOf (hashNumbers h ++ rest) = h ∧ (hashNumbers h ++ rest).drop 32 = rest := by
  have hlength : (hashNumbers h).length = 32 := by rw [hashNumbers, length_map, h.size]
  have hmap : (hashNumbers h).map UInt8.ofNat = h.bytes := by simp [hashNumbers, Function.comp_def]
  refine ⟨Hash256.ext_bytes ?_, drop_left' hlength⟩
  change ((hashNumbers h ++ rest).map UInt8.ofNat ++ List.replicate 32 0).take 32 = h.bytes
  rw [map_append, hmap, append_assoc, take_left' h.size]

def eventNumbers (e : JournalEvent Bool) : List Nat :=
  e.seq :: (hashNumbers e.previous ++ e.entry.payload.toNat :: e.entry.kind.toList.map Char.toNat)

def eventOf : List Nat → Option (JournalEvent Bool)
  | [] => none
  | seq :: rest =>
    match rest.drop 32 with
    | [] => none
    | payload :: kind => some ⟨seq, hashOf rest, String.ofList (kind.map Char.ofNat), payload = 1⟩

theorem eventOf_numbers (e : JournalEvent Bool) : eventOf (eventNumbers e) = some e := by
  obtain ⟨hprevious, hrest⟩ := hashOf_numbers e.previous (e.entry.payload.toNat :: e.entry.kind.toList.map Char.toNat)
  obtain ⟨seq, previous, kind, payload⟩ := e
  cases payload <;> simp_all [eventOf, eventNumbers, Function.comp_def]

def positionOf : List Nat → Option Position
  | [] => none
  | seq :: rest => some ⟨seq, hashOf rest⟩

/-- Every event and position is read back as it was written. -/
def unaryCodec : Codec Bool where
  encode e := unary (eventNumbers e)
  encodeLine e digest := unary (hashNumbers digest ++ eventNumbers e)
  decodeLine line :=
    let ns := readUnary 0 line
    (eventOf (ns.drop 32)).map fun e => (e, hashOf ns)
  encodeMarker p := unary (p.seq :: hashNumbers p.digest)
  decodeMarker text := positionOf (readUnary 0 text)
  encode_injective e e' h := by
    have hread := congrArg (fun bytes => eventOf (readUnary 0 (bytes ++ []))) h
    simpa only [readUnary_unary _ [] rfl, eventOf_numbers, Option.some.injEq] using hread
  decodeMarker_eq {p q} h := by
    rw [← append_nil (unary _), readUnary_unary _ [] rfl, positionOf, ← append_nil (hashNumbers _),
      (hashOf_numbers _ _).1] at h
    exact (Option.some.inj h).symm

theorem unaryCodec_line (e : JournalEvent Bool) (digest : Hash256) :
    unaryCodec.decodeLine (unaryCodec.encodeLine e digest ++ [10]) = some (e, digest) := by
  obtain ⟨hdigest, hevent⟩ := hashOf_numbers digest (eventNumbers e)
  simp only [unaryCodec, readUnary_unary _ [10] rfl, hevent, eventOf_numbers, hdigest, Option.map_some]

/-- The number of the event, in every byte. -/
def unaryHash (text : Bytes) : Hash256 := .fill (UInt8.ofNat ((readUnary 0 text).headD 0))

def twoEntries : List (Entry Bool) := [⟨"", true⟩, ⟨"", false⟩]

def twoBatch : List (JournalEvent Bool × Hash256) × Bytes × Position := batch unaryCodec unaryHash .start twoEntries

def twoMarker : Bytes := unaryCodec.encodeMarker twoBatch.2.2

def twoTexts : Set Bytes := {text | text ∈ twoBatch.1.map fun r => unaryCodec.encode r.1}

theorem twoTexts_injOn : Set.InjOn unaryHash twoTexts := by
  have hall : ∀ a ∈ twoBatch.1.map (fun r => unaryCodec.encode r.1),
      ∀ b ∈ twoBatch.1.map (fun r => unaryCodec.encode r.1), unaryHash a = unaryHash b → a = b := by decide +kernel
  exact fun a ha b hb => hall a ha b hb

theorem within_two : Within unaryCodec unaryHash twoTexts twoEntries :=
  ⟨mem_cons_self, mem_cons_of_mem _ mem_cons_self, trivial⟩

/-- What is read off a result: the anchors, and the journal. -/
def summary (result : Except String (Disk × Journal Bool)) :
    Option ((Option Bytes × Option Bytes) × Position × List (Entry Bool)) :=
  result.toOption.map fun r => ((r.1.anchor, r.1.kept), r.2.position, r.2.history)

theorem of_summary {result : Except String (Disk × Journal Bool)} {anchors : Option Bytes × Option Bytes}
    {p : Position} {history : List (Entry Bool)} (h : summary result = some (anchors, p, history)) :
    ∃ d, result = .ok (d, ⟨p, history⟩) ∧ (d.anchor, d.kept) = anchors := by
  cases result with
  | error e => cases h
  | ok r =>
    obtain ⟨d, j⟩ := r
    cases h
    exact ⟨d, rfl, rfl⟩

/-- The files after a power cut: a third line is torn and the index is lost. -/
def tornDisk : Disk := ⟨some (twoBatch.2.1 ++ [1, 1]), some twoMarker, some twoMarker, ∅⟩

theorem torn_run : Run unaryCodec unaryHash twoTexts tornDisk none [twoEntries, []] := by
  have hopen : Run unaryCodec unaryHash twoTexts _ (some ⟨.start, []⟩) [[]] := .opened .fresh rfl trivial
  have hsummary : summary (appendMany unaryCodec unaryHash
      ⟨some [], some (unaryCodec.encodeMarker .start), some (unaryCodec.encodeMarker .start), ∅⟩ ⟨.start, []⟩
      twoEntries).result = some ((some twoMarker, some twoMarker), twoBatch.2.2, twoEntries) := by decide +kernel
  obtain ⟨d, happend, hanchors⟩ := of_summary hsummary
  obtain ⟨hanchor, hkept⟩ := Prod.mk.inj hanchors
  exact .lost (.stopped (.appended hopen happend within_two)) _ ∅ (.inl hanchor.symm) (.inr hkept.symm)

/-- The torn line is refused; the log without it opens with both events. -/
theorem open_extends_acknowledged_two : Run unaryCodec unaryHash twoTexts tornDisk none [twoEntries, []] ∧
    summary (openJournal unaryCodec unaryHash tornDisk).result = none ∧
    ∃ d' j, (openJournal unaryCodec unaryHash
        ⟨some twoBatch.2.1, tornDisk.anchor, tornDisk.kept, ∅⟩).result = .ok (d', j) ∧
      j.history = twoEntries ∧ ∀ ack ∈ [twoEntries, []], ack <+: j.history := by
  have hsummary : summary (openJournal unaryCodec unaryHash
      ⟨some twoBatch.2.1, tornDisk.anchor, tornDisk.kept, ∅⟩).result =
      some ((some twoMarker, some twoMarker), twoBatch.2.2, twoEntries) := by decide +kernel
  have htorn : summary (openJournal unaryCodec unaryHash tornDisk).result = none := by decide +kernel
  obtain ⟨d', hopen, -⟩ := of_summary hsummary
  have hacks := (open_extends_acknowledged twoTexts_injOn torn_run).1 (.inl rfl) hopen within_two
  exact ⟨torn_run, htorn, d', _, hopen, rfl, hacks⟩

end

end Veld.Pool
