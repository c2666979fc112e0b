import Veld.Core.Hash
import Veld.Lib.Table

/-!
# The journal of the pool

`pool/journal.py`: events are appended to a log, each with the digest of the one before it; the anchor, a file
of its own, has the position of the last event that was acknowledged; a SQLite table is an index of the log.
-/

namespace Veld.Pool

open Wire

def maxEvent : Nat := 2 * 8000000 + 64 * 1024 + 64 * 1024

def maxBatch : Nat := 8

/-- What a caller appends. -/
structure Entry (J : Type) where
  kind : String
  payload : J
  deriving DecidableEq

/-- An event without its digest. -/
structure JournalEvent (J : Type) where
  seq : Nat
  previous : Hash256
  entry : Entry J
  deriving DecidableEq

/-- The last event of a log, and the content of the anchor. -/
structure Position where
  seq : Nat
  digest : Hash256
  deriving DecidableEq

/-- `{'seq': 0, 'digest': ZERO}`. -/
def Position.start : Position := ⟨0, .zero⟩

structure Codec (J : Type) where
  encode : JournalEvent J → Bytes
  encodeLine : JournalEvent J → Hash256 → Bytes
  decodeLine : Bytes → Option (JournalEvent J × Hash256)
  encodeMarker : Position → Bytes
  decodeMarker : Bytes → Option Position
  encode_injective : Function.Injective encode
  decodeMarker_eq : ∀ {p q}, decodeMarker (encodeMarker p) = some q → q = p

/-- The files. `kept` is the anchor that a power cut may bring back. -/
structure Disk where
  log : Option Bytes
  anchor : Option Bytes
  kept : Option Bytes
  index : Table Nat (Hash256 × Bytes)

/-- An open journal. `history` is what it has replayed and appended, which `events` yields. -/
structure Journal (J : Type) where
  position : Position
  history : List (Entry J)

/-- The lines of a file, each with its line feed; the last may be torn. -/
def fileLines : Bytes → Bytes → List Bytes
  | line, [] => if line = [] then [] else [line]
  | line, b :: rest => if b = 10 then (line ++ [b]) :: fileLines [] rest else fileLines (line ++ [b]) rest

section
variable {J : Type} (C : Codec J) (sha256 : Bytes → Hash256)

def Position.event (p : Position) (entry : Entry J) : JournalEvent J := ⟨p.seq + 1, p.digest, entry⟩

def Position.next (p : Position) (entry : Entry J) : Position := ⟨p.seq + 1, sha256 (C.encode (p.event entry))⟩

/-- `_index`: a row must have the digest of the event, and its body is repaired. -/
def indexEvent (index : Table Nat (Hash256 × Bytes)) (event : JournalEvent J) (digest : Hash256) :
    Except String (Table Nat (Hash256 × Bytes)) :=
  match index.lookup event.seq with
  | some (prior, _) =>
    if prior ≠ digest then .error "index identity mismatch" else .ok (index.insert event.seq (digest, C.encode event))
  | none =>
    if index.entries.any fun row => row.2.1 = digest then .error "UNIQUE constraint failed: events.digest"
    else .ok (index.insert event.seq (digest, C.encode event))

/-- What the replay has read so far. -/
structure Replay (J : Type) where
  position : Position
  seenAnchor : Bool
  index : Table Nat (Hash256 × Bytes)
  history : List (Entry J)

def readLine (position : Position) (line : Bytes) : Except String (JournalEvent J × Hash256) :=
  if maxEvent < line.length ∨ line.getLast? ≠ some 10 then .error "damaged journal: stop and reconcile"
  else match C.decodeLine line with
    | none => .error "journal schema"
    | some (event, digest) =>
      if event.seq ≠ position.seq + 1 ∨ event.previous ≠ position.digest then .error "journal ordering"
      else if sha256 (C.encode event) ≠ digest then .error "journal integrity"
      else .ok (event, digest)

def replayLine (marker : Position) (r : Replay J) (line : Bytes) : Except String (Replay J) := do
  let (event, digest) ← readLine C sha256 r.position line
  ensure (event.seq = marker.seq → digest = marker.digest) "rollback anchor mismatch"
  let index ← indexEvent C r.index event digest
  return ⟨⟨event.seq, digest⟩, r.seenAnchor || event.seq = marker.seq, index, r.history ++ [event.entry]⟩

/-- The anchor, or the start where there is none. -/
def readMarker (anchor : Option Bytes) : Except String Position :=
  match anchor with
  | none => .ok .start
  | some text =>
    match C.decodeMarker text with
    | none => .error "anchor"
    | some marker => .ok marker

/-- The part of `_open` that reads: the replay of the log against the anchor. -/
def replay (d : Disk) : Except String (Replay J) := do
  ensure (d.log.isSome → d.anchor.isSome) "surviving rollback anchor required"
  let marker ← readMarker C d.anchor
  let r ← (fileLines [] (d.log.getD [])).foldlM (replayLine C sha256 marker)
    ⟨.start, marker = .start, d.index, []⟩
  ensure (r.seenAnchor = true) "journal rollback: current signing/work history required"
  ensure (r.index.entries.length = r.position.seq ∧ (r.index.entries.map Sigma.fst).foldl max 0 = r.position.seq)
    "index ahead of journal"
  return r

/-- What a procedure does: the disks on which a crash may find it, and its result. -/
structure Procedure (α : Type) where
  disks : List Disk
  result : Except String (Disk × α)

/-- The disks of `atomic(self.anchor, ...)`: not yet replaced, replaced, and with the directory synced. -/
def anchorDisks (d : Disk) (p : Position) : List Disk :=
  [d, { d with anchor := some (C.encodeMarker p) },
    { d with anchor := some (C.encodeMarker p), kept := some (C.encodeMarker p) }]

/-- `_open`. The log is created where it is missing, the index is committed, and the anchor is replaced. -/
def openJournal (d : Disk) : Procedure (Journal J) :=
  let created := { d with log := some (d.log.getD []) }
  match replay C sha256 d with
  | .error e => ⟨[d, created], .error e⟩
  | .ok r =>
    let indexed := { created with index := r.index }
    let marker := some (C.encodeMarker r.position)
    ⟨[d, created] ++ anchorDisks C indexed r.position,
      .ok ({ indexed with anchor := marker, kept := marker }, ⟨r.position, r.history⟩)⟩

/-- The events, lines and last position of a batch. -/
def batch (p : Position) : List (Entry J) → List (JournalEvent J × Hash256) × Bytes × Position
  | [] => ([], [], p)
  | entry :: rest =>
    let event := p.event entry
    let digest := sha256 (C.encode event)
    let (records, data, last) := batch (p.next C sha256 entry) rest
    ((event, digest) :: records, C.encodeLine event digest ++ [10] ++ data, last)

/-- `append_many`, on a journal that is open. -/
def appendMany (d : Disk) (j : Journal J) (entries : List (Entry J)) : Procedure (Journal J) :=
  let (records, data, last) := batch C sha256 j.position entries
  if entries = [] ∨ maxBatch < entries.length then ⟨[d], .error "journal batch count"⟩
  else if maxEvent < data.length then ⟨[d], .error "event limit"⟩
  else
    let written := { d with log := some (d.log.getD [] ++ data) }
    let marker := some (C.encodeMarker last)
    let disks := (data.inits.map fun part => { d with log := some (d.log.getD [] ++ part) }) ++
      anchorDisks C written last
    match records.foldlM (fun index (event, digest) => indexEvent C index event digest) d.index with
    | .error e => ⟨disks, .error e⟩
    | .ok index =>
      let done := { written with anchor := marker, kept := marker, index }
      ⟨disks ++ [done], .ok (done, ⟨last, j.history ++ entries⟩)⟩

/-- One line of `events`. -/
def eventsLine (acc : Position × List (Entry J)) (line : Bytes) : Except String (Position × List (Entry J)) := do
  let (event, digest) ← readLine C sha256 acc.1 line
  return (⟨event.seq, digest⟩, acc.2 ++ [event.entry])

/-- `events`, read to its end: the events of the log, which must end at the position of the journal. -/
def events (d : Disk) (j : Journal J) : Except String (List (Entry J)) := do
  let lines := fileLines [] (d.log.getD [])
  let (last, history) ← (lines.take j.position.seq).foldlM (eventsLine C sha256) (.start, [])
  ensure (last = j.position ∧ lines.length = j.position.seq) "journal changed during replay"
  return history

end

end Veld.Pool
