import StreamDispatch.Dispatch.Host

set_option autoImplicit false

/-! # Partitions of a host

A host takes and releases leases of partitions, and accepts batches for the partitions that it owns.
Each lease has a gate of its own, also when it replaces a lease of the same partition. -/

namespace StreamDispatch

/-- Why a partition is released. -/
inductive CloseReason
  | leaseLost
  | shutdown
  | other
  deriving DecidableEq, Repr, Inhabited

def CloseReason.name : CloseReason → String
  | .leaseLost => "LeaseLost"
  | .shutdown => "Shutdown"
  | .other => "Other"

namespace Host

def isOwned (h : Host) (partition : String) : Bool := h.owned.contains partition

/-- The partitions that are owned, in ascending order. -/
def ownedPartitions (h : Host) : List String := h.owned.keys

/-! ## Taking a lease -/

def openLines (h : Host) (partition : String) (gate : Gate) : List Log.Line :=
  let stream := ("stream", h.dispatcher.stream)
  let id := ("partition_id", partition)
  [Log.debug "Creating event processor" [stream, id]]
    ++ gate.newLines
    ++ [Log.info "🔓 Partition lease obtained" [stream, id]]
    ++ (if h.isOwned partition then
        [Log.warn "Partition re-opened, replacing its processor" [id]]
      else [])

/-- Takes a lease of a partition, in place of the one that the host has of it. -/
def openPartition (h : Host) (partition : String) (checkpoint : Except CheckpointError Unit) :
    Host :=
  let gate := Gate.new partition h.dispatcher.admission
  let h' := h.log (h.openLines partition gate)
  { h' with
    leases := h.leases ++ [⟨partition, gate, checkpoint, 0⟩]
    owned := h.owned.insert partition h.leases.length }

/-- From now on, the checkpoints of the last lease of a partition have another outcome. -/
def setCheckpoint (h : Host) (partition : String) (checkpoint : Except CheckpointError Unit) :
    Host :=
  match (h.leases.reverse.findIdx? (·.partition == partition)) with
  | none => h
  | some n =>
    { h with leases := h.leases.modify (h.leases.length - 1 - n) ({ · with checkpoint }) }

/-! ## Releasing it -/

def closeLine (h : Host) (partition : String) (reason : CloseReason) : Log.Line :=
  let fields := [("stream", h.dispatcher.stream), ("partition_id", partition),
    ("reason", reason.name)]
  match reason with
  | .leaseLost => Log.warn "⚠️ Partition lease lost" fields
  | .shutdown | .other => Log.info "🔒 Partition closed" fields

/-- Releases a partition, and says whether it was owned. -/
def closePartition (h : Host) (partition : String) (reason : CloseReason) : Host × Bool :=
  if h.isOwned partition then
    ({ h.log [h.closeLine partition reason] with owned := h.owned.erase partition }, true)
  else
    (h.log [Log.warn "Close requested for a partition that is not owned"
      [("partition_id", partition), ("reason", reason.name)]], false)

/-- Releases every partition that is owned, in ascending order. -/
def shutdown (h : Host) : Host :=
  h.ownedPartitions.foldl (fun h partition => (h.closePartition partition .shutdown).1)
    (h.log [Log.info "🛑 Shutting down processing coordinator"
      [("partitions", toString h.owned.size)]])

/-! ## Accepting batches -/

/-- Accepts a batch for a partition that is owned; no events at all are an empty batch. The batch
takes the next number. -/
def accept (h : Host) (partition : String) (events : Option (List Event)) (cancelled : Bool) :
    Except DispatchError Host :=
  match h.owned.get? partition with
  | none => .error (.partitionNotOwned partition)
  | some lease =>
    .ok { h with batches := h.batches ++ [Batch.new lease (events.getD []) cancelled] }

end Host

end StreamDispatch
