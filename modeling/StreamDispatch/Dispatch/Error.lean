set_option autoImplicit false

/-! # Errors of the dispatcher

A checkpoint can fail because the storage is away or the lease has gone to another host; both pass,
and the batch counts as done. Any other failure of a checkpoint is an error of the batch. -/

namespace StreamDispatch

/-- Why a checkpoint could not be written. -/
inductive CheckpointError
  | storageUnavailable (reason : String)
  | leaseLost (reason : String)
  /-- Some other failure; the causes stand from the outermost to the innermost. -/
  | other (causes : List String)
  deriving DecidableEq, Repr

namespace CheckpointError

/-- The wording of a checkpoint error; of a chain of causes it names the outermost. -/
def message : CheckpointError → String
  | .storageUnavailable reason => "Checkpoint storage unavailable: " ++ reason
  | .leaseLost reason => "Partition lease lost: " ++ reason
  | .other causes => causes.headD ""

/-- Whether a later batch can make up for the checkpoint. -/
def isTransient : CheckpointError → Bool
  | .storageUnavailable _ | .leaseLost _ => true
  | .other _ => false

end CheckpointError

/-- Why the dispatcher did not do what it was asked to. -/
inductive DispatchError
  | cancelled
  | checkpoint (e : CheckpointError)
  | configuration (reason : String)
  | resolution (reason : String)
  | poison (reason : String)
  | partitionNotOwned (partition : String)
  deriving DecidableEq, Repr

def DispatchError.message : DispatchError → String
  | .cancelled => "Batch admission was cancelled"
  | .checkpoint e => "Checkpoint error: " ++ e.message
  | .configuration reason => "Configuration error: " ++ reason
  | .resolution reason => "Resolution error: " ++ reason
  | .poison reason => "Poison sink error: " ++ reason
  | .partitionNotOwned partition => s!"Partition {partition} is not owned by this host"

end StreamDispatch
