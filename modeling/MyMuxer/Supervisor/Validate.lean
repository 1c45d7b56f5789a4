import Mathlib.Data.List.Basic
import Mathlib.Tactic

/-!
# Validation of a configuration (`config.rs`)

* `Output`, `Stream`, `Config`: what `validate_config` and a worker's bookkeeping read of a configuration.
* `isTaskTypeAllowed`, `validateConfig`: as in the source; **`validateConfig_eq_ok`**: what is accepted.
-/

namespace MyMuxer.Validation

structure Output where
  id : ℕ
  taskType : String
  deriving DecidableEq

structure Stream where
  id : ℕ
  taskType : String
  outputs : List Output
  deriving DecidableEq

structure Config where
  streams : List Stream
  deriving DecidableEq

def allowedTaskTypes : List String := ["udp", "rtp", "http", "ffmpeg", "hls", "unix"]

def isTaskTypeAllowed (taskType : String) : Bool := allowedTaskTypes.any (· == taskType)

/-- The loop over the outputs of a stream. -/
def validateOutputs (stream : Stream) : List Output → Except String Unit
  | [] => .ok ()
  | output :: outputs =>
    if !isTaskTypeAllowed output.taskType then
      .error s!"Output {output.id} of stream {stream.id} has unsupported task_type {output.taskType}"
    else validateOutputs stream outputs

/-- The loop over the streams. -/
def validateStreams : List Stream → Except String Unit
  | [] => .ok ()
  | stream :: streams =>
    if !isTaskTypeAllowed stream.taskType then
      .error s!"Stream {stream.id} has unsupported task_type {stream.taskType}"
    else do
      validateOutputs stream stream.outputs
      validateStreams streams

def validateConfig (cfg : Config) : Except String Unit := validateStreams cfg.streams

/-- A stream with nothing but allowed types. -/
def Stream.Allowed (stream : Stream) : Prop :=
  isTaskTypeAllowed stream.taskType ∧ ∀ output ∈ stream.outputs, isTaskTypeAllowed output.taskType

theorem validateOutputs_eq_ok (stream : Stream) (outputs : List Output) :
    validateOutputs stream outputs = .ok () ↔ ∀ output ∈ outputs, isTaskTypeAllowed output.taskType := by
  induction outputs with
  | nil => exact iff_of_true rfl fun _ h => (nomatch h)
  | cons output outputs ih =>
    rw [validateOutputs, List.forall_mem_cons, ← ih]
    cases isTaskTypeAllowed output.taskType with
    | false => exact iff_of_false (fun h => (nomatch h)) fun h => (nomatch h.1)
    | true => exact (and_iff_right rfl).symm

/-- **What is accepted**: allowed types everywhere, and whatever ids. -/
theorem validateConfig_eq_ok (cfg : Config) : validateConfig cfg = .ok () ↔ ∀ stream ∈ cfg.streams, stream.Allowed := by
  rw [validateConfig]
  induction cfg.streams with
  | nil => exact iff_of_true rfl fun _ h => (nomatch h)
  | cons stream streams ih =>
    rw [validateStreams, List.forall_mem_cons, ← ih, Stream.Allowed, ← validateOutputs_eq_ok]
    cases isTaskTypeAllowed stream.taskType with
    | false => exact iff_of_false (fun h => (nomatch h)) fun h => (nomatch h.1.1)
    | true =>
      cases validateOutputs stream stream.outputs with
      | error e => exact iff_of_false (fun h => (nomatch h)) fun h => (nomatch h.1.2)
      | ok u => exact (and_iff_right ⟨rfl, rfl⟩).symm

end MyMuxer.Validation
