import Mathlib.Data.Nat.Notation

/-!
# Elementary streams (`pes/es.rs`)

* `Es2`, `Es3`, `Es4`, `Es15`, `Es27`: what is found out about a stream of a type; all of it is `None` at first.
* `Es`: one of them.
-/

namespace MyMuxer

structure Es2 where
  horizontalSize : Option ℕ := none
  verticalSize : Option ℕ := none
  aspectRatio : Option ℕ := none
  frameRate : Option ℕ := none
  bitrate : Option ℕ := none
  deriving DecidableEq

structure Es3 where
  id : Option ℕ := none
  layer : Option ℕ := none
  bitRateIndex : Option ℕ := none
  samplingFrequency : Option ℕ := none
  mode : Option ℕ := none
  modeExtension : Option ℕ := none
  copyright : Option ℕ := none
  original : Option ℕ := none
  emphasis : Option ℕ := none
  deriving DecidableEq

structure Es4 where
  id : Option ℕ := none
  layer : Option ℕ := none
  bitRateIndex : Option ℕ := none
  samplingFrequency : Option ℕ := none
  mode : Option ℕ := none
  modeExtension : Option ℕ := none
  copyright : Option ℕ := none
  original : Option ℕ := none
  emphasis : Option ℕ := none
  deriving DecidableEq

structure Es15 where
  id : Option ℕ := none
  profile : Option ℕ := none
  samplingFrequency : Option ℕ := none
  channelConfiguration : Option ℕ := none
  copyright : Option ℕ := none
  original : Option ℕ := none
  deriving DecidableEq

structure Es27 where
  profileIdc : Option ℕ := none
  levelIdc : Option ℕ := none
  seqParameterSetId : Option ℕ := none
  horizontalSize : Option ℕ := none
  verticalSize : Option ℕ := none
  frameRate : Option ℕ := none
  deriving DecidableEq

inductive Es where
  | unknown
  | es2 (es : Es2)
  | es3 (es : Es3)
  | es4 (es : Es4)
  | es15 (es : Es15)
  | es27 (es : Es27)
  deriving DecidableEq

end MyMuxer
