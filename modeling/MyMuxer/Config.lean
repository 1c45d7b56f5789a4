import MyMuxer.Rust

/-!
# Configuration of an output (`config.rs`)
-/

namespace MyMuxer

def caFlagUnscrambled : ℕ := 1

structure Program where
  programId : UInt16
  audioPids : List UInt16
  videoPids : List UInt16
  pmtPid : UInt16
  pcrPid : UInt16
  serviceName : String
  serviceProviderName : String
  serviceType : ℕ
  bufferDuration : ℕ
  jitter : ℕ
  adjustBuf : ℕ

structure Output where
  bissKey : String
  caFlag : ℕ
  pktSize : ℕ
  cbr : ℕ
  proxy : Bool
  programs : List Program

end MyMuxer
