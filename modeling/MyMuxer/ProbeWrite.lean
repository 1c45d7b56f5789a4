import MyMuxer.Mux.Sync
import MyMuxer.Probe

/-!
# The input of the probe (`probe.rs`)

* `Probe.write`: a chunk more, with a search for sync of its own.
* `write_sync`: this search leaves what `sync_buffer` leaves.
* **`sync_found`**: what the search finds, drops and leaves, in one go or in several, here and there.
-/

namespace MyMuxer

open Search

/-! ## `Probe::write` -/

namespace Probing.Probe

def probeBufferSize : ℕ := 15 * 1024 * 1024

/-- The loop of `write`, and whether it has cleared the buffer, with which `write` returns. -/
def searchLoop : ℕ → Probe → Bool × Probe
  | 0, probe => (false, probe)
  | fuel + 1, probe =>
    if tsPacketSize * 3 ≤ probe.inBuff.length then
      if byte probe.inBuff 0 = tsSyncByte ∧ byte probe.inBuff tsPacketSize = tsSyncByte ∧
          byte probe.inBuff (tsPacketSize * 2) = tsSyncByte then
        (false, { probe with isSync := true })
      else
        match (probe.inBuff.drop 1).findIdx? fun b => b = tsSyncByte with
        | some pos => searchLoop fuel { probe with inBuff := probe.inBuff.drop (pos + 1) }
        | none => (true, { probe with inBuff := [] })
    else (false, probe)

/-- Is there enough to go by? -/
def write (probe : Probe) (chunk : Bytes) : Bool × Probe :=
  let probe := { probe with inBuff := probe.inBuff ++ chunk }
  let (cleared, probe) := if probe.isSync then (false, probe) else probe.searchLoop (probe.inBuff.length + 1)
  if cleared then (false, probe)
  else if probe.inBuff.length < probeBufferSize then (false, probe)
  else (true, probe)

theorem nextSync_eq (buff : Bytes) : nextSync buff =
    ((buff.drop 1).findIdx? fun b => b = tsSyncByte).elim [] fun pos => buff.drop (pos + 1) := by
  rw [nextSync, List.dropWhile_eq_drop_findIdx_not]
  simp only [ne_eq, decide_not, Bool.not_not]
  rw [List.findIdx_eq_getD_findIdx?]
  cases (buff.drop 1).findIdx? fun b => b = tsSyncByte with
  | none => exact List.drop_length
  | some pos => rw [List.drop_drop, Option.getD_some, Option.elim_some, Nat.add_comm]

/-- The loop is that of `sync_buffer`. -/
theorem searchLoop_eq (fuel : ℕ) (probe : Probe) (hsync : probe.isSync = false)
    (hfuel : probe.inBuff.length < fuel) : (probe.searchLoop fuel).2 =
      { probe with isSync := (syncLoop fuel probe.inBuff).1, inBuff := (syncLoop fuel probe.inBuff).2 } := by
  induction fuel generalizing probe with
  | zero => exact absurd hfuel (Nat.not_lt_zero _)
  | succ fuel ih =>
    rw [searchLoop, syncLoop]
    by_cases hl : tsPacketSize * 3 ≤ probe.inBuff.length
    · rw [if_pos hl, if_pos hl, syncTriple]
      split
      case isTrue ht => rw [if_pos (decide_eq_true ht)]
      case isFalse ht =>
        rw [if_neg (by rwa [decide_eq_true_iff])]
        have hpos : 0 < probe.inBuff.length := Nat.lt_of_lt_of_le (by decide) hl
        split
        case h_1 pos hsome =>
          rw [nextSync_eq, hsome]
          have hlt : (probe.inBuff.drop (pos + 1)).length < fuel := by rw [List.length_drop]; omega
          exact ih { probe with inBuff := probe.inBuff.drop (pos + 1) } hsync hlt
        case h_2 hnone =>
          rw [nextSync_eq, hnone, Option.elim_none]
          cases fuel with
          | zero => omega
          | succ fuel =>
            rw [syncLoop, if_neg (by decide)]
            exact congrArg (fun b => { probe with isSync := b, inBuff := [] }) hsync
    · rw [if_neg hl, if_neg hl]
      exact congrArg (fun b => { probe with isSync := b }) hsync

/-- **`Probe::write` leaves what `sync_buffer` leaves**, and searches no more once it is in sync. -/
theorem write_sync (probe : Probe) (chunk : Bytes) : (probe.write chunk).2 =
    let found := if probe.isSync then (true, probe.inBuff ++ chunk) else syncBuffer (probe.inBuff ++ chunk)
    { probe with isSync := found.1, inBuff := found.2 } := by
  have hwrite : (probe.write chunk).2 = (if probe.isSync then (false, { probe with inBuff := probe.inBuff ++ chunk })
      else searchLoop ((probe.inBuff ++ chunk).length + 1) { probe with inBuff := probe.inBuff ++ chunk }).2 := by
    rw [write]
    dsimp only
    split_ifs <;> rfl
  rw [hwrite]
  dsimp only
  by_cases hsync : probe.isSync = true
  · rw [if_pos hsync, if_pos hsync]
    exact congrArg (fun b => { probe with isSync := b, inBuff := probe.inBuff ++ chunk }) hsync
  · rw [if_neg hsync, if_neg hsync, syncBuffer]
    exact searchLoop_eq _ { probe with inBuff := probe.inBuff ++ chunk } (Bool.eq_false_of_not_eq_true hsync)
      (Nat.lt_succ_self _)

end Probing.Probe

/-! ## The search as a whole -/

theorem syncLoop_fuel {fuel fuel' : ℕ} {buff : Bytes} (h : buff.length < fuel) (h' : buff.length < fuel') :
    syncLoop fuel buff = syncLoop fuel' buff := by
  induction fuel generalizing fuel' buff with
  | zero => exact absurd h (Nat.not_lt_zero _)
  | succ fuel ih =>
    cases fuel' with
    | zero => exact absurd h' (Nat.not_lt_zero _)
    | succ fuel' =>
      rw [syncLoop, syncLoop]
      split_ifs with hl ht
      · rfl
      · obtain ⟨d, hpos, hskip, hnext⟩ := skips_nextSync hl (Bool.eq_false_of_not_eq_true ht)
        have hle := hskip.le
        have hlen : (nextSync buff).length = buff.length - d := by rw [hnext, List.length_drop]
        exact ih (by omega) (by omega)
      · rfl

/-- What a search for sync has found in `buff`. -/
structure FindsSync (buff : Bytes) (found : Bool × Bytes) : Prop where
  found_iff : found.1 = true ↔ ∃ p, SyncAt buff p
  least : ∀ p, IsLeast {p | SyncAt buff p} p → found.2 = buff.drop p
  /-- What is dropped cannot begin sync, whatever follows. -/
  dropped : found.1 = false → ∃ d ≤ buff.length, found.2 = buff.drop d ∧
    ∀ q < d, ∀ more, ¬ SyncAt (buff ++ more) q
  short : found.1 = false → found.2.length < tsPacketSize * 3

theorem findsSync (buff : Bytes) : FindsSync buff (syncBuffer buff) := by
  obtain ⟨d, hskip, hfound⟩ := syncBuffer_skips buff
  rcases hfound with ⟨he, hd⟩ | ⟨he, hshort⟩
  · refine ⟨⟨fun _ => ⟨d, ?_⟩, fun _ => by rw [he]⟩, fun p hp => ?_, fun h => ?_, fun h => ?_⟩
    · rwa [begins_synced] at hd
    · rw [← begins_synced] at hp
      rw [he, (hskip.isLeast hd).unique hp]
    · exact absurd (h.symm.trans (congrArg Prod.fst he)) Bool.false_ne_true
    · exact absurd (h.symm.trans (congrArg Prod.fst he)) Bool.false_ne_true
  · have hlen : (buff.drop d).length < tsPacketSize * 3 := by rwa [List.length_drop]
    have hnone (p : ℕ) : ¬ SyncAt buff p := fun hp => by
      have hempty := hskip.not_begins_of_drop (begins_short hlen)
      rw [begins_synced] at hempty
      exact Set.notMem_empty p (hempty ▸ hp)
    have hdropped (q : ℕ) (hq : q < d) (more : Bytes) : ¬ SyncAt (buff ++ more) q := fun hp => by
      refine (hskip.append more).not_begins hq ?_
      rw [begins_synced]
      exact hp
    refine ⟨⟨fun h => ?_, fun ⟨p, hp⟩ => absurd hp (hnone p)⟩, fun p hp => absurd hp.1 (hnone p),
      fun _ => ⟨d, hskip.le, by rw [he], hdropped⟩, fun _ => by rwa [he]⟩
    exact absurd ((congrArg Prod.fst he).symm.trans h) Bool.false_ne_true

/-- **The search for sync.** It ends, finds the least position, and drops nothing that could become one; it
does not matter in how many chunks the bytes come, nor which of the two copies searches. -/
theorem sync_found :
    (∀ buff fuel, buff.length < fuel → syncLoop fuel buff = syncBuffer buff) ∧
    (∀ buff, FindsSync buff (syncBuffer buff)) ∧
    (∀ b c, (syncBuffer ((syncBuffer b).2 ++ c)).1 = (syncBuffer (b ++ c)).1 ∧
      ((syncBuffer (b ++ c)).1 = true → syncBuffer ((syncBuffer b).2 ++ c) = syncBuffer (b ++ c))) ∧
    ∀ (probe : Probing.Probe) (chunk : Bytes), (probe.write chunk).2 =
      let found := if probe.isSync then (true, probe.inBuff ++ chunk) else syncBuffer (probe.inBuff ++ chunk)
      { probe with isSync := found.1, inBuff := found.2 } :=
  ⟨fun _ _ h => syncLoop_fuel h (Nat.lt_succ_self _), findsSync, syncBuffer_again, Probing.Probe.write_sync⟩

end MyMuxer
