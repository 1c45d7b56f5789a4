import MyMuxer.Lib.Recent
import MyMuxer.Lib.Schedule
import Mathlib.Tactic

/-!
# The HLS client (`hls_client.rs`)

The segment loop of `HlsClient::get`, over a stream of segments of which every playlist lists a window.

* `ChunkQueue`, `fetchSegments`, `fetchPlaylist`: the queue of hashes, and a pass of the loop.
* `State`, `next`: the client and the window of the server, which moves forward.
* `Tracks`: the invariant: which segments the hashes in the queue are, and which ones were requested.
* **`requests_increase`**: the segments are requested in order while no playlist starts more than
  `MAX_SEGMENTS_COUNT` before the end of those handled; `request_again`, and `requests_otherwise`.
-/

namespace MyMuxer.Hls

open Schedule Recent

def maxSegmentsCount : ℕ := 50

def maxErrorCount : ℕ := 3

structure ChunkQueue where
  queue : List UInt64
  capacity : ℕ

def ChunkQueue.new (capacity : ℕ) : ChunkQueue where
  queue := []
  capacity

/-- The client. The last three fields are not part of the program: the segments that were put into the queue,
the newest first; those that were requested, and those whose data is on its way to the output. -/
structure HlsClient where
  downloadedChunks : ChunkQueue
  isFirstFetch : Bool
  errorCount : ℕ
  errorSegmentCount : ℕ
  running : Bool
  handled : List String
  requested : List String
  chunks : List String

def HlsClient.new : HlsClient where
  downloadedChunks := .new maxSegmentsCount
  isFirstFetch := true
  errorCount := 0
  errorSegmentCount := 0
  running := true
  handled := []
  requested := []
  chunks := []

/-- How the request of a segment goes, where `interrupted` says whether the pause after it is cancelled. -/
inductive Fetch where
  /-- Cancelled, before the request is sent or while it waits for the response. -/
  | cancelled (sent : Bool)
  /-- No response in time, or one without success. -/
  | failed (interrupted : Bool)
  /-- A response without data. -/
  | empty
  /-- The data ends early or takes too long. -/
  | broken
  | loaded (interrupted : Bool)

section Client

variable (hash : String → UInt64) (joins : String → Bool)

def ChunkQueue.push (chunks : ChunkQueue) (item : String) : ChunkQueue :=
  { chunks with queue := Recent.push chunks.capacity chunks.queue (hash item) }

def ChunkQueue.contains (chunks : ChunkQueue) (item : String) : Bool := chunks.queue.any fun x => x = hash item

def HlsClient.push (client : HlsClient) (uri : String) : HlsClient :=
  { client with
    downloadedChunks := client.downloadedChunks.push hash uri
    handled := uri :: client.handled }

def HlsClient.request (client : HlsClient) (uri : String) : HlsClient :=
  { client with requested := client.requested ++ [uri] }

def HlsClient.stop (client : HlsClient) : HlsClient := { client with running := false }

/-- A failed request or playlist; the client gives up only in a pause that is cancelled. -/
def HlsClient.fail (client : HlsClient) (interrupted : Bool) : HlsClient :=
  if interrupted ∧ client.errorCount > maxErrorCount then client.stop
  else { client with errorCount := client.errorCount + 1 }

/-- The loop over the segments of a playlist; `joins` says whether a URI can be joined to that of the
playlist. -/
def fetchSegments (client : HlsClient) (isTimeoutNextSegment interrupted : Bool) :
    List (String × Fetch) → HlsClient
  | [] => if isTimeoutNextSegment ∧ interrupted then client.stop else client
  | (uri, fetch) :: segments =>
    if client.downloadedChunks.contains hash uri then
      fetchSegments client isTimeoutNextSegment interrupted segments
    else
      let client := client.push hash uri
      if joins uri then
        match fetch with
        | .cancelled false => client.stop
        | .cancelled true => (client.request uri).stop
        | .failed interrupted => (client.request uri).fail interrupted
        | .empty => fetchSegments (client.request uri) isTimeoutNextSegment interrupted segments
        | .broken =>
          { client.request uri with errorSegmentCount := client.errorSegmentCount + 1 }
        | .loaded stopped =>
          let client := { client.request uri with
            chunks := client.chunks ++ [uri]
            errorSegmentCount := 0 }
          if stopped then client.stop else fetchSegments client false interrupted segments
      else fetchSegments client isTimeoutNextSegment interrupted segments

/-- Of the first playlist, only the last three segments are fetched. -/
def fetchPlaylist (client : HlsClient) (segments : List (String × Fetch)) (interrupted : Bool) : HlsClient :=
  if client.isFirstFetch then
    let drainStart := segments.length - 3
    let client := (segments.take drainStart).foldl (fun client segment => client.push hash segment.1) client
    fetchSegments hash joins { client with isFirstFetch := false } true interrupted (segments.drop drainStart)
  else fetchSegments hash joins client true interrupted segments

end Client

/-! ## The client and the server -/

/-- `start` is the first segment of the playlist that was fetched last. -/
structure State where
  client : HlsClient
  start : ℕ

def new : State where
  client := .new
  start := 0

inductive Action where
  /-- Cancelled while the playlist is fetched. -/
  | cancelled
  /-- The playlist cannot be fetched, or is none of segments. -/
  | failed (interrupted : Bool)
  /-- A playlist of as many segments as there are outcomes. -/
  | playlist (start : ℕ) (fetches : List Fetch) (interrupted : Bool)

/-- The segments of a playlist, with the outcomes of their requests. -/
def segments (uri : ℕ → String) : ℕ → List Fetch → List (String × Fetch)
  | _, [] => []
  | n, fetch :: fetches => (uri n, fetch) :: segments uri (n + 1) fetches

variable (hash : String → UInt64) (joins : String → Bool) (uri : ℕ → String)

/-- A pass of the client; the window of the server does not move back. -/
def next (s : State) (a : Action) : Option State :=
  if s.client.running then
    match a with
    | .cancelled => some { s with client := s.client.stop }
    | .failed interrupted => some { s with client := s.client.fail interrupted }
    | .playlist start fetches interrupted =>
      if s.start ≤ start then
        some { client := fetchPlaylist hash joins s.client (segments uri start fetches) interrupted, start }
      else none
  else none

/-- The playlist starts at most `MAX_SEGMENTS_COUNT` before the end of the segments handled. -/
def Near (s : State) : Action → Prop
  | .playlist start fetches _ =>
    fetches ≠ [] → ∀ n, s.client.handled.head? = some (uri n) → n < start + maxSegmentsCount
  | _ => True

/-- The playlist lists segment number `n`. -/
def Action.Lists (n : ℕ) : Action → Prop
  | .playlist start fetches _ => start ≤ n ∧ n < start + fetches.length
  | _ => False

/-! ## The invariant -/

variable {hash joins uri}
variable {c : HlsClient} {start n : ℕ} {queue reqs : List ℕ} {L : Set ℕ}

/-- `queue` are the segments whose hashes are in the queue, and `reqs` those that were requested. -/
structure Tracks (hash : String → UInt64) (uri : ℕ → String) (L : Set ℕ) (c : HlsClient) (start : ℕ)
    (queue reqs : List ℕ) : Prop where
  capacity : c.downloadedChunks.capacity = maxSegmentsCount
  hashes : c.downloadedChunks.queue = queue.map fun n => hash (uri n)
  window : Window maxSegmentsCount start queue
  handled : c.handled.head? = queue.head?.map uri
  listed : ∀ n ∈ queue, n ∈ L
  requested : c.requested = reqs.map uri
  increasing : reqs.Pairwise (· < ·)
  below : ∀ n ∈ reqs, n < upTo queue
  chunks : c.chunks.Sublist c.requested

theorem tracks_new : Tracks hash uri L .new 0 [] [] where
  capacity := rfl
  hashes := rfl
  window := window_nil
  handled := rfl
  listed _ h := by cases h
  requested := rfl
  increasing := List.Pairwise.nil
  below _ h := by cases h
  chunks := List.Sublist.refl _

/-- While no two segments have one hash, the queue contains exactly the segments that it was given. -/
theorem Tracks.contains (h : Tracks hash uri L c start queue reqs)
    (hinj : Set.InjOn (fun n => hash (uri n)) L) (hn : n ∈ L) :
    c.downloadedChunks.contains hash (uri n) = true ↔ n ∈ queue := by
  simp only [ChunkQueue.contains, List.any_eq_true, h.hashes, List.mem_map, decide_eq_true_eq]
  constructor
  · rintro ⟨x, ⟨m, hm, rfl⟩, heq⟩
    exact hinj (h.listed m hm) hn heq ▸ hm
  · exact fun hmem => ⟨hash (uri n), ⟨n, hmem, rfl⟩, rfl⟩

theorem Tracks.push (h : Tracks hash uri L c start queue reqs) (hn : n ∈ L)
    (hnext : upTo queue = n ∨ upTo queue ≤ n ∧ n = start) :
    Tracks hash uri L (c.push hash (uri n)) start (Recent.push maxSegmentsCount queue n) reqs where
  capacity := h.capacity
  hashes := by
    simp only [HlsClient.push, ChunkQueue.push, h.capacity, h.hashes]
    exact (map_push _).symm
  window := h.window.push (by decide) hnext
  handled := rfl
  listed m hm := by
    rcases List.mem_cons.1 (push_sublist.subset hm) with rfl | hm
    · exact hn
    · exact h.listed m hm
  requested := h.requested
  increasing := h.increasing
  below m hm := ((h.below m hm).trans_le (hnext.elim le_of_eq And.left)).trans (Nat.lt_succ_self n)
  chunks := h.chunks

/-- The segment that was pushed last is requested, once. -/
theorem Tracks.request (h : Tracks hash uri L c start (n :: queue) reqs) (hnew : ∀ m ∈ reqs, m < n) :
    Tracks hash uri L (c.request (uri n)) start (n :: queue) (reqs ++ [n]) where
  capacity := h.capacity
  hashes := h.hashes
  window := h.window
  handled := h.handled
  listed := h.listed
  requested := by simp [HlsClient.request, h.requested]
  increasing := List.pairwise_append.2 ⟨h.increasing, List.pairwise_singleton _ _, fun m hm k hk => by
    obtain rfl := List.mem_singleton.1 hk
    exact hnew m hm⟩
  below m hm := by
    rcases List.mem_append.1 hm with hm | hm
    · exact h.below m hm
    · obtain rfl := List.mem_singleton.1 hm
      exact Nat.lt_succ_self m
  chunks := h.chunks.trans (List.sublist_append_left _ _)

/-- Counters and flags do not matter. -/
theorem Tracks.congr (h : Tracks hash uri L c start queue reqs) {c' : HlsClient}
    (hqueue : c'.downloadedChunks = c.downloadedChunks) (hhandled : c'.handled = c.handled)
    (hrequested : c'.requested = c.requested) (hchunks : c'.chunks = c.chunks) :
    Tracks hash uri L c' start queue reqs :=
  { h with
    capacity := hqueue ▸ h.capacity
    hashes := hqueue ▸ h.hashes
    handled := hhandled ▸ h.handled
    requested := hrequested ▸ h.requested
    chunks := hchunks ▸ hrequested ▸ h.chunks }

theorem Tracks.fetched (h : Tracks hash uri L c start queue reqs) :
    Tracks hash uri L { c with isFirstFetch := false } start queue reqs := h.congr rfl rfl rfl rfl

theorem Tracks.fail (h : Tracks hash uri L c start queue reqs) (interrupted : Bool) :
    Tracks hash uri L (c.fail interrupted) start queue reqs := by
  unfold HlsClient.fail
  split_ifs
  · exact h.congr rfl rfl rfl rfl
  · exact h.congr rfl rfl rfl rfl

/-- The data of a segment follows its request. -/
theorem Tracks.load (h : Tracks hash uri L c start (n :: queue) reqs) (hnew : ∀ m ∈ reqs, m < n) {c' : HlsClient}
    (hqueue : c'.downloadedChunks = c.downloadedChunks) (hhandled : c'.handled = c.handled)
    (hrequested : c'.requested = c.requested ++ [uri n]) (hchunks : c'.chunks = c.chunks ++ [uri n]) :
    Tracks hash uri L c' start (n :: queue) (reqs ++ [n]) :=
  { h.request hnew with
    capacity := hqueue ▸ h.capacity
    hashes := hqueue ▸ h.hashes
    handled := hhandled ▸ h.handled
    requested := by rw [hrequested, h.requested, List.map_append, List.map_singleton]
    chunks := by
      rw [hrequested, hchunks]
      exact h.chunks.append (List.Sublist.refl _) }

/-- **The loop over the segments of a playlist keeps the invariant.** What was handled before is skipped, and
the others are handled in their order. -/
theorem Tracks.fetchSegments (hinj : Set.InjOn (fun n => hash (uri n)) L) (joins : String → Bool)
    (interrupted : Bool) :
    ∀ {fetches : List Fetch} {n : ℕ} {c : HlsClient} {queue reqs : List ℕ} (isTimeoutNextSegment : Bool),
      Tracks hash uri L c start queue reqs → start ≤ n → (∀ k, n ≤ k → k < n + fetches.length → k ∈ L) →
      (n ≤ upTo queue ∨ n = start) → (upTo queue ≤ n ∨ upTo queue ≤ start + maxSegmentsCount) →
      ∃ queue' reqs', Tracks hash uri L (fetchSegments hash joins c isTimeoutNextSegment interrupted
        (segments uri n fetches)) start queue' reqs'
  | [], n, c, queue, reqs, isTimeoutNextSegment, h, _, _, _, _ => by
    unfold segments Hls.fetchSegments
    split_ifs
    · exact ⟨queue, reqs, h.congr rfl rfl rfl rfl⟩
    · exact ⟨queue, reqs, h⟩
  | fetch :: fetches, n, c, queue, reqs, isTimeoutNextSegment, h, hstart, hlisted, hgap, hnear => by
    have hn : n ∈ L := hlisted n le_rfl (by simp)
    have hstart' : start ≤ n + 1 := hstart.trans (Nat.le_succ n)
    have hlisted' : ∀ k, n + 1 ≤ k → k < n + 1 + fetches.length → k ∈ L := fun k hk hlt =>
      hlisted k (by omega) (by rw [List.length_cons]; omega)
    unfold segments Hls.fetchSegments
    split_ifs with hcontains hjoins
    · -- handled before
      have hlt := h.window.lt_upTo ((h.contains hinj hn).1 hcontains)
      exact h.fetchSegments hinj joins interrupted _ hstart' hlisted' (.inl hlt)
        (.inr (hnear.resolve_left (by omega)))
    all_goals
      -- new, so it is the next one
      have hle : upTo queue ≤ n := by
        by_contra hlt
        refine hcontains ((h.contains hinj hn).2 (h.window.recent hstart (by omega) ?_))
        exact (hnear.resolve_left hlt).trans (by omega)
      have hpush := h.push hn (hgap.elim (fun h => .inl (le_antisymm hle h)) fun h => .inr ⟨hle, h⟩)
      have hnew : ∀ m ∈ reqs, m < n := fun m hm => (h.below m hm).trans_le hle
      have hrequest := hpush.request hnew
    · cases fetch with
      | cancelled sent =>
        cases sent with
        | false => exact ⟨_, _, hpush.congr rfl rfl rfl rfl⟩
        | true => exact ⟨_, _, hrequest.congr rfl rfl rfl rfl⟩
      | failed interrupted' => exact ⟨_, _, hrequest.fail interrupted'⟩
      | empty =>
        exact hrequest.fetchSegments hinj joins interrupted _ hstart' hlisted' (.inl le_rfl) (.inl le_rfl)
      | broken => exact ⟨_, _, hrequest.congr rfl rfl rfl rfl⟩
      | loaded stopped =>
        have hload : Tracks hash uri L { (c.push hash (uri n)).request (uri n) with
            chunks := (c.push hash (uri n)).chunks ++ [uri n]
            errorSegmentCount := 0 } start _ _ := hpush.load hnew rfl rfl rfl rfl
        dsimp only
        split_ifs
        · exact ⟨_, _, hload.congr rfl rfl rfl rfl⟩
        · exact hload.fetchSegments hinj joins interrupted _ hstart' hlisted' (.inl le_rfl) (.inl le_rfl)
    · exact hpush.fetchSegments hinj joins interrupted _ hstart' hlisted' (.inl le_rfl) (.inl le_rfl)

/-- The segments that the first playlist skips. -/
theorem Tracks.skip : ∀ {fetches : List Fetch} {n : ℕ} {c : HlsClient} {queue : List ℕ} {k : ℕ},
    Tracks hash uri L c start queue reqs → (∀ m, n ≤ m → m < n + fetches.length → m ∈ L) →
      (upTo queue = n ∨ upTo queue ≤ n ∧ n = start) → k ≤ fetches.length → ∃ queue',
        Tracks hash uri L (((segments uri n fetches).take k).foldl (fun c segment => c.push hash segment.1) c)
          start queue' reqs ∧ (upTo queue' = n + k ∨ upTo queue' ≤ n + k ∧ n + k = start)
  | _, _, _, queue, 0, h, _, hnext, _ => ⟨queue, by simpa using h, hnext⟩
  | [], _, _, _, _ + 1, _, _, _, hk => absurd hk (by simp)
  | fetch :: fetches, n, c, queue, k + 1, h, hlisted, hnext, hk => by
    have hpush := h.push (hlisted n le_rfl (by simp)) hnext
    have hlisted' : ∀ m, n + 1 ≤ m → m < n + 1 + fetches.length → m ∈ L := fun m hm hlt =>
      hlisted m (by omega) (by rw [List.length_cons]; omega)
    have hk' : k ≤ fetches.length := by simpa using hk
    obtain ⟨queue', h', hnext'⟩ := hpush.skip hlisted' (.inl rfl) hk'
    rw [Nat.add_right_comm, Nat.add_assoc] at hnext'
    exact ⟨queue', h', hnext'⟩

theorem isFirstFetch_fetchSegments : ∀ (segments : List (String × Fetch)) (c : HlsClient) (b interrupted : Bool),
    (fetchSegments hash joins c b interrupted segments).isFirstFetch = c.isFirstFetch
  | [], c, b, interrupted => by
    unfold Hls.fetchSegments
    split_ifs <;> rfl
  | (uri, fetch) :: segments, c, b, interrupted => by
    unfold Hls.fetchSegments
    split_ifs
    · exact isFirstFetch_fetchSegments segments c b interrupted
    · cases fetch with
      | cancelled sent => cases sent <;> rfl
      | failed interrupted' =>
        simp only [HlsClient.fail]
        split_ifs <;> rfl
      | empty => exact isFirstFetch_fetchSegments segments _ b interrupted
      | broken => rfl
      | loaded stopped =>
        dsimp only
        split_ifs
        · rfl
        · exact isFirstFetch_fetchSegments segments _ false interrupted
    · exact isFirstFetch_fetchSegments segments _ b interrupted

/-- The queue is empty until the first playlist is fetched. -/
def Ordered (hash : String → UInt64) (uri : ℕ → String) (L : Set ℕ) (s : State) : Prop :=
  ∃ queue reqs, Tracks hash uri L s.client s.start queue reqs ∧ (s.client.isFirstFetch = true → queue = [])

theorem length_segments (uri : ℕ → String) (n : ℕ) (fetches : List Fetch) :
    (segments uri n fetches).length = fetches.length := by
  induction fetches generalizing n with
  | nil => rfl
  | cons fetch fetches ih => exact congrArg (· + 1) (ih (n + 1))

theorem drop_segments (uri : ℕ → String) (n : ℕ) (fetches : List Fetch) (k : ℕ) :
    (segments uri n fetches).drop k = segments uri (n + k) (fetches.drop k) := by
  induction k generalizing n fetches with
  | zero => rfl
  | succ k ih =>
    cases fetches with
    | nil => rfl
    | cons fetch fetches =>
      rw [segments, List.drop_succ_cons, List.drop_succ_cons, ih, Nat.add_right_comm, Nat.add_assoc]

/-- **Every pass keeps the invariant, where its playlist is near.** -/
theorem Ordered.next (hinj : Set.InjOn (fun n => hash (uri n)) L) {s s' : State} {a : Action}
    (h : Ordered hash uri L s) (hn : next hash joins uri s a = some s')
    (hnear : Near uri s a ∧ ∀ n, a.Lists n → n ∈ L) : Ordered hash uri L s' := by
  obtain ⟨queue, reqs, ht, hfirst⟩ := h
  unfold Hls.next at hn
  split_ifs at hn
  cases a with
  | cancelled =>
    cases hn
    exact ⟨queue, reqs, ht.congr rfl rfl rfl rfl, hfirst⟩
  | failed interrupted =>
    cases hn
    refine ⟨queue, reqs, ht.fail interrupted, fun h => hfirst ?_⟩
    unfold HlsClient.fail at h
    split_ifs at h <;> exact h
  | playlist start fetches interrupted =>
    dsimp only at hn
    split_ifs at hn with hstart
    cases hn
    obtain ⟨hnear, hlisted⟩ := hnear
    have ht' : Tracks hash uri L s.client start queue reqs := { ht with window := ht.window.mono hstart }
    have hlisted' : ∀ k, start ≤ k → k < start + fetches.length → k ∈ L := fun k hk hlt => hlisted k ⟨hk, hlt⟩
    unfold fetchPlaylist
    split_ifs with hff
    · -- the queue is still empty
      obtain rfl := hfirst hff
      rw [length_segments]
      dsimp only
      rw [drop_segments]
      obtain ⟨queue', hskip, hnext⟩ := ht'.skip hlisted' (.inr ⟨Nat.zero_le _, rfl⟩) (Nat.sub_le _ 3)
      have hlast : ∀ k, start + (fetches.length - 3) ≤ k →
          k < start + (fetches.length - 3) + (fetches.drop (fetches.length - 3)).length → k ∈ L := fun k hk hlt =>
        hlisted' k ((Nat.le_add_right _ _).trans hk) (by rw [List.length_drop] at hlt; omega)
      obtain ⟨queue₂, reqs₂, h₂⟩ := hskip.fetched.fetchSegments hinj joins interrupted true
        (Nat.le_add_right _ _) hlast
        (hnext.elim (fun h => .inl h.ge) fun h => .inr h.2) (.inl (hnext.elim le_of_eq And.left))
      refine ⟨queue₂, reqs₂, h₂, fun h => ?_⟩
      rw [isFirstFetch_fetchSegments] at h
      cases h
    · cases fetches with
      | nil =>
        refine ⟨queue, reqs, ?_, ?_⟩
        · unfold segments fetchSegments
          split_ifs
          · exact ht'.congr rfl rfl rfl rfl
          · exact ht'
        · rw [isFirstFetch_fetchSegments]
          exact fun h => absurd h hff
      | cons fetch fetches =>
        have hupTo : upTo queue ≤ start + maxSegmentsCount := by
          cases queue with
          | nil => exact Nat.zero_le _
          | cons n queue => exact hnear (List.cons_ne_nil _ _) n ht.handled
        obtain ⟨queue', reqs', h'⟩ :=
          ht'.fetchSegments hinj joins interrupted true le_rfl hlisted' (.inr rfl) (.inr hupTo)
        refine ⟨queue', reqs', h', fun h => ?_⟩
        rw [isFirstFetch_fetchSegments] at h
        exact absurd h hff

theorem ordered_new : Ordered hash uri L new := ⟨[], [], tracks_new, fun _ => rfl⟩

/-- **While no playlist starts more than `MAX_SEGMENTS_COUNT` before the end of the segments handled, the
segments are requested in their order, and none of them twice.** -/
theorem requests_increase {as : List Action} {s : State} (huri : Function.Injective uri)
    (hinj : Set.InjOn (fun n => hash (uri n)) {n | ∃ a ∈ as, a.Lists n})
    (hrun : run (next hash joins uri) new as = some s) (hnear : Along (next hash joins uri) (Near uri) new as) :
    ∃ reqs : List ℕ, s.client.requested = reqs.map uri ∧ reqs.Pairwise (· < ·) ∧
      s.client.requested.Nodup ∧ s.client.chunks.Sublist s.client.requested := by
  have hlisted : ∀ a ∈ as, ∀ n, a.Lists n → n ∈ {n | ∃ a ∈ as, a.Lists n} := fun a ha n hn => ⟨a, ha, hn⟩
  obtain ⟨queue, reqs, h, -⟩ := invariant (fun h hn hp => h.next hinj hn hp) ordered_new hrun
    (along_and_of_forall hnear hlisted)
  refine ⟨reqs, h.requested, h.increasing, ?_, h.chunks⟩
  rw [h.requested]
  exact List.Nodup.map huri (h.increasing.imp Nat.ne_of_lt)

/-- A stream for runs on fixed inputs: as many letters as the number of the segment. -/
def sampleUri (n : ℕ) : String := String.ofList (List.replicate n 'a')

def sampleHash (item : String) : UInt64 := UInt64.ofNat item.utf8ByteSize

theorem utf8ByteSize_sampleUri (n : ℕ) : (sampleUri n).utf8ByteSize = n := by
  unfold sampleUri
  induction n with
  | zero => rfl
  | succ n ih =>
    rw [List.replicate_succ', String.ofList_append, String.utf8ByteSize_append, ih]
    rfl

theorem sampleUri_injective : Function.Injective sampleUri := fun m n h => by
  rw [← utf8ByteSize_sampleUri m, h, utf8ByteSize_sampleUri]

theorem sampleHash_injOn : Set.InjOn (fun n => sampleHash (sampleUri n)) {n | n < 100} := by
  intro m hm n hn h
  have hnat := congrArg UInt64.toNat h
  simp only [sampleHash, utf8ByteSize_sampleUri, UInt64.toNat_ofNat'] at hnat
  change m < 100 at hm
  change n < 100 at hn
  omega

/-- Three segments are fetched, and the next one fails. -/
def sample : List Action :=
  [.playlist 0 (List.replicate 3 (.loaded false)) false, .playlist 1 (List.replicate 3 (.failed false)) false]

theorem requests_increase_sample : ∃ s, run (next sampleHash (fun _ => true) sampleUri) new sample = some s ∧
    s.client.requested = [0, 1, 2, 3].map sampleUri ∧ ∃ reqs : List ℕ, s.client.requested = reqs.map sampleUri ∧
      reqs.Pairwise (· < ·) ∧ s.client.requested.Nodup ∧ s.client.chunks.Sublist s.client.requested := by
  have hend : (run (next sampleHash (fun _ => true) sampleUri) new sample).map
      (fun s => s.client.requested) = some ([0, 1, 2, 3].map sampleUri) := by decide +kernel
  obtain ⟨s, hrun, hreq⟩ := Option.map_eq_some_iff.1 hend
  have hlisted : {n | ∃ a ∈ sample, a.Lists n} ⊆ {n | n < 100} := by
    rintro n ⟨a, ha, hn⟩
    simp only [sample, List.mem_cons, List.not_mem_nil, or_false] at ha
    rcases ha with rfl | rfl <;> simp only [Action.Lists, List.length_replicate] at hn <;>
      exact hn.2.trans (by decide)
  refine ⟨s, hrun, hreq, requests_increase sampleUri_injective (sampleHash_injOn.mono hlisted) hrun ?_⟩
  refine ⟨fun _ n h => (by cases h), fun _ n h => ?_, trivial⟩
  have hlast : sampleUri 2 = sampleUri n := Option.some.inj h
  exact sampleUri_injective hlast ▸ by decide

/-! ## A playlist that starts earlier -/

/-- Requests are only added. -/
theorem requested_prefix {items : List String} : ∀ (segments : List (String × Fetch)) (c : HlsClient)
    (b interrupted : Bool), items <+: c.requested →
      items <+: (fetchSegments hash joins c b interrupted segments).requested
  | [], c, b, interrupted, h => by
    unfold Hls.fetchSegments
    split_ifs <;> exact h
  | (uri, fetch) :: segments, c, b, interrupted, h => by
    have happend : items <+: c.requested ++ [uri] := h.trans (List.prefix_append _ _)
    unfold Hls.fetchSegments
    dsimp only
    split_ifs
    · exact requested_prefix segments c b interrupted h
    · cases fetch with
      | cancelled sent =>
        cases sent with
        | false => exact h
        | true => exact happend
      | failed interrupted' =>
        simp only [HlsClient.fail]
        split_ifs <;> exact happend
      | empty => exact requested_prefix segments _ b interrupted happend
      | broken => exact happend
      | loaded stopped =>
        dsimp only
        split_ifs
        · exact happend
        · exact requested_prefix segments _ false interrupted happend
    · exact requested_prefix segments _ b interrupted h

/-- A segment that can be joined and is not in the queue is requested, unless the client is cancelled. -/
theorem requested_first {fetch : Fetch} {segments : List (String × Fetch)} {c : HlsClient} {item : String}
    {b interrupted : Bool} (hnew : c.downloadedChunks.contains hash item = false) (hjoins : joins item = true)
    (hfetch : fetch ≠ .cancelled false) :
    c.requested ++ [item] <+: (fetchSegments hash joins c b interrupted ((item, fetch) :: segments)).requested := by
  have hrefl : c.requested ++ [item] <+: c.requested ++ [item] := List.prefix_rfl
  unfold Hls.fetchSegments
  rw [if_neg (by simp [hnew])]
  dsimp only
  rw [if_pos hjoins]
  cases fetch with
  | cancelled sent =>
    cases sent with
    | false => exact absurd rfl hfetch
    | true => exact hrefl
  | failed interrupted' =>
    simp only [HlsClient.fail]
    split_ifs <;> exact hrefl
  | empty => exact requested_prefix segments _ b interrupted hrefl
  | broken => exact hrefl
  | loaded stopped =>
    dsimp only
    split_ifs
    · exact hrefl
    · exact requested_prefix segments _ false interrupted hrefl

/-- **A playlist that starts earlier makes the client request its first segment again or out of order**, if
a segment from there on has been requested before. -/
theorem request_again {s s' : State} {fetch : Fetch} {fetches : List Fetch} {interrupted : Bool}
    (huri : Function.Injective uri) (hinj : Set.InjOn (fun n => hash (uri n)) L) (h : Ordered hash uri L s)
    (hn : next hash joins uri s (.playlist start (fetch :: fetches) interrupted) = some s') (hstart : start ∈ L)
    (hfar : ¬ Near uri s (.playlist start (fetch :: fetches) interrupted)) (hjoins : joins (uri start) = true)
    (hfetch : fetch ≠ .cancelled false) (hn₀ : start ≤ n) (hreq : uri n ∈ s.client.requested) :
    ¬ ∃ reqs : List ℕ, s'.client.requested = reqs.map uri ∧ reqs.Pairwise (· < ·) := by
  obtain ⟨queue, reqs, ht, hfirst⟩ := h
  unfold Hls.next at hn
  split_ifs at hn
  dsimp only at hn
  split_ifs at hn with hle
  cases hn
  -- the queue is full of later segments
  have hfar' : start + maxSegmentsCount < upTo queue := by
    unfold Near at hfar
    push Not at hfar
    obtain ⟨-, m, hm, hge⟩ := hfar
    rw [ht.handled] at hm
    cases queue with
    | nil => cases hm
    | cons k queue =>
      obtain rfl := huri (Option.some.inj hm)
      exact Nat.lt_succ_of_le hge
  have hnew : s.client.downloadedChunks.contains hash (uri start) = false := by
    rw [← Bool.not_eq_true, ht.contains hinj hstart]
    exact ht.window.not_mem hle hfar'
  have hff : s.client.isFirstFetch = false := by
    by_contra hff
    rw [hfirst (by simpa using hff)] at hfar'
    exact absurd hfar' (Nat.not_lt_zero _)
  rintro ⟨reqs', hreqs', hincreasing⟩
  have hprefix : s.client.requested ++ [uri start] <+: reqs'.map uri := by
    rw [← hreqs']
    unfold fetchPlaylist segments
    rw [if_neg (by simp [hff])]
    exact requested_first hnew hjoins hfetch
  obtain ⟨rest, hrest⟩ := hprefix
  obtain ⟨left, right, rfl, hleft, -⟩ := List.map_eq_append_iff.1 hrest.symm
  obtain ⟨before, last, rfl, hbefore, hlast⟩ := List.map_eq_append_iff.1 hleft
  rw [← hbefore] at hreq
  obtain ⟨k, hk, hkn⟩ := List.mem_map.1 hreq
  obtain rfl := huri hkn
  obtain ⟨m, rfl, hm⟩ := List.map_eq_singleton_iff.1 hlast
  obtain rfl := huri hm
  have hlt := (List.pairwise_append.1 (List.pairwise_append.1 hincreasing).1).2.2 k hk m (List.mem_singleton_self m)
  omega

/-- A playlist of more segments than the queue holds, listed twice. -/
def long : List Action :=
  [.playlist 0 (List.replicate 51 (.loaded false)) false, .playlist 0 (List.replicate 51 (.failed false)) false]

/-- The first segment of the playlist is requested after its last one. -/
theorem requests_otherwise : Function.Injective sampleUri ∧
    Set.InjOn (fun n => sampleHash (sampleUri n)) {n | n < 51} ∧
    (run (next sampleHash (fun _ => true) sampleUri) new long).map (fun s => s.client.requested) =
      some ([48, 49, 50, 0].map sampleUri) := by
  refine ⟨sampleUri_injective, sampleHash_injOn.mono fun n hn => ?_, by decide +kernel⟩
  exact Nat.lt_trans hn (by decide)

end MyMuxer.Hls
