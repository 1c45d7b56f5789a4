import Mathlib.Data.List.Count
import Mathlib.Data.Set.Basic
import Mathlib.Tactic

/-!
# Fair read-write locks

A lock that is held by readers or by one writer, and granted in the order in which it was asked for: a
writer that waits holds back the readers that come after it.

* `Lock`, `Lock.request`, `Lock.release`: the guards that are held, and those that were asked for.
* `Sound`, `demand`: what every request and release keeps, and how they change what an owner holds or
  waits for.
* `BlockedBy`, `Deadlock`: who waits for whom, and a set of owners that wait for each other.
* **`not_deadlock`**: no deadlock while those who wait hold nothing; **`deadlock_request`**: a reader that
  asks again behind a writer is in a deadlock with it.
-/

namespace RwLock

inductive Mode where
  | read
  | write
  deriving DecidableEq

/-- Every guard of a reader is an entry of `readers`; `queue` is what was asked for, the oldest first. -/
structure Lock (ι : Type*) where
  readers : List ι
  writer : Option ι
  queue : List (ι × Mode)

namespace Lock

variable {ι : Type*}

def free : Lock ι where
  readers := []
  writer := none
  queue := []

/-- A guard of this mode can be given out. -/
def Grants (l : Lock ι) : Mode → Prop
  | .read => l.writer = none
  | .write => l.writer = none ∧ l.readers = []

instance (l : Lock ι) : DecidablePred l.Grants
  | .read => decidable_of_iff (l.writer.isNone = true) Option.isNone_iff_eq_none
  | .write => decidable_of_iff (l.writer.isNone = true ∧ l.readers.isEmpty = true)
      (and_congr Option.isNone_iff_eq_none List.isEmpty_iff)

def give (l : Lock ι) (i : ι) : Mode → Lock ι
  | .read => { l with readers := i :: l.readers }
  | .write => { l with writer := some i }

/-- Give out guards from the front of a queue, as long as the next one can be given out. -/
def serve (l : Lock ι) : List (ι × Mode) → Lock ι
  | [] => { l with queue := [] }
  | (i, m) :: queue => if l.Grants m then (l.give i m).serve queue else { l with queue := (i, m) :: queue }

def request (l : Lock ι) (i : ι) (m : Mode) : Lock ι := l.serve (l.queue ++ [(i, m)])

/-- The lock without one guard of an owner, before it is given to others. -/
def take [DecidableEq ι] (l : Lock ι) (i : ι) : Mode → Lock ι
  | .read => { l with readers := l.readers.erase i }
  | .write => { l with writer := none }

def release [DecidableEq ι] (l : Lock ι) (i : ι) (m : Mode) : Lock ι := (l.take i m).serve l.queue

/-- The owner has asked for a guard and not got it. -/
def Waits (l : Lock ι) (i : ι) : Prop := i ∈ l.queue.map Prod.fst

def Holds (l : Lock ι) (i : ι) : Prop := i ∈ l.readers ∨ l.writer = some i

instance [DecidableEq ι] (l : Lock ι) : DecidablePred l.Waits := fun i =>
  inferInstanceAs (Decidable (i ∈ l.queue.map Prod.fst))

/-- `b` holds a guard that `r` cannot have beside it, or has asked for one before `r`. -/
def BlockedBy (l : Lock ι) (r b : ι) : Prop :=
  ∃ before m behind, l.queue = before ++ (r, m) :: behind ∧
    (b ∈ before.map Prod.fst ∨ l.writer = some b ∨ (m = .write ∧ b ∈ l.readers))

/-- Some owners each wait for one of them. -/
def Deadlock (l : Lock ι) : Prop := ∃ S : Set ι, S.Nonempty ∧ ∀ r ∈ S, ∃ b ∈ S, l.BlockedBy r b

/-! ## What requests and releases keep -/

/-- A writer is alone, and the front of the queue cannot be given out. -/
structure Sound (l : Lock ι) : Prop where
  alone : l.writer ≠ none → l.readers = []
  settled : ∀ {i m queue}, l.queue = (i, m) :: queue → ¬ l.Grants m

variable {l : Lock ι} {i j : ι} {m k : Mode} {queue : List (ι × Mode)}

theorem sound_free : (free : Lock ι).Sound where
  alone h := absurd rfl h
  settled h := by cases h

theorem alone_give (h : l.Grants m) :
    (l.give i m).writer ≠ none → (l.give i m).readers = [] := by
  cases m with
  | read => exact fun hw => absurd h hw
  | write => exact fun _ => h.2

theorem sound_serve (halone : l.writer ≠ none → l.readers = []) (queue : List (ι × Mode)) :
    (l.serve queue).Sound := by
  induction queue generalizing l with
  | nil => exact ⟨halone, fun h => by cases h⟩
  | cons e queue ih =>
    obtain ⟨i, m⟩ := e
    unfold serve
    split_ifs with hg
    · exact ih (alone_give hg)
    · refine ⟨halone, fun h => ?_⟩
      cases h
      exact hg

theorem Sound.request (h : l.Sound) : (l.request i m).Sound := sound_serve h.alone _

theorem Sound.release [DecidableEq ι] (h : l.Sound) : (l.release i m).Sound := by
  refine sound_serve ?_ _
  cases m with
  | read =>
    intro hw
    simp [take, h.alone hw]
  | write => exact fun hw => absurd rfl hw

/-- The queue is a tail of what there was to give out. -/
theorem queue_serve_suffix (l : Lock ι) (queue : List (ι × Mode)) : (l.serve queue).queue <:+ queue := by
  induction queue generalizing l with
  | nil => exact List.suffix_rfl
  | cons e queue ih =>
    unfold serve
    split_ifs
    · exact (ih _).trans (List.suffix_cons ..)
    · exact List.suffix_rfl

theorem waits_of_request (h : (l.request i m).Waits j) : j = i ∨ l.Waits j := by
  have hmem := ((queue_serve_suffix l _).map Prod.fst).subset h
  simp only [List.map_append, List.map_cons, List.map_nil, List.mem_append, List.mem_singleton] at hmem
  exact hmem.symm

theorem waits_of_release [DecidableEq ι] (h : (l.release i m).Waits j) : l.Waits j :=
  ((queue_serve_suffix _ _).map Prod.fst).subset h

/-- While one waits, whoever asks waits behind it. -/
theorem Sound.request_of_queue (h : l.Sound) (hq : l.queue ≠ []) :
    l.request i m = { l with queue := l.queue ++ [(i, m)] } := by
  obtain ⟨⟨j, k⟩, queue, heq⟩ := List.exists_cons_of_ne_nil hq
  rw [Lock.request, heq, List.cons_append, serve, if_neg (h.settled heq)]

/-- Behind readers alone, and while no writer holds the lock, a reader gets it at once. -/
theorem Sound.request_read (h : l.Sound) (hw : l.writer = none) (hq : ∀ e ∈ l.queue, e.2 = .read) :
    (l.request i .read).queue = [] := by
  have hnil : l.queue = [] := by
    match heq : l.queue with
    | [] => rfl
    | (j, k) :: queue =>
      have hk : k = .read := hq (j, k) (heq ▸ List.mem_cons_self)
      subst hk
      exact absurd hw (h.settled heq)
  have hg : l.Grants .read := hw
  rw [Lock.request, hnil, List.nil_append, serve, if_pos hg]
  rfl

/-! ## What an owner holds or waits for -/

section Demand

variable [DecidableEq ι]

def held (l : Lock ι) (i : ι) : Mode → ℕ
  | .read => l.readers.count i
  | .write => if l.writer = some i then 1 else 0

/-- The guards that the owner holds, and those that it waits for. -/
def demand (l : Lock ι) (i : ι) (m : Mode) : ℕ := l.held i m + l.queue.count (i, m)

/-- One guard. -/
def one (i : ι) (m : Mode) (j : ι) (k : Mode) : ℕ := if (i, m) = (j, k) then 1 else 0

@[simp] theorem one_self : one i m i m = 1 := if_pos rfl

theorem one_of_ne (h : j ≠ i) : one i m j k = 0 := if_neg fun he => h (congrArg Prod.fst he).symm

theorem held_give (h : l.Grants m) : (l.give i m).held j k = l.held j k + one i m j k := by
  cases m <;> cases k
  · simp [give, held, one, List.count_cons]
  · exact (Nat.add_zero _).symm.trans (congrArg _ (by simp [one]))
  · exact (Nat.add_zero _).symm.trans (congrArg _ (by simp [one]))
  · simp [give, held, one, h.1]

theorem demand_serve (l : Lock ι) (queue : List (ι × Mode)) :
    (l.serve queue).demand j k = l.held j k + queue.count (j, k) := by
  induction queue generalizing l with
  | nil => cases k <;> rfl
  | cons e queue ih =>
    obtain ⟨i, m⟩ := e
    unfold serve
    split_ifs with hg
    · rw [ih, held_give hg, List.count_cons, one]
      simp only [beq_iff_eq]
      omega
    · cases k <;> rfl

theorem demand_request : (l.request i m).demand j k = l.demand j k + one i m j k := by
  rw [request, demand_serve, List.count_append, List.count_singleton, one, demand]
  simp only [beq_iff_eq]
  omega

theorem held_take (hw : 0 < l.held i m) : (l.take i m).held j k + one i m j k = l.held j k := by
  cases m with
  | read =>
    cases k with
    | read =>
      have hcount : 0 < l.readers.count i := hw
      by_cases hij : i = j
      · subst hij
        simp only [take, held, one_self, List.count_erase_self]
        omega
      · simp [take, held, one, hij, List.count_erase_of_ne (Ne.symm hij)]
    | write => exact (congrArg (l.held j .write + ·) (by simp [one])).trans (Nat.add_zero _)
  | write =>
    have hwriter : l.writer = some i := by
      by_contra hne
      simp [held, hne] at hw
    cases k with
    | read => exact (congrArg (l.held j .read + ·) (by simp [one])).trans (Nat.add_zero _)
    | write => by_cases hij : i = j <;> simp [take, held, one, hwriter, hij]

theorem demand_release (h : 0 < l.held i m) : (l.release i m).demand j k + one i m j k = l.demand j k := by
  have hheld := held_take (j := j) (k := k) h
  rw [release, demand_serve, demand]
  omega

theorem held_of_not_waits (h : ¬ l.Waits i) : l.held i m = l.demand i m := by
  have hcount : l.queue.count (i, m) = 0 :=
    List.count_eq_zero.2 fun hmem => h (List.mem_map_of_mem (f := Prod.fst) hmem)
  rw [demand, hcount, Nat.add_zero]

theorem holds_iff_held : l.Holds i ↔ 0 < l.held i .read ∨ 0 < l.held i .write := by
  have hwrite : 0 < l.held i .write ↔ l.writer = some i := by
    unfold held
    split_ifs with hi <;> simp [hi]
  exact or_congr List.count_pos_iff.symm hwrite.symm

theorem queue_count_fst (queue : List (ι × Mode)) :
    (queue.map Prod.fst).count i = queue.count (i, .read) + queue.count (i, .write) := by
  induction queue with
  | nil => rfl
  | cons e queue ih =>
    obtain ⟨j, m⟩ := e
    rw [List.map_cons, List.count_cons, List.count_cons, List.count_cons, ih]
    by_cases hij : j = i
    · subst hij
      cases m <;> simp <;> omega
    · simp [hij]

end Demand

/-! ## Deadlocks -/

theorem BlockedBy.waits {r b : ι} (h : l.BlockedBy r b) : l.Waits r := by
  obtain ⟨before, m, behind, hq, -⟩ := h
  simp [Waits, hq]

theorem before_unique (hnodup : (queue.map Prod.fst).Nodup) {p q p' q' : List (ι × Mode)}
    (h : queue = p ++ (i, m) :: q) (h' : queue = p' ++ (i, k) :: q') : p.map Prod.fst = p'.map Prod.fst := by
  have heq : p.map Prod.fst ++ i :: q.map Prod.fst = p'.map Prod.fst ++ i :: q'.map Prod.fst := by
    simpa using congrArg (List.map Prod.fst) (h.symm.trans h')
  rw [h, List.map_append, List.map_cons, List.nodup_middle, List.nodup_cons, List.mem_append, not_or] at hnodup
  exact ((List.append_cons_inj_of_notMem hnodup.1.1 hnodup.1.2).1 heq).1

/-- **While those who wait hold nothing, and wait for one guard each, there is no deadlock.** -/
theorem not_deadlock (hnodup : (l.queue.map Prod.fst).Nodup) (hholds : ∀ i, l.Waits i → ¬ l.Holds i) :
    ¬ l.Deadlock := by
  rintro ⟨S, ⟨r, hr⟩, hS⟩
  -- the one of them that has waited longest is blocked by none of them
  have hnone : ∀ (before behind : List (ι × Mode)) (r : ι) (m : Mode),
      l.queue = before ++ (r, m) :: behind → r ∉ S := by
    intro before
    induction hn : before.length using Nat.strong_induction_on generalizing before with
    | _ n ih =>
      intro behind r m hq hr
      obtain ⟨b, hb, hblocked⟩ := hS r hr
      obtain ⟨b', -, hb'⟩ := hS b hb
      have hfree := hholds b hb'.waits
      obtain ⟨before', m', behind', hq', hcases⟩ := hblocked
      have hsplit := before_unique hnodup hq hq'
      rcases hcases with hbefore | hwriter | ⟨-, hreader⟩
      · rw [← hsplit] at hbefore
        obtain ⟨⟨b₁, m₁⟩, hmem, rfl⟩ := List.mem_map.1 hbefore
        obtain ⟨p, q, rfl⟩ := List.append_of_mem hmem
        refine ih p.length ?_ p rfl (q ++ (r, m) :: behind) b₁ m₁ (by simp [hq]) hb
        simp only [List.length_append, List.length_cons] at hn
        omega
      · exact hfree (.inr hwriter)
      · exact hfree (.inl hreader)
  obtain ⟨b, -, before, m, behind, hq, -⟩ := hS r hr
  exact hnone before behind r m hq hr

/-- **A reader that asks again while a writer waits is in a deadlock with it.** -/
theorem deadlock_request {r w : ι} (m : Mode) (h : l.Sound) (hr : r ∈ l.readers) (hw : (w, .write) ∈ l.queue) :
    (l.request r m).BlockedBy r w ∧ (l.request r m).BlockedBy w r := by
  rw [h.request_of_queue (List.ne_nil_of_mem hw)]
  obtain ⟨p, q, hq⟩ := List.append_of_mem hw
  refine ⟨⟨l.queue, m, [], rfl, .inl (List.mem_map_of_mem (f := Prod.fst) hw)⟩,
    p, .write, q ++ [(r, m)], by simp [hq], .inr (.inr ⟨rfl, hr⟩)⟩

theorem deadlock_of_mutual {r w : ι} (h₁ : l.BlockedBy r w) (h₂ : l.BlockedBy w r) : l.Deadlock := by
  refine ⟨{r, w}, ⟨r, .inl rfl⟩, ?_⟩
  rintro x (rfl | rfl)
  · exact ⟨_, .inr rfl, h₁⟩
  · exact ⟨_, .inl rfl, h₂⟩

end Lock

end RwLock
