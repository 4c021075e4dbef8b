import RightOfWay.Control.Plant
import RightOfWay.Logic.Trace

namespace RightOfWay.Control

open Logic (Trace)

/-- A rollout, and whether its last step ended the episode. -/
structure Rollout (O : Type) where
  trace : Trace O
  done : Bool

/-- The most rollouts of a batch: each is listed with 24 bytes, and a list has less than `2 ^ 63`. -/
def batchLimit : Nat := (UInt64.size / 2 - 1) / 24

namespace Plant

variable {S A T O : Type}

/-- Steps the plant up to `horizon` times under an action. Gives the observations after each step and
whether the last one ended the episode. -/
def follow (p : Plant S A T) (observe : S → O) (a : A) :
    Nat → S → S × Except Interruption (List O × Bool)
  | 0, s => (s, .ok ([], false))
  | horizon + 1, s =>
    match p.step a s with
    | (s, .error i) => (s, .error i)
    | (s, .ok t) =>
      if t.done then (s, .ok ([observe s], true))
      else
        match p.follow observe a horizon s with
        | (s', .error i) => (s', .error i)
        | (s', .ok (os, done)) => (s', .ok (observe s :: os, done))

def rollout (p : Plant S A T) (observe : S → O) (a : A) (horizon : Nat) (s : S) :
    S × Except Interruption (Rollout O) :=
  match p.follow observe a horizon s with
  | (s', .error i) => (s', .error i)
  | (s', .ok (os, done)) => (s', .ok ⟨⟨observe s, os⟩, done⟩)

/-- Rollouts one after the other. A failing step discards the rollouts before it. -/
def successive (p : Plant S A T) (observe : S → O) (a : A) (horizon : Nat) :
    Nat → S → S × Except Interruption (List (Rollout O))
  | 0, s => (s, .ok [])
  | n + 1, s =>
    match p.rollout observe a horizon s with
    | (s, .error i) => (s, .error i)
    | (s, .ok r) =>
      match p.successive observe a horizon n s with
      | (s, .error i) => (s, .error i)
      | (s, .ok rs) => (s, .ok (r :: rs))

/-- A batch of `n` rollouts. Room for the batch is made before the first step, so a batch that is too large
leaves the plant as it was. -/
def rollouts (p : Plant S A T) (observe : S → O) (a : A) (horizon n : Nat) (s : S) :
    S × Except Interruption (List (Rollout O)) :=
  if batchLimit < n then (s, .error .aborted) else p.successive observe a horizon n s

end Plant

end RightOfWay.Control
