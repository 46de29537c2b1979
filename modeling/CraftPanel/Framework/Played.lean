import CraftPanel.Framework.Requests

/-!
# A request by itself

A request that has the store to itself, with what its statements cost. What it leaves and what it
ends in is said by a condition on both, and the rules take the condition from the end of a request to
its beginning.
-/

namespace Framework

namespace Request

variable {Statement : Type} {Answer : Statement → Type} {ε α β Store : Type}

/-- The store, the cost and the outcome of a request. -/
def play (execute : Store → (statement : Statement) → Store × Except ε (Answer statement))
    (cost : Statement → Nat) : Request Answer ε α → Store → Nat → Store × Nat × Except ε α
  | done outcome, store, spent => (store, spent, outcome)
  | ask statement next, store, spent =>
    (next (execute store statement).2).play execute cost (execute store statement).1
      (spent + cost statement)

/-- What is so once the request has ended. -/
def Ends (execute : Store → (statement : Statement) → Store × Except ε (Answer statement))
    (cost : Statement → Nat) (post : Store → Nat → Except ε α → Prop) (request : Request Answer ε α)
    (store : Store) (spent : Nat) : Prop :=
  post (request.play execute cost store spent).1 (request.play execute cost store spent).2.1
    (request.play execute cost store spent).2.2

variable {execute : Store → (statement : Statement) → Store × Except ε (Answer statement)}
  {cost : Statement → Nat} {post : Store → Nat → Except ε α → Prop}
  {last : Store → Nat → Except ε β → Prop} {store : Store} {spent : Nat}

theorem ends_bind {x : Request Answer ε α} {f : α → Request Answer ε β} :
    (x >>= f).Ends execute cost last store spent ↔
      x.Ends execute cost (fun store spent outcome => match outcome with
        | .ok a => (f a).Ends execute cost last store spent
        | .error e => last store spent (.error e)) store spent := by
  induction x generalizing store spent with
  | done outcome => cases outcome <;> rfl
  | ask statement next ih => exact ih (execute store statement).2

theorem ends_attempt {x : Request Answer ε α} {post : Store → Nat → Except ε (Except ε α) → Prop} :
    x.attempt.Ends execute cost post store spent ↔
      x.Ends execute cost (fun store spent outcome => post store spent (.ok outcome)) store spent := by
  induction x generalizing store spent with
  | done outcome => rfl
  | ask statement next ih => exact ih (execute store statement).2

theorem ends_run {statement : Statement}
    {post : Store → Nat → Except ε (Answer statement) → Prop} :
    (run statement).Ends execute cost post store spent ↔
      post (execute store statement).1 (spent + cost statement) (execute store statement).2 :=
  Iff.rfl

end Request

end Framework
