import Rigging.Error
import Rigging.Notice

/-!
# Actions

An action works on a state, may leave notices, and ends with a result or an error.  When it fails,
the state keeps what was done before and the notices stay.
-/

namespace Rigging

/-- How an action ended. -/
structure Outcome (σ α : Type) where
  result : Except Error α
  state : σ
  notices : List Notice

/-- An action on a state. -/
def Act (σ α : Type) := σ → Outcome σ α

namespace Act

variable {σ τ α β : Type}

instance : Monad (Act σ) where
  pure a := fun s => ⟨.ok a, s, []⟩
  bind a f := fun s =>
    let first := a s
    match first.result with
    | .ok x =>
      let second := f x first.state
      ⟨second.result, second.state, first.notices ++ second.notices⟩
    | .error e => ⟨.error e, first.state, first.notices⟩

instance [Inhabited σ] : Inhabited (Act σ α) := ⟨fun s => ⟨.error (.invalidRoot ""), s, []⟩⟩

/-- Ends with an error. -/
def fail (e : Error) : Act σ α := fun s => ⟨.error e, s, []⟩

/-- Ends with what has been computed. -/
def ofExcept : Except Error α → Act σ α
  | .ok a => pure a
  | .error e => fail e

/-- Leaves a notice. -/
def notify (n : Notice) : Act σ Unit := fun s => ⟨.ok (), s, [n]⟩

/-- The state. -/
def state : Act σ σ := fun s => ⟨.ok s, s, []⟩

/-- Changes the state. -/
def modify (f : σ → σ) : Act σ Unit := fun s => ⟨.ok (), f s, []⟩

/-- Runs an action on a state of its own and gives the state it leaves. -/
def onOwn (s : τ) (a : Act τ α) : Act σ (α × τ) := fun outer =>
  let inner := a s
  ⟨inner.result.map fun x => (x, inner.state), outer, inner.notices⟩

/-- Runs an action on a part of the state. -/
def within (get : σ → τ) (set : τ → σ → σ) (a : Act τ α) : Act σ α := fun s =>
  let inner := a (get s)
  ⟨inner.result, set inner.state s, inner.notices⟩

/-- Runs an action and gives its error as a result. -/
def attempt (a : Act σ α) : Act σ (Except Error α) := fun s =>
  let inner := a s
  ⟨.ok inner.result, inner.state, inner.notices⟩

/-- Runs an action for every item in order. -/
def forEach (f : α → Act σ Unit) : List α → Act σ Unit
  | [] => pure ()
  | x :: xs => do
    f x
    forEach f xs

/-- Runs an action for every item in order and gives the results. -/
def mapEach (f : α → Act σ β) : List α → Act σ (List β)
  | [] => pure []
  | x :: xs => do
    let y ← f x
    let ys ← mapEach f xs
    return y :: ys

end Act

end Rigging
