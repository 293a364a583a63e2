import Rigging.Notice

/-!
# The console

Where notices are shown.  Setting the console up replaces the display that an earlier set-up put
there, so there is never more than one.
-/

namespace Rigging

/-- The console: the least level that is shown, and how many displays there are. -/
structure Console where
  level : Level
  displays : Nat
deriving DecidableEq, Repr

namespace Console

/-- A console that nobody has set up. -/
def start : Console := ⟨.warning, 0⟩

/-- Takes down what an earlier set-up put there. -/
def dismantle (c : Console) : Console := { c with displays := 0 }

/-- Sets the console up; a verbose one shows everything. -/
def configure (verbose : Bool) (c : Console) : Console :=
  let bare := c.dismantle
  { level := if verbose then .debug else .info, displays := bare.displays + 1 }

/-- Sets the console up again and again, and gives it after each time. -/
def configureAll (c : Console) : List Bool → List Console
  | [] => []
  | verbose :: rest =>
    let next := c.configure verbose
    next :: configureAll next rest

/-- The place of a level in their order. -/
def rank : Level → Nat
  | .debug => 0
  | .info => 1
  | .warning => 2
  | .error => 3

/-- Whether the console shows a notice. -/
def shows (c : Console) (n : Notice) : Bool :=
  c.displays != 0 && rank c.level ≤ rank n.level

end Console

end Rigging
