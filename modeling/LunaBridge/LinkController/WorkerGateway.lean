import LunaBridge.Foundation.Double
import LunaBridge.LinkController.LiveGateway

/-!
# WorkerGateway — the loop that drains the live gateway onto the paced link

The reader thread and the drain loop of `worker_gateway` share the gateway and nothing else: its
lock makes one sequence of their calls, so in a round of the loop the reader's `admit` calls come
before the one `next`.  What the clock shows, and what the reader admits meanwhile, is given with
each round.  Sending a bundle and sleeping are left out: the loop reads nothing of them back.
-/

namespace LunaBridge
namespace LinkController

open Foundation.Python

/-- What happens around one round of the loop. -/
structure DrainRound where
  /-- The `admit` calls since the last `next`, each with the reader's `now`. -/
  admits : List (LiveBundle × ℚ)
  /-- The clock in `while time.time() < t1`. -/
  checked : ℚ
  /-- `now = time.time()`. -/
  now : ℚ

/-- A forwarded bundle, with the instant the loop logs it at. -/
structure Forward where
  now : ℚ
  bundle : LiveBundle
  deriving DecidableEq, Repr

/-- `in_contact`. -/
def inContact (C : List (ℚ × ℚ)) (t : ℚ) : Bool :=
  C.any fun c => decide (c.1 ≤ t) && decide (t < c.2)

namespace LiveGateway

variable (gw : LiveGateway)

/-- The calls of the reader. -/
def admitAll : List (LiveBundle × ℚ) → LiveM PUnit
  | [] => pure ⟨⟩
  | (b, now) :: admits => do
      let _ ← gw.admitBundle b now
      admitAll admits

/-- `b["n"] * 8 / args.rate_bps`, a division of doubles. -/
def linkTime (rateBps : ℚ) (b : LiveBundle) : LiveM ℚ :=
  if rateBps = 0 then
    throw .zeroDivisionError
  else
    pure (nearestDouble (nearestDouble (b.n * 8) / rateBps))

/-- The drain loop, over any number of rounds; `tFree` is the next instant the link is free. -/
def drainLoop (C : List (ℚ × ℚ)) (rateBps t1 : ℚ) : List DrainRound → ℚ → LiveM (List Forward)
  | [], _ => pure []
  | round :: rounds, tFree => do
      gw.admitAll round.admits
      if t1 ≤ round.checked then
        pure []
      else if ¬ inContact C round.now then
        drainLoop C rateBps t1 rounds tFree
      else if round.now < tFree then
        -- the link is still busy
        drainLoop C rateBps t1 rounds tFree
      else do
        let r ← gw.next round.now
        match r with
        | none => drainLoop C rateBps t1 rounds tFree
        | some b => do
            let busy ← linkTime rateBps b
            let later ← drainLoop C rateBps t1 rounds (nearestDouble (max tFree round.now + busy))
            pure ({ now := round.now, bundle := b } :: later)

end LiveGateway

end LinkController
end LunaBridge
