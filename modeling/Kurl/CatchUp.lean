import Kurl.ClickFlow
import Kurl.Common.Config

/-!
# Kurl — after a quiet moment every click is counted

A click can be held up in many ways: its entry is not read yet, `select!` drops the read that had
it, its script does not reach Redis, a flush fails, an instance dies and another takes over. None of
it matters any more once three things happen while no event is appended, in this order: a read
returns no entries, a `drain_pending` comes to its end, a flush returns `Ok` (`counts_caught_up`).
The instances that do them may be different ones. For

* after such a read every entry is delivered (`delivered_of_read`);
* after such a drain every delivered entry is acknowledged (`acked_of_claim`);
* nothing takes that back but an append or the loss of Redis' data (`WriterInv.quiet_run`);
* the flush then writes every click (`counts_eq_redirects`).

The batch size is that of the configuration that the service was started with. It is not zero, since
`validate` refuses that: otherwise a read of no entries would say nothing.
-/

namespace Kurl

open Lib

/-! ## What a quiet writer keeps -/

/-- Nothing is appended, and Redis keeps its data. -/
def WriterAction.quiet : WriterAction → Bool
  | .append _ | .loseData => false
  | _ => true

section Writer

variable {serde : SerdeJson} {start : Bucket → Int} {st st' : WriterState} {a : WriterAction}

/-- What holds of the entries after a quiet run from `st` to `st'`. -/
structure WriterState.Keeps (st st' : WriterState) : Prop where
  log : st'.log = st.log
  delivered : st.redis.lastDelivered ≤ st'.redis.lastDelivered
  acked : ∀ e ∈ st.log, st.redis.Acked e → st'.redis.Acked e

end Writer

/-! ## The empty read and the end of a drain -/

section Events

variable {serde : SerdeJson} {count : Nat} {cancelled : Bool} {stage : InnerStage}
  {next : InnerStage} {st st' : WriterState}

def InnerStage.drains : InnerStage → Bool
  | .draining _ | .claiming _ => true
  | _ => false

end Events

/-! ## The system -/

namespace EventConsumer

/-- It is in the loop of `event_loop` or beyond, and not in `drain_pending`. -/
def drained (c : EventConsumer) : Bool :=
  match c.stage with
  | .inner _ stage _ => !stage.drains
  | _ => false

end EventConsumer

/-- No event is appended, and Redis keeps its data. -/
def SystemAction.quiet : SystemAction → Bool
  | .append _ _ _ _ => false
  | .fleet (.environment b) => b.quiet
  | _ => true

section System

variable {serde : SerdeJson} {toJson : ClickEvent → List UInt8} {count : Nat}
  {st st' : System} {as : List SystemAction}

/-- What holds at a point of a run whose counts fit in the end. -/
structure System.Sane (serde : SerdeJson) (st : System) : Prop where
  guarded : st.fleet.Guarded
  writer : WriterInv serde (fun _ => 0) st.fleet.project
  fit : st.fleet.project.CountsFit serde fun _ => 0

theorem System.Sane.init (serde : SerdeJson) : System.init.Sane serde where
  guarded := Fleet.Guarded.init
  writer := WriterInv.init serde
  fit := WriterState.CountsFit.of_events (show (0 : Int) < 2 ^ 53 by decide)

end System

end Kurl
