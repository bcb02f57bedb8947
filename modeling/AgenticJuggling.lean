import AgenticJuggling.MatchRaces
import AgenticJuggling.AutoStop
import AgenticJuggling.Reports
import AgenticJuggling.StopFrame
import AgenticJuggling.TokenTotals
import AgenticJuggling.Delivery
import AgenticJuggling.NodeExclusion
import AgenticJuggling.Readiness
import AgenticJuggling.MatchTable
import AgenticJuggling.Authentication
import AgenticJuggling.NodeResume
import AgenticJuggling.Reconnect
import AgenticJuggling.MatchFrame
import AgenticJuggling.StartFailure
import AgenticJuggling.Attribution
import AgenticJuggling.Replay
import AgenticJuggling.Footprint
import AgenticJuggling.Correspondence
import AgenticJuggling.Noninterference
import AgenticJuggling.WindowCollect
import AgenticJuggling.IdleTime
import AgenticJuggling.FailedRegister
import AgenticJuggling.Leaderboards
import AgenticJuggling.LiveFeed
import AgenticJuggling.Broadcast
import AgenticJuggling.ReporterLoop
import AgenticJuggling.NodeMain
import AgenticJuggling.RunnerPrompt
import AgenticJuggling.Registration
import AgenticJuggling.AwaitReady
import AgenticJuggling.Acceptance
import AgenticJuggling.PromptLedger
import AgenticJuggling.Unrecorded
import AgenticJuggling.Incarnations
import AgenticJuggling.Parts
import AgenticJuggling.Firing
import AgenticJuggling.Outage
import AgenticJuggling.Transport
import AgenticJuggling.Telemetry
import AgenticJuggling.Turns
import AgenticJuggling.Failover
import AgenticJuggling.Regex
import AgenticJuggling.TokenRe
