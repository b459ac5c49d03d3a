import SculkProtocol.Client.PumpStop
import SculkProtocol.Server.PumpStop

/-!
# `stop` and the work in flight

Both network systems stop their pump in the same order: the guards go down, then
`stop` waits for the delayed wakeups, then for the jobs (the server waits for the
session tasks last). `stop_leaves_nothing` puts the two accounts together. In the
runs in which the first wait never ends between a job's second reading of the
guards and its count of a wakeup, every counter is zero once the waits are over,
and until the next `start`. What is still in the pool then is a closure on its way
from its decrement to its return, and not even that in the runs in which the last
wait ends after the closures have returned. `stop_leaves_wakeup` shows the other
runs.
-/

namespace SculkProtocol

/-- **After `stop`** nothing that captured the system is counted, and nothing runs if the
last wait ended after the closures had returned. -/
theorem stop_leaves_nothing (ready : ℕ)
    {hs : List (Transition (Config Server.State Server.Thread) (Move Server.Act))}
    {hc : List (Transition (Config Client.State Client.IoThread) (Move Client.Act))}
    {s : Config Server.State Server.Thread} {c : Config Client.State Client.IoThread}
    (hserver : (Server.system ready).Run hs s) (hclient : Client.system.Run hc c) :
    ((∀ x ∈ hs, Server.WaitsForAll x) → s.shared.Stopped →
      Server.Quiet s ∧ ((∀ x ∈ hs, Server.WaitsForTails x) → s.threads = [])) ∧
    ((∀ x ∈ hc, Client.WaitsForAll x) → c.shared.Stopped →
      Client.Quiet c ∧ ((∀ x ∈ hc, Client.WaitsForTails x) → c.threads = [])) :=
  ⟨fun hwait hstop => ⟨Server.stopped_quiet hserver hwait hstop,
      fun htail => Server.stopped_empty hserver hwait htail hstop⟩,
    fun hwait hstop => ⟨Client.stopped_quiet hclient hwait hstop,
      fun htail => Client.stopped_empty hclient hwait htail hstop⟩⟩

/-- A server is started and stopped before its first flush job runs. -/
def Server.stopAtOnce : List (Move Server.Act) :=
  [.env (.call .start), .env .step, .env (.startup true), .env .step, .env .step, .env .step,
      .env .step, .env .step,
    .env (.call .stop), .env .step, .env .step, .env .io, .env .step, .env .step,
    .thread 0 .step, .thread 0 .step, .thread 0 .step, .thread 0 .step,
    .env .step, .env .step, .env .step, .env .step]

/-- A client is started, told to connect and stopped before its first I/O job runs. -/
def Client.stopAtOnce : List (Move Client.Act) :=
  Client.connected ++
    [.env (.call .stop), .env .step, .env .step, .env .step,
      .thread 0 .step, .thread 0 .step, .thread 0 .step, .thread 0 .step,
      .env .step, .env .step, .env .step]

/-- In both runs the first job finds the guards down and returns before the last wait
ends. -/
theorem stop_leaves_nothing_at_once :
    ∃ hs s hc c, (Server.system 512).Run hs s ∧ hs.length = 22 ∧ Server.Quiet s ∧
      s.threads = [] ∧ Client.system.Run hc c ∧ hc.length = 24 ∧ Client.Quiet c ∧
      c.threads = [] := by
  obtain ⟨hs, s, hserver, hp⟩ := (Server.system 512).exists_run_of_follow
    (p := fun h c => decide (h.length = 22 ∧ (∀ x ∈ h, Server.WaitsForAll x) ∧
      (∀ x ∈ h, Server.WaitsForTails x) ∧ c.shared.Stopped)) Server.stopAtOnce (by decide)
  obtain ⟨hc, c, hclient, hq⟩ := Client.system.exists_run_of_follow
    (p := fun h c => decide (h.length = 24 ∧ (∀ x ∈ h, Client.WaitsForAll x) ∧
      (∀ x ∈ h, Client.WaitsForTails x) ∧ c.shared.Stopped)) Client.stopAtOnce (by decide)
  obtain ⟨hlen, hwait, htail, hstop⟩ := of_decide_eq_true hp
  obtain ⟨hlen', hwait', htail', hstop'⟩ := of_decide_eq_true hq
  obtain ⟨hquiet, hquiet'⟩ := stop_leaves_nothing 512 hserver hclient
  exact ⟨hs, s, hc, c, hserver, hlen, (hquiet hwait hstop).1, (hquiet hwait hstop).2 htail,
    hclient, hlen', (hquiet' hwait' hstop').1, (hquiet' hwait' hstop').2 htail'⟩

/-- After `stop` has returned, a delayed wakeup that captured the system is waiting. -/
theorem stop_leaves_wakeup :
    (∃ h c, (Server.system 512).Run h c ∧ c.shared.Stopped ∧ c.shared.api = .idle ∧
      c.shared.mPendingFlushWakeups = 1 ∧ c.threads = [.pump (.wakeup Server.guards.entry)]) ∧
    (∃ h c, Client.system.Run h c ∧ c.shared.Stopped ∧ c.shared.api = .idle ∧
      c.shared.mPendingDelayedWakeups = 1 ∧ c.threads = [.wakeup Client.guards.entry]) :=
  ⟨Server.stop_misses_wakeup, Client.stop_misses_wakeup⟩

end SculkProtocol
