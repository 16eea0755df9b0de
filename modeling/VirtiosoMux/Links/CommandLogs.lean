import VirtiosoMux.Links.ExecUplink
import VirtiosoMux.Links.MuxdUplink
import VirtiosoMux.Muxd.WireIds

/-! # From the commands to the logs of the host

What the sink of the daemon has taken is a wire that the host takes apart exactly. So the log of a
stream is its sessions, one after the other.
-/
namespace VirtiosoMux.CommandLogs
open Muxd (Daemon Frame Bracket)
open MuxdUplink Host ExecUplink

theorem selectable {names : Nat → Bytes} {as : List Act} {s : World} (hr : RunsTo names as s) :
    ∀ p ∈ s.daemon.channel, p.2.id = 0 ∨ ¬ Reserved p.2.id := by
  have hgood : Muxd.IdsGood (fun id => id = 0 ∨ ¬ Reserved id) s.daemon := by
    refine daemon_invariant (fun d a d' h hs => h.step ?_ hs) (Muxd.IdsGood.start _) hr
    exact fun _ _ _ _ halloc => Muxd.alloc_selectable h.sound halloc
  exact hgood.sent

/-- The names of the built-in entries and of the announced streams lead to files of their own. -/
def NamesApart (workingDirectory : List Bytes) (dir : Bytes) (items : List WireItem) : Prop :=
  ((builtins ++ streams items).map (fun s => logPath workingDirectory dir s.2)).Nodup

instance (workingDirectory : List Bytes) (dir : Bytes) (items : List WireItem) :
    Decidable (NamesApart workingDirectory dir items) :=
  inferInstanceAs (Decidable (List.Nodup _))

end VirtiosoMux.CommandLogs
