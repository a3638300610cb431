/-
A bench that runs sessions by script on a simulated host.

A step sets up the host, creates a session, or lets the client of a session act. Clients name their vCPUs by the number
of the request that created them. After each step the journal holds what was observed while it ran.
-/
import NestedGuest.Bench.Host
import NestedGuest.Session.Fleet

namespace NestedGuest.Bench

/-- how a step names a vCPU: by the number of the request that created it, or by a capability -/
inductive VcpuName where
  | nth (i : Nat)
  | cap (c : VcpuCap)

/-- a step that sets up the host -/
inductive Setup where
  | addDataspace (cap : DataspaceCap) (size phys : UInt64) (managed writeable : Bool)
  | dropDataspace (cap : DataspaceCap)
  | affinity (thread : ThreadCap) (location : Affinity)
  | refuseRam (pool : RamPool) (e : AllocError)
  | refuseLocal (e : RegionMapError)
  | exhaust (on : Bool)
  | kernelRefuses (on : Bool)

/-- what a client does with its session -/
inductive Action where
  | request (r : Request)
  | exceptionHandler (vcpu : VcpuName) (signal : SignalCap)
  | close

structure State where
  world : World Host
  fleet : Fleet
  /-- for each session what its requests for vCPUs returned, invalid capabilities included -/
  vcpus : List (List VcpuCap)

/-- changes the host -/
def Setup.apply (h : Host) : Setup → Host
  | .addDataspace cap size phys managed writeable => h.addDataspace cap size phys managed writeable
  | .dropDataspace cap => h.dropDataspace cap
  | .affinity thread location => h.setAffinity thread location
  | .refuseRam pool e => h.withPool pool { h.pool pool with refusal := some e }
  | .refuseLocal e => { h with localRefusal := some e }
  | .exhaust on => { h with exhausted := on }
  | .kernelRefuses on => { h with kernelRefuses := on }

namespace State

/-- nothing was created yet -/
def new (host : Host) : State := ⟨⟨host, .new, []⟩, .new, []⟩

/-- runs an operation; the journal then holds what this one observed -/
def run {α : Type} (s : State) (act : Run Host α) : α × State :=
  let (a, world) := act { s.world with journal := [] }
  (a, { s with world })

/-- what was observed in the last step, oldest first -/
def observed (s : State) : List Note := s.world.journal.reverse

def setUp (s : State) (step : Setup) : State :=
  (s.run fun w => ((), { w with host := step.apply w.host })).2

/-- Creates a session from arguments, or from the configuration that they give once it is changed. -/
def create (s : State) (virt : Option Virt) (args : String) (changes : Option Config.Changes) : FleetReply × State :=
  let ((reply, fleet), s) := s.run do
    match changes with
    | none => s.fleet.perform Host.platform (.create virt args)
    | some ch =>
      match ← Config.ofArgsTraced args with
      | .error e => return (.refused e, s.fleet)
      | .ok config => s.fleet.perform Host.platform (.createWith virt (← config.applyTraced ch))
  let vcpus := match reply with
    | .created _ => s.vcpus ++ [[]]
    | _ => s.vcpus
  (reply, { s with fleet, vcpus })

/-- the capability that a client of session `i` means; a number out of range means none -/
def vcpuCap (s : State) (i : Nat) : VcpuName → VcpuCap
  | .nth k => ((s.vcpus[i]?.getD [])[k]?).getD .invalid
  | .cap c => c

/-- lets the client of session `i` act -/
def act (s : State) (i : Nat) (a : Action) : FleetReply × State :=
  let request : FleetRequest := match a with
    | .request r => .serve i r
    | .exceptionHandler vcpu signal => .serve i (.exceptionHandler (s.vcpuCap i vcpu) signal)
    | .close => .close i
  let ((reply, fleet), s) := s.run (s.fleet.perform Host.platform request)
  let vcpus := match reply with
    | .served (.vcpu cap) => s.vcpus.modify i (· ++ [cap])
    | _ => s.vcpus
  (reply, { s with fleet, vcpus })

/-- ends all sessions in the order of their creation -/
def closeAll (s : State) : State :=
  let (fleet, s) := s.run (s.fleet.closeAll Host.platform)
  { s with fleet }

/-- diagnostic text of what creates sessions -/
def describeRoot (s : State) (virt : Option Virt) : String :=
  Text.record "VmRoot"
    [("platform", Text.openRecord "Platform" []), ("vmids", s.world.vmids.describe),
      ("virt", Text.option (virt.map Virt.title))]

end State
end NestedGuest.Bench
