/-
The vCPUs of a session: creating one takes quota, a page of RAM for its state, a place for it in the local address
space and a capability. Whatever step fails, the steps before it are undone and nothing stays allocated.
-/
import NestedGuest.Session.Basic

namespace NestedGuest

variable {σ : Type}

namespace Session

/-- how the state of a vCPU is attached to the local address space -/
def stateAttr (state : RamDataspace) : AttachAttr := ⟨0, state.size, true, false⟩

/-- creates a vCPU where `thread` runs, or at the default location -/
def tryCreateVcpu (P : Platform σ) (s : Session) (thread : ThreadCap) :
    Run σ (Except SessionError VcpuCap × Session) := do
  if vcpuMax ≤ s.vcpus.length then
    return (.error (.other ("limit of " ++ toString vcpuMax ++ " vCPUs reached")), s)
  match s.quota.withdraw vcpuDataSize 0 with
  | .error e => return (.error (.ofAlloc e), s)
  | .ok charged =>
    let location := (← ask P (.threadAffinity thread)).getD {}
    match ← charged.allocRam P .session (UInt64.ofNat vcpuStateSize) .uncached with
    | (.error e, q) => return (.error (.ofAlloc e), s.withQuota (q.replenish vcpuDataSize 0))
    | (.ok state, q) =>
      match ← ask P (.attachLocal state.cap (stateAttr state)) with
      | .error e =>
        let q ← q.freeRam P .session state
        return (.error (.ofRegionMap e), s.withQuota (q.replenish vcpuDataSize 0))
      | .ok stateAddr =>
        let cap ← ask P .manageVcpu
        if cap.isValid then
          let v : Vcpu := ⟨s.identity, cap, state, stateAddr, location, none⟩
          return (.ok cap, { s.withQuota q with vcpus := s.vcpus ++ [v] })
        else
          ask P (.detachLocal stateAddr)
          let q ← q.freeRam P .session state
          return (.error .outOfCaps, s.withQuota (q.replenish vcpuDataSize 0))

/-- creates a vCPU; the capability is invalid, and the reason logged, if that fails -/
def createVcpu (P : Platform σ) (s : Session) (thread : ThreadCap) : Run σ (VcpuCap × Session) :=
  spanned "create_vcpu" do
    match ← s.tryCreateVcpu P thread with
    | (.ok cap, s) =>
      count "vcpus_created_total"
      return (cap, s)
    | (.error e, s) =>
      log .warn ("cannot create vCPU for VM " ++ toString s.identity.id ++ ": " ++ e.message)
      return (.invalid, s)

/-- registers an exception handler for the vCPU that `cap` names, if there is one; returns its kernel object -/
def exceptionHandler (P : Platform σ) (s : Session) (cap : VcpuCap) (signal : SignalCap) :
    Run σ (Option (Option KernelVcpuCap) × Session) :=
  match s.vcpu? cap with
  | none => return (none, s)
  | some v => do
    let v ← v.exceptionHandler P signal
    return (some v.kernelObject, { s with vcpus := setVcpu v s.vcpus })

end Session
end NestedGuest
