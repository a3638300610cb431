/-
The life of a session: creation from arguments or from a configuration, raising its quota, and its end.

At the end regions are detached in ascending order, then the vCPUs are closed in the order of their creation, then the
storage of the page table goes back, and the identity last of all, so that it is never reused too early.
-/
import NestedGuest.Session.Memory
import NestedGuest.Session.Processors

namespace NestedGuest

variable {σ : Type}

namespace Config

/-- reads a configuration where a tracer watches -/
def ofArgsTraced (args : String) : Run σ (Except SessionError Config) :=
  traced "from_args" (failureText SessionError.describe) do
    observe (.span "default")
    let (setters, r) := read args
    setters.forM fun name => observe (.span name)
    return r

/-- changes a configuration where a tracer watches -/
def applyTraced (c : Config) (ch : Changes) : Run σ Config := do
  ch.setters.forM fun name => observe (.span name)
  return c.apply ch

end Config

namespace Session

/-! ## Creation -/

/-- a session whose page table is charged to the quota that `config` donates -/
def new (P : Platform σ) (virt : Virt) (config : Config) : Run σ (Except SessionError Session) :=
  traced "new" (failureText SessionError.describe) do
    let quota := Quota.new config.ramQuota.toNat config.capQuota.toNat
    match ← RamStore.alloc P .core quota (UInt64.ofNat tableStorageSize) with
    | (.error e, _) => return .error (.ofAlloc e)
    | (.ok store, quota) =>
      match ← allocVmid with
      | .error e =>
        let _ ← store.release P quota
        return .error e
      | .ok id =>
        let table := PageTable.new virt.format store.phys
        return .ok
          { config, identity := ⟨id, table.rootPhys⟩, memory := .new quota, table, store, vcpus := [] }

/-- creates a session for the extension `virt`; without one the service is denied -/
def createWith (P : Platform σ) (virt : Option Virt) (config : Config) : Run σ (Except SessionError Session) :=
  traced "create_session_with_config" (failureText SessionError.describe) do
    match virt with
    | none =>
      log .error SessionError.serviceDenied.message
      return .error .serviceDenied
    | some v =>
      match ← new P v config with
      | .error e => return .error e
      | .ok s =>
        count ("vm_sessions_created_total virt=" ++ v.name)
        return .ok s

/-- creates a session from session arguments -/
def create (P : Platform σ) (virt : Option Virt) (args : String) : Run σ (Except SessionError Session) :=
  traced "create_session" (failureText SessionError.describe) do
    match ← Config.ofArgsTraced args with
    | .error e => return .error e
    | .ok config => createWith P virt config

/-! ## Raising the quota -/

/-- raises both limits -/
def raise (s : Session) (ram caps : UInt64) : Run σ Session :=
  spanned "upgrade" (return s.withQuota (s.quota.upgrade ram.toNat caps.toNat))

/-- raises the limits by what session arguments give -/
def upgrade (s : Session) (args : String) : Run σ (Except SessionError Unit × Session) :=
  traced "upgrade_session" (fun r => failureText SessionError.describe r.1) do
    match Args.unsigned args "ram_quota" 0 with
    | .error e => return (.error e, s)
    | .ok ram =>
      match Args.unsigned args "cap_quota" 0 with
      | .error e => return (.error e, s)
      | .ok caps =>
        let s ← s.raise ram caps
        return (.ok (), s)

/-! ## The end -/

/-- ends the session and returns what is left of its books: all charges should be gone -/
def close (P : Platform σ) (s : Session) : Run σ Session := do
  let (memory, flushes) := s.memory.detachAll
  let s ← s.settle P memory flushes
  let quota ← s.vcpus.foldlM (Vcpu.close P) s.quota
  let (store, quota) ← s.store.release P quota
  freeVmid s.identity.id
  return { s.withQuota quota with vcpus := [], store }

end Session
end NestedGuest
