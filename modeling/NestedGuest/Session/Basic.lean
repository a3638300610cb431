/-
The session of one guest: its configuration and identity, its memory with the quota, the nested page table that follows
the memory, the storage of the page table, and its vCPUs.
-/
import NestedGuest.Memory.GuestMemory
import NestedGuest.Paging.PageTable
import NestedGuest.Session.Config
import NestedGuest.Session.Virt
import NestedGuest.Vcpu

namespace NestedGuest

structure Session where
  config : Config
  identity : VmIdentity
  /-- guest memory, which also keeps the quota of the whole session -/
  memory : GuestMemory
  table : PageTable
  /-- the RAM of the page table -/
  store : RamStore
  /-- in the order of their creation -/
  vcpus : List Vcpu

namespace Session

/-! ## Parts -/

def quota (s : Session) : Quota := s.memory.quota

def withQuota (s : Session) (quota : Quota) : Session := { s with memory := { s.memory with quota } }

/-- the extension that the session's page table is made for -/
def virt (s : Session) : Virt := .ofFormat s.table.format

/-- resolves a guest-physical address as the processor does -/
def lookup (s : Session) (guest : UInt64) : Option Translation := s.table.lookup guest

/-- the vCPU that `cap` names -/
def vcpu? (s : Session) (cap : VcpuCap) : Option Vcpu := s.vcpus.find? fun v => v.cap == cap

/-- replaces the first vCPU that has the capability of `v` -/
def setVcpu (v : Vcpu) : List Vcpu → List Vcpu
  | [] => []
  | w :: rest => if w.cap = v.cap then v :: rest else w :: setVcpu v rest

/-! ## Diagnostic text -/

def describe (s : Session) : String :=
  Text.tuple s.virt.title
    [Text.openRecord "VmSession"
      [("identity", Text.record "VmIdentity"
          [("id", toString s.identity.id), ("page_table_root", toString s.identity.pageTableRoot.toNat)]),
        ("label", Text.quote s.config.label), ("memory", s.memory.describe), ("table", s.table.describe),
        ("vcpus", Text.list (s.vcpus.map Vcpu.describe))]]

end Session
end NestedGuest
