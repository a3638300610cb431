/-
A simulated host: surroundings for sessions that are wholly determined by what was set up before.

All capabilities come from one counter. RAM is handed out by moving a pointer and never reused, and so are local
addresses. Single calls can be told to fail.
-/
import NestedGuest.Platform

namespace NestedGuest.Bench

/-- one pool of RAM -/
structure Pool where
  /-- where the next allocation begins -/
  next : UInt64
  /-- the error of the next allocation -/
  refusal : Option AllocError := none

structure Host where
  nextCap : UInt64 := 0x1000
  sessionRam : Pool
  coreRam : Pool
  nextLocal : UInt64 := 0xa0000000
  /-- the error of the next attachment to the local address space -/
  localRefusal : Option RegionMapError := none
  /-- the dataspaces that exist -/
  dataspaces : List Dataspace := []
  nextHandle : Nat := 0
  affinities : List (ThreadCap × Affinity) := []
  /-- there are no capabilities left for vCPUs -/
  exhausted : Bool := false
  /-- the kernel creates no vCPU objects -/
  kernelRefuses : Bool := false

namespace Host

/-- a host whose pools begin at the given addresses -/
def new (sessionRam coreRam : UInt64) : Host := { sessionRam := ⟨sessionRam, none⟩, coreRam := ⟨coreRam, none⟩ }

def pool (h : Host) : RamPool → Pool
  | .session => h.sessionRam
  | .core => h.coreRam

def withPool (h : Host) (which : RamPool) (p : Pool) : Host :=
  match which with
  | .session => { h with sessionRam := p }
  | .core => { h with coreRam := p }

/-! ## Dataspaces -/

def dataspace? (h : Host) (cap : DataspaceCap) : Option Dataspace := h.dataspaces.find? fun ds => ds.cap == cap

/-- drops the dataspace that `cap` names -/
def dropDataspace (h : Host) (cap : DataspaceCap) : Host :=
  { h with dataspaces := h.dataspaces.filter fun ds => ds.cap != cap }

/-- creates a dataspace, in place of one that had the same capability -/
def addDataspace (h : Host) (cap : DataspaceCap) (size phys : UInt64) (managed writeable : Bool) : Host :=
  let h := h.dropDataspace cap
  { h with
    dataspaces := ⟨h.nextHandle, cap, size, phys, managed, writeable⟩ :: h.dataspaces
    nextHandle := h.nextHandle + 1 }

def alive (h : Host) (ds : Dataspace) : Bool := h.dataspaces.any fun d => d.handle == ds.handle

/-- from now on `thread` runs at `location` -/
def setAffinity (h : Host) (thread : ThreadCap) (location : Affinity) : Host :=
  { h with affinities := (thread, location) :: h.affinities }

/-! ## Answers -/

/-- a new capability -/
def newCap {kind : ObjectKind} (h : Host) : Capability kind × Host :=
  (⟨h.nextCap⟩, { h with nextCap := h.nextCap + 1 })

def allocRam (h : Host) (which : RamPool) (size : UInt64) : Except AllocError RamDataspace × Host :=
  let p := h.pool which
  match p.refusal with
  | some e => (.error e, h.withPool which { p with refusal := none })
  | none =>
    let (cap, h) := h.newCap
    (.ok ⟨cap, size, p.next⟩, h.withPool which { p with next := p.next + size })

def attachLocal (h : Host) (attr : AttachAttr) : Except RegionMapError UInt64 × Host :=
  match h.localRefusal with
  | some e => (.error e, { h with localRefusal := none })
  | none => (.ok h.nextLocal, { h with nextLocal := h.nextLocal + attr.size })

def answer : (c : Call) → Host → c.Answer × Host
  | .lookupDataspace cap, h => (h.dataspace? cap, h)
  | .attachedTo _ _, h => ((), h)
  | .detachedFrom _ _, h => ((), h)
  | .threadAffinity thread, h => ((h.affinities.find? fun a => a.1 == thread).map Prod.snd, h)
  | .manageVcpu, h => if h.exhausted then (.invalid, h) else h.newCap
  | .dissolveVcpu _, h => ((), h)
  | .allocRam which size _, h => h.allocRam which size
  | .freeRam _ _, h => ((), h)
  | .attachLocal _ attr, h => h.attachLocal attr
  | .detachLocal _, h => ((), h)
  | .createKernelVcpu _ _ _ _, h =>
    if h.kernelRefuses then (none, h)
    else
      let (cap, h) := h.newCap
      (some cap, h)
  | .destroyKernelVcpu _, h => ((), h)

/-- the host as surroundings of sessions -/
def platform : Platform Host := ⟨answer, fun ds h => h.alive ds⟩

end Host

end NestedGuest.Bench
