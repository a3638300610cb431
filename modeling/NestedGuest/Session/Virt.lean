/-
The virtualization extensions of processors, and the page-table format that each one walks.
-/
import NestedGuest.Paging.Entry

namespace NestedGuest

inductive Virt where
  /-- VT-x -/
  | vmx
  /-- AMD-V -/
  | svm
deriving DecidableEq, Repr

namespace Virt

/-- a short name, also used to count sessions -/
def name : Virt → String
  | .vmx => "vmx"
  | .svm => "svm"

/-- the name in diagnostics -/
def title : Virt → String
  | .vmx => "Vmx"
  | .svm => "Svm"

/-- the format of nested page tables -/
def format : Virt → EntryFormat
  | .vmx => .ept
  | .svm => .hpt

/-- the extension that walks page tables of that format -/
def ofFormat : EntryFormat → Virt
  | .ept => .vmx
  | .hpt => .svm

end Virt
end NestedGuest
