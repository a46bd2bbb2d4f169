import KS10.Cpu.Microword
import KS10.Clocked.Run
import Mathlib.Logic.Function.Basic

/-!
# The VMA register, the pager and the page fail logic

The modules VMA, PAGER, DISP_PF and BUS of the processor are one synchronous
machine: they load under the datapath clock enable and see the same microword.
`Mmu` collects their registers.

The page table is read when the VMA register is loaded, from the address on the
datapath, and the entry is kept in the translation registers `pageFlags` and
`pageAddr`.  The VMA register and the lookup have separate enables, `Mmu.vmaEn`
and `Mmu.pagerVmaEn`.

Page table writes happen one clock after the microword that asks for them, at the
address in the VMA register, with the data then on the datapath.  A sweep clears
the two entries of an even-odd pair.  The debug output of the VMA module is left
out.
-/

namespace KS10

open Clocked Microword DromWord

/-! ## The VMA register -/

structure VmaReg where
  user : Bool
  exec : Bool
  fetch : Bool
  read : Bool
  wrTest : Bool
  write : Bool
  extd : Bool
  cacheInh : Bool
  phys : Bool
  prev : Bool
  io : Bool
  wru : Bool
  vect : Bool
  ioByte : Bool
  /-- Bits 14 to 35. -/
  addr : BitVec 22
  deriving DecidableEq

namespace VmaReg

def zero : VmaReg where
  user := false
  exec := false
  fetch := false
  read := false
  wrTest := false
  write := false
  extd := false
  cacheInh := false
  phys := false
  prev := false
  io := false
  wru := false
  vect := false
  ioByte := false
  addr := 0

/-- Bits 0 to 13. -/
def flags (vma : VmaReg) : BitVec 14 :=
  BitVec.ofBoolListBE [vma.user, vma.exec, vma.fetch, vma.read, vma.wrTest, vma.write,
    vma.extd, vma.cacheInh, vma.phys, vma.prev, vma.io, vma.wru, vma.vect, vma.ioByte]

/-- The ACs are never physically addressed. -/
def acRef (vma : VmaReg) : Bool := !vma.phys && field vma.addr 4 17 == 0

/-- The page table index of the VMA register: the odd-even bit comes last. -/
def page (vma : VmaReg) : BitVec 9 := field vma.addr 5 12 ++ field vma.addr 4 4

end VmaReg

/-- The page table index of an address on the datapath. -/
def dpPage (dp : BitVec 36) : BitVec 9 := field dp 19 26 ++ field dp 18 18

/-- The two entries of an even-odd pair share the upper eight bits of the index. -/
def samePair (p q : BitVec 9) : Bool := field p 0 7 == field q 0 7

/-! ## Inputs and registers -/

/-- The inputs of the four modules at one clock. -/
structure Mmu.In where
  rst : Bool
  clken : Bool
  crom : Microword
  drom : DromWord
  dp : BitVec 36
  cpuExec : Bool
  prevEn : Bool
  pcFlags : BitVec 18
  /-- Bits 22 to 35 of the APR flags. -/
  aprFlags : BitVec 14
  timerIntr : Bool
  piIntr : Bool
  nxmIntr : Bool
  piCurPri : BitVec 3
  deriving Inhabited

structure Mmu where
  vmaReg : VmaReg
  pageWrite : Bool
  pageSweep : Bool
  pageTable : BitVec 9 → BitVec 15
  pageFlags : BitVec 4
  pageAddr : BitVec 11
  pfEn : Bool
  intrEn : Bool
  dispPf : BitVec 4
  addr3666 : Bool

namespace Mmu

/-! ## Page failures -/

/-- The start of a memory or IO cycle. -/
def memEn (i : In) : Bool :=
  (cromMemCycle i.crom && cromMemWait i.crom)
    || (cromMemCycle i.crom && cromMemBwrite i.crom && dromCondFunc i.drom)

/-- Asserted on the microword before the bus cycle. -/
def pfCycle (i : In) : Bool :=
  if memEn i then
    if cromMemAread i.crom then
      dromReadCycle i.drom || dromWrTestCycle i.drom || dromWriteCycle i.drom
    else if cromMemDpFunc i.crom then bit i.dp 3 || bit i.dp 4 || bit i.dp 5
    else cromMemReadCycle i.crom || cromMemWrTestCycle i.crom || cromMemWriteCycle i.crom
  else false

def fetchCycle (i : In) : Bool := cromJ i.crom == 0o0110

def pageEnable (i : In) : Bool := bit i.aprFlags 1

/-- The reference is translated: paging is enabled, the address is virtual and does
not name an AC. -/
def translated (s : Mmu) (i : In) : Bool :=
  pageEnable i && !s.vmaReg.phys && !s.vmaReg.acRef

def pageInvalid (s : Mmu) (i : In) : Bool := s.translated i && !bit s.pageFlags 0

def pageMismatch (s : Mmu) (i : In) : Bool :=
  s.translated i && (s.vmaReg.user != bit s.pageFlags 3)

def pageWriteFail (s : Mmu) (i : In) : Bool :=
  s.translated i && s.vmaReg.wrTest && !bit s.pageFlags 1

/-- The page fail dispatch, when there is a page failure. -/
def dispatch (s : Mmu) (i : In) : Option (BitVec 4) :=
  if s.intrEn && i.nxmIntr then some 0o05
  else if s.intrEn && i.piIntr then some 0o01
  else if s.intrEn && i.timerIntr && s.pageInvalid i then some 0o11
  else if s.intrEn && i.timerIntr then some 0o01
  else if s.pfEn && s.pageInvalid i then some 0o12
  else if s.pfEn && s.pageMismatch i then some 0o13
  else if s.pfEn && s.pageWriteFail i then some 0o10
  else none

def pageFail (s : Mmu) (i : In) : Bool := (s.dispatch i).isSome

/-! ## Loads of the VMA register -/

def cacheSweep (i : In) : Bool := spec20 i.crom 0b100

def selPrevious (i : In) : Bool := spec20 i.crom 0b000

/-- The enable of the VMA register. -/
def vmaEn (i : In) : Bool :=
  (cromMemCycle i.crom && cromMemLoadVma i.crom)
    || (cromMemCycle i.crom && cromMemAread i.crom && dromVma i.drom)
    || cacheSweep i

/-- The enable of the page lookup. -/
def pagerVmaEn (i : In) : Bool :=
  (cromMemCycle i.crom && cromMemLoadVma i.crom)
    || (cromMemCycle i.crom && cromMemAread i.crom && dromVma i.drom)

def loadUser (i : In) : Bool :=
  (!cromMemForceExec i.crom && bit i.pcFlags 5 && !i.cpuExec)
    || (cromMemFetchCycle i.crom && bit i.pcFlags 5)
    || (i.prevEn && bit i.pcFlags 6)
    || (selPrevious i && bit i.pcFlags 6)
    || cromMemForceUser i.crom

/-- The address and its flags, from the datapath and from the microword. -/
def loadVma (vma : VmaReg) (i : In) : VmaReg :=
  if cromMemDpFunc i.crom then
    { vma with
      extd := cromMemExtAddr i.crom
      addr := field i.dp 14 35
      user := bit i.dp 0
      fetch := bit i.dp 2
      phys := bit i.dp 8
      prev := bit i.dp 9
      io := bit i.dp 10
      wru := bit i.dp 11
      vect := bit i.dp 12
      ioByte := bit i.dp 13 }
  else
    { vma with
      extd := cromMemExtAddr i.crom
      addr := field i.dp 14 35
      user := loadUser i
      fetch := cromMemFetchCycle i.crom
      phys := cromMemPhysical i.crom
      prev := i.prevEn || selPrevious i
      io := false
      wru := false
      vect := false
      ioByte := false }

/-- The cycle control flags. -/
def loadMem (vma : VmaReg) (i : In) : VmaReg :=
  if cromMemAread i.crom then
    { vma with
      read := dromReadCycle i.drom
      wrTest := dromWrTestCycle i.drom
      write := dromWriteCycle i.drom
      cacheInh := false }
  else if cromMemDpFunc i.crom then
    { vma with
      read := bit i.dp 3
      wrTest := bit i.dp 4
      write := bit i.dp 5
      cacheInh := bit i.dp 7 }
  else
    { vma with
      read := cromMemReadCycle i.crom
      wrTest := cromMemWrTestCycle i.crom
      write := cromMemWriteCycle i.crom
      cacheInh := cromMemCacheInh i.crom }

/-- The VMA register is loaded at this clock. -/
def loads (s : Mmu) (i : In) : Bool := i.clken && vmaEn i && !s.pageFail i

def nextVma (s : Mmu) (i : In) : VmaReg :=
  if i.rst then VmaReg.zero
  else
    let vma := if s.loads i then loadVma s.vmaReg i else s.vmaReg
    if i.clken && memEn i && !s.pageFail i then loadMem vma i else vma

/-! ## The page table -/

def specPageSweep (i : In) : Bool := spec20 i.crom 0b100

def specPageWrite (i : In) : Bool := spec10 i.crom 0b100

/-- The page table entry on the datapath. -/
def writeData (s : Mmu) (i : In) : BitVec 15 :=
  BitVec.ofBoolListBE [bit i.dp 18, bit i.dp 21, bit i.dp 22, s.vmaReg.user]
    ++ field i.dp 25 35

/-- The page table is written at this clock.  The asynchronous reset clears the
write flag at once. -/
def writesTable (s : Mmu) (i : In) : Bool := i.clken && s.pageWrite && !i.rst

def nextTable (s : Mmu) (i : In) : BitVec 9 → BitVec 15 :=
  if s.writesTable i then
    if s.pageSweep then
      fun p => if samePair p s.vmaReg.page then 0 else s.pageTable p
    else Function.update s.pageTable s.vmaReg.page (s.writeData i)
  else s.pageTable

/-- The page table is looked up at this clock. -/
def looksUp (i : In) : Bool := i.clken && pagerVmaEn i

/-- The entry that the translation registers hold. -/
def entry (s : Mmu) : BitVec 15 := s.pageFlags ++ s.pageAddr

def nextEntry (s : Mmu) (i : In) : BitVec 15 :=
  if looksUp i then s.pageTable (dpPage i.dp) else s.entry

/-! ## The bus -/

/-- Bus request output.  AC references make no bus requests. -/
def cpuReqO (s : Mmu) : Bool :=
  (s.vmaReg.read && !s.vmaReg.acRef)
    || (s.vmaReg.write && !s.vmaReg.acRef)
    || (s.vmaReg.wrTest && !s.vmaReg.acRef)
    || s.vmaReg.vect
    || (s.vmaReg.wru && !s.addr3666)

def pagedRef (s : Mmu) (i : In) : Bool := !s.vmaReg.phys && pageEnable i

/-- Address output. -/
def cpuAddrO (s : Mmu) (i : In) : BitVec 36 :=
  if s.pagedRef i then
    s.vmaReg.flags ++ field s.vmaReg.addr 0 1 ++ s.pageAddr ++ field s.vmaReg.addr 13 21
  else if s.vmaReg.wru then
    s.vmaReg.flags ++ 0#1 ++ i.piCurPri ++ field s.vmaReg.addr 4 21
  else if s.vmaReg.extd then s.vmaReg.flags ++ s.vmaReg.addr
  else s.vmaReg.flags ++ 0#4 ++ field s.vmaReg.addr 4 21

/-! ## One clock -/

def nextPfEn (s : Mmu) (i : In) : Bool :=
  if i.rst then false
  else if i.clken then
    if !s.pfEn then pfCycle i else false
  else s.pfEn

def nextIntrEn (s : Mmu) (i : In) : Bool :=
  if i.rst then false
  else if i.clken then fetchCycle i
  else s.intrEn

def specMemClr (i : In) : Bool := spec20 i.crom 0b111

def nextDispPf (s : Mmu) (i : In) : BitVec 4 :=
  if i.rst then 0
  else if i.clken then
    match s.dispatch i with
    | some d => d
    | none => if specMemClr i then 0 else s.dispPf
  else s.dispPf

/-- One clock of the four modules. -/
def next (s : Mmu) (i : In) : Mmu where
  vmaReg := s.nextVma i
  pageWrite := if i.rst then false else if i.clken then specPageWrite i else s.pageWrite
  pageSweep := if i.rst then false else if i.clken then specPageSweep i else s.pageSweep
  pageTable := s.nextTable i
  pageFlags := field (s.nextEntry i) 0 3
  pageAddr := field (s.nextEntry i) 4 14
  pfEn := s.nextPfEn i
  intrEn := s.nextIntrEn i
  dispPf := s.nextDispPf i
  addr3666 := if i.rst then false else cromJ i.crom == 0o3726

end Mmu

end KS10
