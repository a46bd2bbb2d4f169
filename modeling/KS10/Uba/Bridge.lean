import KS10.Uba.Interrupt

/-!
# The adapter between its devices and the backplane

A Unibus adapter has four devices.  As targets they answer the cycles that the
backplane brings to the adapter, and as masters they request cycles of the memory.
For both they have one address bus and one data bus, which the adapter selects, and
the addresses go through a page table on their way to the memory.
-/

namespace KS10

open Clocked

/-- What the four devices of an adapter drive at one clock. -/
structure Devices where
  devReqI : Fin 4 → Bool
  devAckI : Fin 4 → Bool
  devIntr : Fin 4 → Level
  devAddrI : Fin 4 → BitVec 36
  devDataI : Fin 4 → BitVec 36

/-- The page table of the adapter. -/
abbrev PageRam := BitVec 6 → BitVec 15

namespace Uba

/-! ## Responses to a WRU cycle -/

def wruUba0 : BitVec 36 := 0o400000
def wruUba1 : BitVec 36 := 0o200000
def wruUba2 : BitVec 36 := 0o100000
def wruUba3 : BitVec 36 := 0o040000
def wruUba4 : BitVec 36 := 0o020000
def wruNull : BitVec 36 := 0o000000

def getWru (ubaNum : BitVec 4) : BitVec 36 :=
  if ubaNum == 0 then wruUba0
  else if ubaNum == 1 then wruUba1
  else if ubaNum == 2 then wruUba2
  else if ubaNum == 3 then wruUba3
  else if ubaNum == 4 then wruUba4
  else wruNull

/-! ## The adapter's own registers -/

def pageAddr (c : Conf) : BitVec 18 := c.ubaAddr + 0o000
def statAddr (c : Conf) : BitVec 18 := c.ubaAddr + 0o100

def pageRead (c : Conf) (addr : BitVec 36) : Bool :=
  Bus.busRead addr && addressed c addr
    && field (Bus.busIoAddr addr) 0 11 == field (pageAddr c) 0 11

def statRead (c : Conf) (addr : BitVec 36) : Bool :=
  Bus.busRead addr && addressed c addr && Bus.busIoAddr addr == statAddr c

/-! ## The page table -/

def pageDataO (ram : PageRam) (addr : BitVec 36) : BitVec 36 :=
  let entry := ram (field addr 30 35)
  0#5 ++ field entry 0 3 ++ 0#7 ++ field entry 4 14 ++ 0#9

/-- The address of the memory for the address of a device. -/
def paged (ram : PageRam) (addr : BitVec 36) : BitVec 36 :=
  field addr 0 15 ++ field (ram (field addr 19 24)) 4 14 ++ field addr 25 33

/-! ## The devices as masters -/

def busReqO (d : Devices) : Bool := d.devReqI 0 || d.devReqI 1 || d.devReqI 2 || d.devReqI 3

/-- The device acknowledge selector. -/
def devAckO (d : Devices) (busAckI : Bool) (n : Fin 4) : Bool :=
  if d.devReqI 0 then n == 0 && busAckI
  else if d.devReqI 1 then n == 1 && busAckI
  else if d.devReqI 2 then n == 2 && busAckI
  else if d.devReqI 3 then n == 3 && busAckI
  else false

/-- The adapter answers no query for the interrupting devices at its own addresses. -/
theorem wruRead_of_addressed {c : Conf} {addr : BitVec 36} (h : addressed c addr = true) :
    wruRead addr = false := by
  have hbit : Bus.busWru addr = false := by
    unfold addressed at h
    simp only [Bool.and_eq_true, Bool.not_eq_true'] at h
    exact h.1.1.2
  unfold wruRead
  rw [hbit]
  simp

/-! ## The device arbiter -/

/-- The bus of the first device that is a target or a master. -/
def devMux (d : Devices) (busReqI : Bool) (lines : Fin 4 → BitVec 36) : BitVec 36 :=
  if (busReqI && d.devAckI 0) || d.devReqI 0 then lines 0
  else if (busReqI && d.devAckI 1) || d.devReqI 1 then lines 1
  else if (busReqI && d.devAckI 2) || d.devReqI 2 then lines 2
  else if (busReqI && d.devAckI 3) || d.devReqI 3 then lines 3
  else 0

def devAddr (d : Devices) (busReqI : Bool) (addr : BitVec 36) : BitVec 36 :=
  if busReqI && Bus.busVect addr then 0 else devMux d busReqI d.devAddrI

def devData (d : Devices) (busReqI : Bool) (addr : BitVec 36) : BitVec 36 :=
  if busReqI && Bus.busVect addr then UbaIntr.vectorData d.devIntr d.devDataI
  else devMux d busReqI d.devDataI

/-! ## The backplane -/

def busAddrO (ram : PageRam) (d : Devices) (busReqI : Bool) (addr : BitVec 36) : BitVec 36 :=
  paged ram (devAddr d busReqI addr)

def busDataO (c : Conf) (ram : PageRam) (regUbaSr : BitVec 36) (d : Devices) (busReqI : Bool)
    (addr : BitVec 36) : BitVec 36 :=
  if wruRead addr then getWru c.ubaNum
  else if statRead c addr then regUbaSr
  else if pageRead c addr then pageDataO ram addr
  else devData d busReqI addr

/-- The inputs of the adapter's timer. -/
def nxdIn (c : Conf) (r : Regs) (d : Devices) (busReqI : Bool) (addr : BitVec 36) :
    UbaNxd.In where
  rst := false
  busReqI := busReqI
  ubaReq := ubaReq c r addr
  ubaAck := ubaReq c r addr
  devReq := devReq c r addr
  devAck := d.devAckI 0 || d.devAckI 1 || d.devAckI 2 || d.devAckI 3
  wruReq := wruRead addr
  wruAck := wruAck r addr

end Uba

end KS10
