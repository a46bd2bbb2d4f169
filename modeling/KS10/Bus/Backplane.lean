import KS10.Bus.Console
import KS10.Bus.Memory

/-!
# The console and the memory on the backplane

CSL, the arbiter and the memory controller, as the KS10 connects them.  The console
microcontroller, the processor and the Unibus adapters are inputs: they may request and drive
whatever they like.  There is no reset.

A memory cycle of the console is done in the clock in which it is requested: the console goes
before all others, and the memory acknowledges at once.  What the others do to a word of the
memory is what they write to it while the console does not request the bus (`OtherWrites`).
-/

namespace KS10

open Clocked

/-! ## The console instruction register -/

namespace Csl

def addrCir : BitVec 18 := 0o200000

/-- The processor reads the console instruction register. -/
def cirRead (busAddrI : BitVec 36) : Bool :=
  Bus.busRead busAddrI && Bus.busIo busAddrI && Bus.busPhys busAddrI && Bus.busDev busAddrI == 0 &&
    Bus.busIoAddr busAddrI == addrCir

/-- The bus data outputs.  They are undefined where the console neither answers nor writes. -/
def busDataO (s : Csl) (busAddrI : BitVec 36) : BitVec 36 :=
  if cirRead busAddrI then s.regCir else s.regData

end Csl

/-! ## The machine -/

/-- The inputs of the console microcontroller, of the processor and of the adapters. -/
structure Backplane.In where
  conWrN : Bool
  conBleN : Bool
  conBheN : Bool
  conAddr : BitVec 8
  conData : BitVec 16
  cpuHalt : Bool
  cpuRun : Bool
  cpuCont : Bool
  cpuExec : Bool
  cpuReqI : Bool
  cpuAddrI : BitVec 36
  cpuDataI : BitVec 36
  ubaReqI : Fin 4 → Bool
  ubaAckI : Fin 4 → Bool
  ubaAddrI : Fin 4 → BitVec 36
  ubaDataI : Fin 4 → BitVec 36

structure Backplane where
  csl : Csl
  mem : Mem

namespace Backplane

variable (s : Backplane) (i : In)

/-- The arbiter before the console and the memory answer. -/
def requested : Arb.In where
  cslReqI := s.csl.busReqO
  ubaReqI := i.ubaReqI
  cpuReqI := i.cpuReqI
  cslAckI := false
  cslAddrI := s.csl.busAddrO
  cslDataI := 0
  cpuAddrI := i.cpuAddrI
  cpuDataI := i.cpuDataI
  ubaAckI := i.ubaAckI
  ubaAddrI := i.ubaAddrI
  ubaDataI := i.ubaDataI
  memAckI := false
  memDataI := 0

/-- The arbiter with the outputs of the console. -/
def driven : Arb.In :=
  { s.requested i with
    cslAckI := Csl.cirRead (Arb.cslAddrO (s.requested i))
    cslDataI := s.csl.busDataO (Arb.cslAddrO (s.requested i)) }

def memIn : Mem.In where
  rst := false
  busAddrI := Arb.memAddrO (s.driven i)
  busDataI := Arb.memDataO (s.driven i)

/-- The arbiter with the answer of the memory. -/
def arb : Arb.In :=
  { s.driven i with
    memAckI := Mem.busAckO (s.memIn i)
    memDataI := s.mem.busDataO (s.memIn i) }

def cslIn : Csl.In where
  rst := false
  conWrN := i.conWrN
  conBleN := i.conBleN
  conBheN := i.conBheN
  conAddr := i.conAddr
  conData := i.conData
  busAckI := Arb.cslAckO (s.arb i)
  busAddrI := Arb.cslAddrO (s.arb i)
  busDataI := Arb.cslDataO (s.arb i)
  cpuHalt := i.cpuHalt
  cpuRun := i.cpuRun
  cpuCont := i.cpuCont
  cpuExec := i.cpuExec

/-- One clock. -/
def next : Backplane where
  csl := s.csl.next (s.cslIn i)
  mem := s.mem.next (s.memIn i)

/-- What the microcontroller reads. -/
def dout : BitVec 16 := s.csl.dout (s.cslIn i)

/-- The processor is in an IO cycle, for which the console waits. -/
def ioBusy : Bool := Bus.busIo (s.cslIn i).busAddrI

/-- Another unit than the console writes the word `x`. -/
def OtherWrites (x : BitVec 20) : Prop :=
  s.csl.busReqO = false ∧ Mem.memWrite (s.memIn i) = true ∧ Mem.busMemAddr (s.memIn i) = x

variable {s i}

/-! ## The cycles of the console -/

theorem grant_csl (h : s.csl.busReqO = true) {r : Arb.Reqs} (hr : r.cslReqI = s.csl.busReqO) :
    Arb.grant r = .csl := by
  rw [Arb.grant, hr, h]
  rfl

/-- The console's cycle goes to the memory. -/
theorem memIn_csl (h : s.csl.busReqO = true) :
    s.memIn i = ⟨false, s.csl.regAddr, s.csl.regData⟩ := by
  have hgrant : Arb.grant (s.driven i).toReqs = .csl := grant_csl h rfl
  have hquiet : Arb.cslAddrO (s.requested i) = 0 := by
    have hreq : Arb.grant (s.requested i).toReqs = .csl := grant_csl h rfl
    rw [Arb.cslAddrO, hreq]
    rfl
  have hdata : (s.driven i).cslDataI = s.csl.regData := by
    change s.csl.busDataO (Arb.cslAddrO (s.requested i)) = _
    rw [hquiet]
    rfl
  rw [memIn, Arb.memAddrO, Arb.memDataO, hgrant, hdata]
  rfl

/-- A memory cycle. -/
structure MemCycle (addr : BitVec 36) : Prop where
  memory : Bus.busIo addr = false
  cycle : Bus.busRead addr = true ∨ Bus.busWrite addr = true

/-- A memory cycle of the console is acknowledged at once. -/
theorem cslIn_ack (h : s.csl.busReqO = true) (hcycle : MemCycle s.csl.regAddr) :
    (s.cslIn i).busAckI = true ∧
      (s.cslIn i).busDataI = s.mem.ssramData ⟨false, s.csl.regAddr, s.csl.regData⟩ := by
  have hgrant : Arb.grant (s.arb i).toReqs = .csl := grant_csl h rfl
  have hio : bit s.csl.regAddr 10 = false := hcycle.memory
  have hack : (s.arb i).memAckI = true := by
    change Mem.busAckO (s.memIn i) = true
    rw [memIn_csl h, Mem.busAckO, Mem.memRead, Mem.memWrite, Mem.busRead, Mem.busWrite, Mem.busIo]
    change (_ || _ || (bit s.csl.regAddr 3 && !bit s.csl.regAddr 10) ||
      (bit s.csl.regAddr 5 && !bit s.csl.regAddr 10) || _) = true
    rw [hio]
    rcases hcycle.cycle with hread | hwrite
    · have hbit : bit s.csl.regAddr 3 = true := hread
      rw [hbit]
      simp
    · have hbit : bit s.csl.regAddr 5 = true := hwrite
      rw [hbit]
      simp
  have hdata : (s.arb i).memDataI = s.mem.ssramData ⟨false, s.csl.regAddr, s.csl.regData⟩ := by
    change s.mem.busDataO (s.memIn i) = _
    rw [memIn_csl h, Mem.busDataO, Mem.busIo]
    change (if bit s.csl.regAddr 10 = true then _ else _) = _
    rw [hio, if_neg Bool.false_ne_true]
  constructor
  · change Arb.cslAckO (s.arb i) = true
    rw [Arb.cslAckO, hgrant, hack]
    rfl
  · change Arb.cslDataO (s.arb i) = _
    rw [Arb.cslDataO, hgrant]
    change Arb.ackData (s.arb i) 0 = _
    rw [Arb.ackData, hack, if_pos rfl, hdata]

theorem next_ssram : (s.next i).mem.ssram = (Mem.port (s.memIn i)).apply s.mem.ssram := rfl

/-- A word that no other unit writes is written by the console only. -/
theorem next_word {x : BitVec 20} (h : ¬ s.OtherWrites i x) :
    (s.next i).mem.ssram x =
      if s.csl.busReqO = true ∧ Bus.busIo s.csl.regAddr = false ∧
          Bus.busWrite s.csl.regAddr = true ∧ field s.csl.regAddr 16 35 = x then s.csl.regData
      else s.mem.ssram x := by
  rw [next_ssram]
  cases hreq : s.csl.busReqO with
  | true =>
      rw [memIn_csl hreq]
      change (if (bit s.csl.regAddr 5 && !bit s.csl.regAddr 10) = true then
        Function.update s.mem.ssram (field s.csl.regAddr 16 35) s.csl.regData
        else s.mem.ssram) x = _
      have hio : Bus.busIo s.csl.regAddr = bit s.csl.regAddr 10 := rfl
      have hwrite : Bus.busWrite s.csl.regAddr = bit s.csl.regAddr 5 := rfl
      rw [hio, hwrite]
      cases bit s.csl.regAddr 10 with
      | true => simp
      | false =>
          cases bit s.csl.regAddr 5 with
          | false => simp
          | true =>
              by_cases hx : field s.csl.regAddr 16 35 = x
              · subst hx
                simp
              · simp [hx, Function.update_of_ne (Ne.symm hx)]
  | false =>
      have hother : ¬ (Mem.memWrite (s.memIn i) = true ∧ Mem.busMemAddr (s.memIn i) = x) :=
        fun hw => h ⟨hreq, hw⟩
      rw [if_neg (by simp)]
      by_cases hwrite : Mem.memWrite (s.memIn i) = true
      · have hne : x ≠ (Mem.port (s.memIn i)).addr := fun hx => hother ⟨hwrite, hx.symm⟩
        exact Write.apply_of_ne hne
      · rw [Write.apply_of_disabled (Bool.eq_false_iff.mpr hwrite)]

end Backplane

end KS10
