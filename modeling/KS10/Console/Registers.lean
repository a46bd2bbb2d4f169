import KS10.Bus.Console
import KS10.Clocked.Program
import KS10.Cpu.Switches
import Mathlib.Data.Bool.Basic

/-!
# The console's functions on the KS10

The console microcontroller sees the KS10 as four registers of 64 bits: address, data,
status and console instruction.  Each is four halfwords of CSL, of which the upper
bits are not implemented.  The functions below are programs on these registers.

The board is what these programs see of the KS10, between two accesses: the registers
of CSL, the bus cycle in progress, and the flip-flops RUN, CONT and EXEC, which the
reset holds at zero.
-/

namespace KS10

open Clocked RunControl

/-! ## The board -/

/-- The registers of the console by their names. -/
inductive Reg where
  | addr
  | data
  | stat
  | cir
  deriving DecidableEq

/-- The bus cycle in progress. -/
inductive Board.Cycle where
  | idle
  | read
  | write
  deriving DecidableEq

structure Board where
  regs : Csl.Regs
  cycle : Board.Cycle
  cpuHalt : Bool
  flag : Switch → Bool
  /-- The reset clears the flip-flops. -/
  held : ∀ w, flag w = true → regs.regCtrlReset = false

namespace Reg

/-- The address of the first halfword. -/
def base : Reg → BitVec 8
  | addr => 0x00
  | data => 0x08
  | stat => 0x10
  | cir => 0x18

end Reg

namespace Board

/-- The reset holds the flip-flops. -/
def masked (regs : Csl.Regs) (cycle : Cycle) (cpuHalt : Bool) (flag : Switch → Bool) : Board where
  regs := regs
  cycle := cycle
  cpuHalt := cpuHalt
  flag w := flag w && !regs.regCtrlReset
  held w h := by
    simp only [Bool.and_eq_true, Bool.not_eq_true'] at h
    exact h.2

def regStat (b : Board) : BitVec 36 :=
  Csl.statWord b.regs (b.cycle != .idle) b.cpuHalt (b.flag .run) (b.flag .cont) (b.flag .exec)

/-- The register of 36 bits behind a name. -/
def word36 (b : Board) : Reg → BitVec 36
  | .addr => b.regs.regAddr
  | .data => b.regs.regData
  | .stat => b.regStat
  | .cir => b.regs.regCir

/-- `readReg64`: four halfwords. -/
def readReg64 (b : Board) (r : Reg) : BitVec 64 :=
  Csl.word (b.word36 r) 6 ++ Csl.word (b.word36 r) 4 ++ Csl.word (b.word36 r) 2
    ++ Csl.word (b.word36 r) 0

/-- The bus cycle that the GO bit starts. -/
def start (regAddr : BitVec 36) : Cycle :=
  if bit regAddr 3 then .read else if bit regAddr 5 then .write else .idle

/-- The write of a halfword on both byte lanes. -/
def writeHalf (b : Board) (addr : BitVec 8) (v : BitVec 16) : Board :=
  masked (Csl.writeLo (Csl.writeHi b.regs addr v) addr v)
    (if addr = 0x12 ∧ v.getLsbD 0 = true ∧ b.cycle = .idle then start b.regs.regAddr else b.cycle)
    b.cpuHalt
    (if addr = 0x10 then Switch.written v else b.flag)

/-- `writeReg64`: four halfwords. -/
def writeReg64 (b : Board) (r : Reg) (v : BitVec 64) : Board :=
  (((b.writeHalf r.base (v.extractLsb' 0 16)).writeHalf
    (r.base + 2) (v.extractLsb' 16 16)).writeHalf
      (r.base + 4) (v.extractLsb' 32 16)).writeHalf (r.base + 6) (v.extractLsb' 48 16)

/-! ## The KS10's own changes -/

/-- What the KS10 does by itself: it clears flip-flops, it halts or goes on, and it ends
the bus cycle, with the data of the bus or without an acknowledge. -/
inductive Act where
  | clears (clr : Switch → Bool)
  | halts (cpuHalt : Bool)
  | acks (busData : BitVec 36)
  | fails

def act (b : Board) : Act → Board
  | .clears clr => masked b.regs b.cycle b.cpuHalt fun w => b.flag w && !clr w
  | .halts cpuHalt => masked b.regs b.cycle cpuHalt b.flag
  | .acks busData =>
      match b.cycle with
      | .idle => b
      | .read => masked { b.regs with regData := busData } .idle b.cpuHalt b.flag
      | .write => masked b.regs .idle b.cpuHalt b.flag
  | .fails =>
      match b.cycle with
      | .idle => b
      | .read => masked { b.regs with regCtrlNxmNxd := true } .idle b.cpuHalt b.flag
      | .write => masked { b.regs with regCtrlNxmNxd := true } .idle b.cpuHalt b.flag

end Board

/-! ## Reads and writes of the board -/

namespace Board

variable (b : Board) (r : Reg) (v : BitVec 64) (w : Switch)

theorem writeHi_reset (r : Csl.Regs) (addr : BitVec 8) (v : BitVec 16) :
    (Csl.writeHi r addr v).regCtrlReset = r.regCtrlReset := by
  unfold Csl.writeHi
  split_ifs <;> rfl

theorem writeLo_reset (r : Csl.Regs) (addr : BitVec 8) (v : BitVec 16) :
    (Csl.writeLo r addr v).regCtrlReset =
      if addr = 0x10 then v.getLsbD 0 else r.regCtrlReset := by
  by_cases h : addr = 0x10
  · rw [if_pos h, h]
    rfl
  · rw [if_neg h]
    unfold Csl.writeLo
    split_ifs <;> rfl

theorem writeHalf_reset (addr : BitVec 8) (v : BitVec 16) :
    (b.writeHalf addr v).regs.regCtrlReset =
      if addr = 0x10 then v.getLsbD 0 else b.regs.regCtrlReset := by
  show (Csl.writeLo (Csl.writeHi b.regs addr v) addr v).regCtrlReset = _
  rw [writeLo_reset, writeHi_reset]

theorem writeHalf_flag_stat (v : BitVec 16) :
    (b.writeHalf 0x10 v).flag w = (Switch.written v w && !v.getLsbD 0) := by
  show (Switch.written v w && !(b.writeHalf 0x10 v).regs.regCtrlReset) = _
  rw [writeHalf_reset, if_pos rfl]

theorem writeHalf_flag {addr : BitVec 8} (h : addr ≠ 0x10) (v : BitVec 16) :
    (b.writeHalf addr v).flag w = b.flag w := by
  have hflag : (b.writeHalf addr v).flag w =
      ((if addr = 0x10 then Switch.written v else b.flag) w
        && !(b.writeHalf addr v).regs.regCtrlReset) := rfl
  rw [hflag, writeHalf_reset, if_neg h, if_neg h]
  cases hw : b.flag w with
  | true => rw [b.held w hw, Bool.not_false, Bool.and_true]
  | false => rfl

/-- The bit of a flip-flop in the status word. -/
def flagBit : Switch → Nat
  | .run => 7
  | .cont => 6
  | .exec => 5

theorem written_extract (w : Switch) :
    Switch.written (v.extractLsb' 0 16) w = v.getLsbD (flagBit w) := by
  cases w with
  | run => simp [Switch.written, flagBit]
  | cont => simp [Switch.written, flagBit]
  | exec => simp [Switch.written, flagBit]

/-- A write of the status register loads the flip-flops, unless it resets the KS10. -/
theorem writeReg64_flag_stat :
    (b.writeReg64 .stat v).flag w = (v.getLsbD (flagBit w) && !v.getLsbD 0) := by
  unfold writeReg64
  rw [writeHalf_flag _ _ (by decide), writeHalf_flag _ _ (by decide),
    writeHalf_flag _ _ (by decide)]
  show (b.writeHalf 0x10 _).flag w = _
  rw [writeHalf_flag_stat, written_extract]
  simp

/-- No halfword of another register is the one with the flip-flops. -/
theorem base_ne {r : Reg} (h : r ≠ .stat) :
    r.base ≠ 0x10 ∧ r.base + 2 ≠ 0x10 ∧ r.base + 4 ≠ 0x10 ∧ r.base + 6 ≠ 0x10 := by
  cases r with
  | addr => decide
  | data => decide
  | stat => exact absurd rfl h
  | cir => decide

theorem writeReg64_flag {r : Reg} (h : r ≠ .stat) : (b.writeReg64 r v).flag w = b.flag w := by
  obtain ⟨h0, h2, h4, h6⟩ := base_ne h
  unfold writeReg64
  rw [writeHalf_flag _ _ h6, writeHalf_flag _ _ h4, writeHalf_flag _ _ h2, writeHalf_flag _ _ h0]

theorem readReg64_lsb {k : Nat} (h : k < 16) :
    (b.readReg64 r).getLsbD k = (b.word36 r).getLsbD k := by
  have hword : Csl.word (b.word36 r) 0 = field (b.word36 r) 20 35 := rfl
  unfold readReg64
  rw [BitVec.getLsbD_append, if_pos h, hword]
  unfold field
  rw [BitVec.getLsbD_extractLsb']
  simp [h]

/-- Bits to the right of the last piece of a word are those of the piece. -/
theorem lsb_append {m n : Nat} (x : BitVec m) (y : BitVec n) {k : Nat} (h : k < n) :
    (x ++ y).getLsbD k = y.getLsbD k := by
  rw [BitVec.getLsbD_append, if_pos h]

/-- One bit further left, one flag less. -/
theorem lsb_append_ofBool {m : Nat} (x : BitVec m) (f : Bool) (k : Nat) :
    (x ++ BitVec.ofBool f).getLsbD (k + 1) = x.getLsbD k := by
  rw [BitVec.getLsbD_append, if_neg (by omega), Nat.add_sub_cancel]

theorem statWord_bits (r : Csl.Regs) (go cpuHalt cpuRun cpuCont cpuExec : Bool) :
    let word := Csl.statWord r go cpuHalt cpuRun cpuCont cpuExec
    word.getLsbD 7 = cpuRun ∧ word.getLsbD 6 = cpuCont ∧ word.getLsbD 5 = cpuExec ∧
      word.getLsbD 0 = r.regCtrlReset := by
  have hzero : ∀ {m : Nat} (x : BitVec m) (k : Nat), (x ++ 0#1).getLsbD (k + 1) = x.getLsbD k :=
    fun x k => lsb_append_ofBool x false k
  have hlast : ∀ {m : Nat} (x : BitVec m) (f : Bool), (x ++ BitVec.ofBool f).getLsbD 0 = f :=
    fun x f => by rw [lsb_append _ _ Nat.one_pos, BitVec.getLsbD_ofBool]; rfl
  unfold Csl.statWord
  refine ⟨?_, ?_, ?_, hlast _ _⟩
  · rw [lsb_append_ofBool, hzero, lsb_append_ofBool, lsb_append_ofBool, lsb_append_ofBool,
      lsb_append_ofBool, lsb_append_ofBool, hlast]
  · rw [lsb_append_ofBool, hzero, lsb_append_ofBool, lsb_append_ofBool, lsb_append_ofBool,
      lsb_append_ofBool, hlast]
  · rw [lsb_append_ofBool, hzero, lsb_append_ofBool, lsb_append_ofBool, lsb_append_ofBool, hlast]

theorem readReg64_flag : (b.readReg64 .stat).getLsbD (flagBit w) = b.flag w := by
  obtain ⟨hrun, hcont, hexec, -⟩ := statWord_bits b.regs (b.cycle != .idle) b.cpuHalt
    (b.flag .run) (b.flag .cont) (b.flag .exec)
  cases w with
  | run => exact (readReg64_lsb b .stat (by decide)).trans hrun
  | cont => exact (readReg64_lsb b .stat (by decide)).trans hcont
  | exec => exact (readReg64_lsb b .stat (by decide)).trans hexec

theorem readReg64_reset : (b.readReg64 .stat).getLsbD 0 = b.regs.regCtrlReset := by
  obtain ⟨-, -, -, hreset⟩ := statWord_bits b.regs (b.cycle != .idle) b.cpuHalt
    (b.flag .run) (b.flag .cont) (b.flag .exec)
  exact (readReg64_lsb b .stat (by decide)).trans hreset

theorem masked_flag {regs : Csl.Regs} {cycle : Cycle} {cpuHalt : Bool} {flag : Switch → Bool}
    (h : (masked regs cycle cpuHalt flag).flag w = true) : flag w = true := by
  simp only [masked, Bool.and_eq_true] at h
  exact h.1

theorem readReg64_go : (b.readReg64 .stat).getLsbD 16 = (b.cycle != .idle) := by
  have hword : (b.readReg64 .stat).getLsbD 16 = (Csl.word b.regStat 2).getLsbD 0 := by
    unfold readReg64
    rw [BitVec.getLsbD_append, if_neg (by decide), BitVec.getLsbD_append, if_pos (by decide)]
    rfl
  have hfield : (Csl.word b.regStat 2).getLsbD 0 = b.regStat.getLsbD 16 := by
    show (field b.regStat 4 19).getLsbD 0 = _
    unfold field
    rw [BitVec.getLsbD_extractLsb']
    rfl
  have hzero : ∀ {m : Nat} (x : BitVec m) (k : Nat), (x ++ 0#1).getLsbD (k + 1) = x.getLsbD k :=
    fun x k => lsb_append_ofBool x false k
  rw [hword, hfield, regStat, Csl.statWord, lsb_append_ofBool, hzero, lsb_append_ofBool,
    lsb_append_ofBool, lsb_append_ofBool, lsb_append_ofBool, lsb_append_ofBool, lsb_append_ofBool,
    lsb_append_ofBool, lsb_append_ofBool, BitVec.getLsbD_append, if_neg (by decide),
    lsb_append _ _ Nat.one_pos, BitVec.getLsbD_ofBool]
  rfl

/-- The bytes of a write of 64 bits in a register of 36. -/
theorem setField_bytes (x : BitVec 36) (v : BitVec 64) :
    setField (setField (setField (setField (setField x
      20 27 (Csl.hiByte (v.extractLsb' 0 16))) 28 35 (Csl.loByte (v.extractLsb' 0 16)))
      4 11 (Csl.hiByte (v.extractLsb' 16 16))) 12 19 (Csl.loByte (v.extractLsb' 16 16)))
      0 3 (Csl.loNibble (v.extractLsb' 32 16)) = v.setWidth 36 := by
  apply BitVec.eq_of_getLsbD_eq
  intro k hk
  rw [getLsbD_setField _ _ (by omega) (by omega) hk, getLsbD_setField _ _ (by omega) (by omega) hk,
    getLsbD_setField _ _ (by omega) (by omega) hk, getLsbD_setField _ _ (by omega) (by omega) hk,
    getLsbD_setField _ _ (by omega) (by omega) hk, BitVec.getLsbD_setWidth]
  unfold Csl.hiByte Csl.loByte Csl.loNibble
  simp only [BitVec.getLsbD_extractLsb']
  grind

theorem writeReg64_addr :
    (b.writeReg64 .addr v).regs.regAddr = v.setWidth 36 ∧
      (b.writeReg64 .addr v).regs.regData = b.regs.regData ∧
      (b.writeReg64 .addr v).cycle = b.cycle :=
  ⟨setField_bytes b.regs.regAddr v, rfl, rfl⟩

theorem writeReg64_data :
    (b.writeReg64 .data v).regs.regAddr = b.regs.regAddr ∧
      (b.writeReg64 .data v).regs.regData = v.setWidth 36 ∧
      (b.writeReg64 .data v).cycle = b.cycle :=
  ⟨rfl, setField_bytes b.regs.regData v, rfl⟩

/-- A write of the status register starts a bus cycle by its GO bit. -/
theorem writeReg64_stat :
    (b.writeReg64 .stat v).regs.regAddr = b.regs.regAddr ∧
      (b.writeReg64 .stat v).regs.regData = b.regs.regData ∧
      (b.writeReg64 .stat v).cycle =
        if v.getLsbD 16 = true ∧ b.cycle = .idle then start b.regs.regAddr else b.cycle := by
  have hgo : (v.extractLsb' 16 16).getLsbD 0 = v.getLsbD 16 := by
    rw [BitVec.getLsbD_extractLsb']
    rfl
  have hcycle : (b.writeReg64 .stat v).cycle =
      if (0x12 : BitVec 8) = 0x12 ∧ (v.extractLsb' 16 16).getLsbD 0 = true ∧ b.cycle = .idle then
        start b.regs.regAddr
      else b.cycle := rfl
  refine ⟨rfl, rfl, ?_⟩
  rw [hcycle, hgo]
  simp only [true_and]

theorem readReg64_data : b.readReg64 .data = b.regs.regData.setWidth 64 := by
  apply BitVec.eq_of_getLsbD_eq
  intro k hk
  have h0 : Csl.word b.regs.regData 0 = field b.regs.regData 20 35 := rfl
  have h2 : Csl.word b.regs.regData 2 = field b.regs.regData 4 19 := rfl
  have h4 : Csl.word b.regs.regData 4 = 0#12 ++ field b.regs.regData 0 3 := rfl
  have h6 : Csl.word b.regs.regData 6 = 0 := rfl
  unfold readReg64 word36
  rw [h0, h2, h4, h6]
  unfold field
  simp only [BitVec.getLsbD_append, BitVec.getLsbD_extractLsb', BitVec.getLsbD_setWidth]
  by_cases h : k < 36
  · grind
  · have hge : b.regs.regData.getLsbD k = false := BitVec.getLsbD_of_ge _ _ (by omega)
    grind

/-- The KS10 sets no flip-flop by itself. -/
theorem act_flag (a : Act) (h : (b.act a).flag w = true) : b.flag w = true := by
  cases a with
  | clears clr =>
      have hflag : (b.flag w && !clr w) = true := masked_flag w h
      simp only [Bool.and_eq_true] at hflag
      exact hflag.1
  | halts cpuHalt => exact masked_flag w h
  | acks busData =>
      simp only [act] at h
      split at h
      · exact h
      · exact masked_flag w h
      · exact masked_flag w h
  | fails =>
      simp only [act] at h
      split at h
      · exact h
      · exact masked_flag w h
      · exact masked_flag w h

/-- One clock of the run control is at most one write of the console and one change by
the KS10, the write first. -/
theorem clock_flag {s : RunControl} {i : RunControl.In} (hrst : i.rst = false)
    (hreset : i.conData.getLsbD 0 = false) (hb : ∀ w, b.flag w = Switch.flag s w)
    (hheld : b.regs.regCtrlReset = false) :
    let set := if s.cslSet i then b.writeHalf 0x10 i.conData else b
    let after := if s.clkenDp i then set.act (.clears (Switch.clears s i)) else b
    ∀ w, after.flag w = Switch.flag (next s i) w := by
  intro set after w
  have hset : set.flag w = if s.cslSet i then Switch.written i.conData w else Switch.flag s w := by
    show Board.flag (if s.cslSet i then b.writeHalf 0x10 i.conData else b) w = _
    split
    · rw [writeHalf_flag_stat, hreset, Bool.not_false, Bool.and_true]
    · exact hb w
  have hsetReset : set.regs.regCtrlReset = false := by
    show (if s.cslSet i then b.writeHalf 0x10 i.conData else b).regs.regCtrlReset = false
    split
    · rw [writeHalf_reset, if_pos rfl, hreset]
    · exact hheld
  rw [next_flag hrst, nextSwitch]
  show Board.flag (if s.clkenDp i then set.act (.clears (Switch.clears s i)) else b) w = _
  split
  · show ((set.flag w && !Switch.clears s i w) && !set.regs.regCtrlReset) = _
    rw [hset, hsetReset]
    cases Switch.clears s i w with
    | true => simp
    | false => simp
  · exact hb w

end Board

/-! ## The functions -/

/-- A program of the console. -/
abbrev Ks10 := Prog Reg (BitVec 64)

namespace Ks10

def statGO : BitVec 64 := 0x10000
def statNXMNXD : BitVec 64 := 0x200
def statRUN : BitVec 64 := 0x80
def statCONT : BitVec 64 := 0x40
def statEXEC : BitVec 64 := 0x20
def statTIMEREN : BitVec 64 := 0x10
def statTRAPEN : BitVec 64 := 0x08
def statCACHEEN : BitVec 64 := 0x04
def statINTR : BitVec 64 := 0x02
def statRESET : BitVec 64 := 0x01

def dataMask : BitVec 64 := 0o777777777777
def memAddrMask : BitVec 64 := 0o3777777
def ioAddrMask : BitVec 64 := 0o17777777
def flagRead : BitVec 64 := 0x100000000
def flagWrite : BitVec 64 := 0x040000000
def flagPhys : BitVec 64 := 0x008000000
def flagIO : BitVec 64 := 0x002000000
def flagByte : BitVec 64 := 0x000400000

def readRegStat : Ks10 (BitVec 64) := .read .stat .ret
def writeRegStat (v : BitVec 64) : Ks10 Unit := .write .stat v (.ret ())
def writeRegAddr (v : BitVec 64) : Ks10 Unit := .write .addr v (.ret ())
def readRegData : Ks10 (BitVec 64) := .read .data .ret
def writeRegData (v : BitVec 64) : Ks10 Unit := .write .data v (.ret ())
def writeRegCIR (v : BitVec 64) : Ks10 Unit := .write .cir v (.ret ())

/-- The loop that waits for the end of the bus cycle, with `n` passes left.  After the
last pass the function prints a message and returns as well. -/
def waitGo : Nat → Ks10 Unit
  | 0 => .ret ()
  | n + 1 => do
      let status ← readRegStat
      if status &&& statGO = 0 then .ret () else waitGo n

/-- Start and complete a bus transaction. -/
def go : Ks10 Unit := do
  let status ← readRegStat
  writeRegStat (status ||| statGO)
  waitGo 100

/-- A read transaction with the address and the flags `addr`. -/
def readBus (addr mask : BitVec 64) : Ks10 (BitVec 64) := do
  writeRegAddr addr
  go
  let data ← readRegData
  return mask &&& data

/-- A write transaction with the address and the flags `addr`. -/
def writeBus (addr data : BitVec 64) : Ks10 Unit := do
  writeRegAddr addr
  writeRegData data
  go

def readMem (addr : BitVec 64) : Ks10 (BitVec 64) :=
  readBus ((addr &&& memAddrMask) ||| flagRead ||| flagPhys) dataMask

def writeMem (addr data : BitVec 64) : Ks10 Unit :=
  writeBus ((addr &&& memAddrMask) ||| flagWrite ||| flagPhys) data

def readIO (addr : BitVec 64) : Ks10 (BitVec 64) :=
  readBus ((addr &&& ioAddrMask) ||| flagRead ||| flagPhys ||| flagIO) dataMask

def writeIO (addr data : BitVec 64) : Ks10 Unit :=
  writeBus ((addr &&& ioAddrMask) ||| flagWrite ||| flagPhys ||| flagIO) data

def readIObyte (addr : BitVec 64) : Ks10 (BitVec 64) :=
  readBus ((addr &&& ioAddrMask) ||| flagRead ||| flagPhys ||| flagIO ||| flagByte) 0xffff

def writeIObyte (addr : BitVec 64) (data : BitVec 16) : Ks10 Unit :=
  writeBus ((addr &&& ioAddrMask) ||| flagWrite ||| flagPhys ||| flagIO ||| flagByte)
    (data.setWidth 64)

/-- A function that sets or clears one bit of the status register. -/
def enable (mask : BitVec 64) (on : Bool) : Ks10 Unit := do
  let status ← readRegStat
  if on then writeRegStat (status ||| mask) else writeRegStat (status &&& ~~~mask)

def run : Bool → Ks10 Unit := enable statRUN
def timerEnable : Bool → Ks10 Unit := enable statTIMEREN
def trapEnable : Bool → Ks10 Unit := enable statTRAPEN
def cacheEnable : Bool → Ks10 Unit := enable statCACHEEN
def cpuReset : Bool → Ks10 Unit := enable statRESET

/-- A function that sets bits of the status register. -/
def setStat (mask : BitVec 64) : Ks10 Unit := do
  let status ← readRegStat
  writeRegStat (mask ||| status)

def execute : Ks10 Unit := setStat (statCONT ||| statEXEC)
def step : Ks10 Unit := setStat statCONT
def contin : Ks10 Unit := setStat (statRUN ||| statCONT)
def begin : Ks10 Unit := setStat (statRUN ||| statCONT ||| statEXEC)

/-- The interrupt bit is a pulse. -/
def cpuIntr : Ks10 Unit := do
  let status ← readRegStat
  writeRegStat (status ||| statINTR)
  writeRegStat status

def nxmnxd : Ks10 Bool := do
  let reg ← readRegStat
  writeRegStat (reg &&& ~~~statNXMNXD)
  return reg &&& statNXMNXD != 0

def ctyinAddr : BitVec 64 := 0o32
def ctyoutAddr : BitVec 64 := 0o33
def ctyValid : BitVec 64 := 0x100

/-- Write a character to the KS10. -/
def putchar (ch : BitVec 64) : Ks10 Unit := do
  let ctyIn ← readMem ctyinAddr
  if ctyIn &&& ctyValid = 0 then
    writeMem ctyinAddr (ctyValid ||| (ch &&& 0xff))
    cpuIntr

/-- Read a character from the KS10. -/
def getchar : Ks10 (Option (BitVec 64)) := do
  let ctyOut ← readMem ctyoutAddr
  if ctyOut &&& ctyValid ≠ 0 then
    writeMem ctyoutAddr 0
    return some (ctyOut &&& 0x7f)
  else
    return none

end Ks10

end KS10
