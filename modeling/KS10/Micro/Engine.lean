import KS10.Cpu.Alu
import KS10.Cpu.FastShift
import KS10.Cpu.PcFlags
import KS10.Clocked.Comes

/-!
# The microengine

The modules TIMING, USEQ, ALU and SCAD and the PC flags as the CPU connects them, with the
multiplexers DBUS and DBM in front of the ALU.  What the other modules of the CPU drive are
inputs.

A microword is executed in one clock that goes.  Before it the bus may make the machine wait,
which leaves everything as it is (`next_wait`), so that a microprogram can be followed from
microword to microword (`Comes.word`).
-/

namespace KS10

open Clocked Microword

/-! ## The data bus -/

/-- The number field as an immediate operand. -/
def cromNum (crom : Microword) : BitVec 18 := field crom 90 107

/-- The inputs of the microengine at one clock. -/
structure Micro.In where
  busWAIT : Bool
  ramfile : BitVec 36
  piREQPRI : BitVec 3
  vmaREG : BitVec 36
  aprFLAGS : BitVec 14
  timerCOUNT : BitVec 18
  cpuDATAI : BitVec 36
  useq : Useq.In

/-- What the module DBM drives. -/
def Micro.In.dbm (i : Micro.In) (crom : Microword) (dp : BitVec 36) (scad : BitVec 10) :
    BitVec 36 :=
  match cromDbmSel crom with
  | 0b000#3 => field scad 1 9 ++ 0xff#8 ++ field scad 0 0 ++ i.useq.dispPf ++ i.aprFLAGS
  | 0b001#3 =>
    field scad 1 7 ++ field scad 1 7 ++ field scad 1 7 ++ field scad 1 7 ++ field scad 1 7 ++
      field dp 35 35
  | 0b010#3 => 0b0#1 ++ field scad 2 9 ++ field dp 9 17 ++ i.timerCOUNT
  | 0b011#3 =>
    match cromSpecSel crom with
    | 0b001#3 => field scad 1 7 ++ field dp 7 35
    | 0b010#3 => field dp 0 6 ++ field scad 1 7 ++ field dp 14 35
    | 0b011#3 => field dp 0 13 ++ field scad 1 7 ++ field dp 21 35
    | 0b100#3 => field dp 0 20 ++ field scad 1 7 ++ field dp 28 35
    | 0b101#3 => field dp 0 27 ++ field scad 1 7 ++ field dp 35 35
    | _ => dp
  | 0b100#3 => field dp 18 35 ++ field dp 0 17
  | 0b101#3 => i.vmaREG
  | 0b110#3 => i.cpuDATAI
  | 0b111#3 => cromNum crom ++ cromNum crom

/-- A read cycle refers to an AC, and the memory would be put on the bus. -/
def Micro.In.forceRAMFILE (i : Micro.In) (crom : Microword) : Bool :=
  (!bit i.vmaREG 8 && field i.vmaREG 18 31 == 0) && bit i.vmaREG 3 && cromDbmSel crom == 0b110#3

/-- What the module DBUS drives. -/
def Micro.In.dbus (i : Micro.In) (crom : Microword) (pcFLAGS : BitVec 18) (dp : BitVec 36)
    (scad : BitVec 10) : BitVec 36 :=
  match cromDbusSel crom with
  | 0b00#2 => pcFLAGS ++ 0b0#1 ++ i.piREQPRI ++ 0b1111#4 ++ field i.vmaREG 26 35
  | 0b01#2 => dp
  | 0b10#2 => i.ramfile
  | 0b11#2 => if i.forceRAMFILE crom then i.ramfile else i.dbm crom dp scad

/-! ## The data path -/

/-- The registers that the microwords work with. -/
structure Path where
  alu : Alu
  scad : Scad
  pcFlags : PcFlags

namespace Path

variable (p : Path) (crom : Microword) (i : Micro.In)

/-- The ALU output of a microword that does not read the bus into the ALU, or that puts a
register on the output. -/
def dpOut : BitVec 36 := p.alu.aluOUT crom 0

/-- The word on the data bus.  A microword that puts the ALU output on the bus takes it from a
register: what is on the bus does not come back to it. -/
def dbus : BitVec 36 :=
  i.dbus crom p.pcFlags.pcFlags (p.dpOut crom) (p.scad.scad crom (p.dpOut crom))

def dp : BitVec 36 := p.alu.aluOUT crom (p.dbus crom i)

def aluFLAGS : BitVec 9 := p.alu.aluFLAGS crom (p.dbus crom i)

/-- The inputs of the module PCFLAGS. -/
def flagsIn (clken : Bool) : PcFlags.In where
  rst := false
  clken := clken
  crom := crom
  dp := p.dp crom i
  scad := p.scad.scad crom (p.dp crom i)
  regIr := i.useq.regIr
  aluFlags := p.aluFLAGS crom i

/-- The inputs of the module USEQ. -/
def useqIn : Useq.In :=
  { i.useq with
    rst := false
    clken := true
    dp := p.dp crom i
    scSign := p.scad.scSIGN
    aluFlags := p.aluFLAGS crom i
    skipJfcl := p.pcFlags.skipJfcl (p.flagsIn crom i true)
    dispScad := p.scad.dispSCAD crom (p.dp crom i)
    pcFlags := p.pcFlags.pcFlags }

/-- What a microword that is executed in one clock makes of the registers. -/
def next : Path where
  alu := p.alu.next crom (p.dbus crom i)
  scad := p.scad.next true crom (p.dp crom i)
  pcFlags := p.pcFlags.next (p.flagsIn crom i true)

end Path

/-! ## Registers -/

/-- The registers of the microengine. -/
structure Micro where
  front : FastShift
  alu : Alu
  pcFlags : PcFlags

namespace Micro

def crom (s : Micro) : Microword := s.front.crom
def useq (s : Micro) : Useq := s.front.useq
def path (s : Micro) : Path := ⟨s.alu, s.front.scad, s.pcFlags⟩

/-- The inputs of the modules TIMING, USEQ and SCAD. -/
def frontIn (s : Micro) (i : In) : FastShift.In where
  busWAIT := i.busWAIT
  dp := s.path.dp s.crom i
  useq := s.path.useqIn s.crom i

def clkenDP (s : Micro) (i : In) : Bool := s.front.clkenDP (s.frontIn i)

/-- One clock over the microcode `rom`. -/
def next (rom : MicroAddr → Microword) (s : Micro) (i : In) : Micro where
  front := s.front.next rom (s.frontIn i)
  alu := if s.clkenDP i then s.alu.next s.crom (s.path.dbus s.crom i) else s.alu
  pcFlags := s.pcFlags.next (s.path.flagsIn s.crom i (s.clkenDP i))

/-! ## Waits -/

/-- The bus lets the machine go. -/
def Goes (i : In) : Prop := i.busWAIT = false

/-- The machine has come to a microword that is executed in one clock. -/
structure Ready (s : Micro) : Prop where
  done : s.front.done = false
  single : cromMultiShift s.crom = false

/-- What a microword that is executed in one clock makes of the machine. -/
def exec (rom : MicroAddr → Microword) (s : Micro) (i : In) : Micro where
  front :=
    { useq := s.useq.next rom (s.path.useqIn s.crom i)
      scad := (s.path.next s.crom i).scad
      done := false }
  alu := (s.path.next s.crom i).alu
  pcFlags := (s.path.next s.crom i).pcFlags

variable {rom : MicroAddr → Microword} {s : Micro} {i : In}

theorem Ready.clkenCR (h : s.Ready) (i : In) : s.front.clkenCR (s.frontIn i) = !i.busWAIT := by
  have hsingle : cromMultiShift s.front.crom = false := h.single
  rw [FastShift.clkenCR, hsingle]
  rfl

theorem Ready.clkenDP (h : s.Ready) (i : In) : s.clkenDP i = !i.busWAIT := by
  have hsingle : cromMultiShift s.front.crom = false := h.single
  rw [Micro.clkenDP, FastShift.clkenDP, hsingle, h.done]
  rfl

theorem Ready.next_done (h : s.Ready) (i : In) : (s.next rom i).front.done = false := by
  have hsingle : cromMultiShift s.front.crom = false := h.single
  change (s.front.scad.feSIGN && cromMultiShift s.front.crom) = false
  rw [hsingle, Bool.and_false]

/-- A wait leaves everything as it is. -/
theorem next_wait (h : s.Ready) (hwait : ¬ Goes i) : s.next rom i = s := by
  have hbus : i.busWAIT = true := Bool.eq_true_of_not_eq_false hwait
  have hcr : s.front.clkenCR (s.frontIn i) = false := by rw [h.clkenCR, hbus, Bool.not_true]
  have hdp : s.clkenDP i = false := by rw [h.clkenDP, hbus, Bool.not_true]
  have hfront : s.front.next rom (s.frontIn i) = s.front := by
    have hdone : (s.front.next rom (s.frontIn i)).done = s.front.done := by
      rw [h.done]
      exact h.next_done i
    have hscad : (s.front.next rom (s.frontIn i)).scad = s.front.scad := by
      have hclken : s.front.clkenDP (s.frontIn i) = false := hdp
      simp only [FastShift.next, Scad.next, hclken, Bool.false_and, Bool.false_eq_true, if_false]
    have huseq : (s.front.next rom (s.frontIn i)).useq = s.front.useq := by
      simp only [FastShift.next, Useq.next, Useq.nextSp, Useq.nextCurrAddr, Useq.nextStack,
        FastShift.useqIn, hcr, Bool.false_and, Bool.false_eq_true, if_false]
    calc s.front.next rom (s.frontIn i)
        = ⟨s.front.useq, s.front.scad, s.front.done⟩ := by rw [← hdone, ← hscad, ← huseq]
      _ = s.front := rfl
  have hflags : s.pcFlags.next (s.path.flagsIn s.crom i false) = s.pcFlags :=
    PcFlags.next_of_disabled rfl rfl
  rw [next, hfront, hdp, hflags, if_neg Bool.false_ne_true]

/-- A clock that goes executes the microword. -/
theorem next_go (h : s.Ready) (hgo : Goes i) : s.next rom i = s.exec rom i := by
  have hbus : i.busWAIT = false := hgo
  have hcr : s.front.clkenCR (s.frontIn i) = true := by rw [h.clkenCR, hbus, Bool.not_false]
  have hdp : s.clkenDP i = true := by rw [h.clkenDP, hbus, Bool.not_false]
  have hclken : s.front.clkenDP (s.frontIn i) = true := hdp
  have hdone : (s.front.next rom (s.frontIn i)).done = false := h.next_done i
  have huseq : s.front.useqIn (s.frontIn i) = s.path.useqIn s.crom i := by
    rw [FastShift.useqIn, hcr]
    rfl
  have hfront : s.front.next rom (s.frontIn i) = (s.exec rom i).front := by
    calc s.front.next rom (s.frontIn i)
        = ⟨s.front.useq.next rom (s.front.useqIn (s.frontIn i)),
            s.front.scad.next (s.front.clkenDP (s.frontIn i)) s.crom (s.path.dp s.crom i),
            (s.front.next rom (s.frontIn i)).done⟩ := rfl
      _ = (s.exec rom i).front := by
          rw [huseq, hclken, hdone]
          rfl
  rw [next, hfront, hdp, if_pos rfl]
  rfl

end Micro

end KS10
