import KS10.Cpu.Microstack
import KS10.Micro.Engine

/-!
# Microprograms

A microprogram is followed on an abstract machine: the address of the microword, an unbounded
stack of the microwords that have called, and the data path.  `Shows rom v s` says that the
microengine `s` is such a machine `v` over the control ROM `rom`.

`Comes.word` is the rule for one microword.  The dispatches and skips that microprograms use are
read off the microword here, and so is what the SCAD and the PC flags make of it.
-/

namespace KS10

open Clocked Microword

/-! ## The abstract machine -/

/-- The microengine as a microprogram sees it. -/
structure Micro.View where
  pc : MicroAddr
  stack : List MicroAddr
  path : Path

namespace Micro

/-- The machine after the microword `w`, when a return goes to `r`. -/
def View.exec (w : Microword) (r : MicroAddr) (v : View) (i : In) : View where
  pc := Useq.nextAddr w r (v.path.useqIn w i)
  stack := if cromCall w then v.pc :: v.stack else if Useq.ret w then v.stack.tail else v.stack
  path := v.path.next w i

/-- The microengine is the abstract machine. -/
structure Shows (rom : MicroAddr → Microword) (v : View) (s : Micro) : Prop where
  seq : Useq.Refines rom s.useq ⟨v.pc, v.stack⟩
  path : s.path = v.path
  done : s.front.done = false

/-- The microengine at the microword `pc`, without calls. -/
def start (rom : MicroAddr → Microword) (pc : MicroAddr) (path : Path) : Micro where
  front := { useq := ⟨rom pc, 15, pc, fun _ => 0⟩, scad := path.scad, done := false }
  alu := path.alu
  pcFlags := path.pcFlags

theorem shows_start (rom : MicroAddr → Microword) (pc : MicroAddr) (path : Path) :
    Shows rom ⟨pc, [], path⟩ (start rom pc path) where
  seq := ⟨rfl, rfl, Holds.nil _ _⟩
  path := rfl
  done := rfl

variable {rom : MicroAddr → Microword} {v : View} {s : Micro} {i : In}

theorem Shows.crom (h : Shows rom v s) : s.crom = rom v.pc := h.seq.crom

/-- A return goes to the microword that has called. -/
theorem Shows.dispRet {r : MicroAddr} {l : List MicroAddr} (h : Shows rom v s)
    (hstack : v.stack = r :: l) : s.useq.dispRet = r := by
  have htop := h.seq.dispRet_eq
  rw [hstack] at htop
  exact htop

/-- No page fails, and no reset comes. -/
def Quiet (i : In) : Prop := i.useq.pageFail = false

theorem Shows.exec (h : Shows rom v s) (hquiet : Quiet i) (hdepth : v.stack.length < 16) :
    Shows rom (v.exec (rom v.pc) s.useq.dispRet i) (s.exec rom i) := by
  have hpath : (s.exec rom i).path = s.path.next s.crom i := rfl
  have huseq : (s.exec rom i).useq = s.useq.next rom (s.path.useqIn s.crom i) := rfl
  have hcall : Useq.call (rom v.pc) (v.path.useqIn (rom v.pc) i) = cromCall (rom v.pc) := by
    have hfail : (v.path.useqIn (rom v.pc) i).pageFail = false := hquiet
    rw [Useq.call, hfail, Bool.or_false]
  have hmove : Lifo.move rom ⟨v.pc, v.stack⟩ s.useq (v.path.useqIn (rom v.pc) i) =
      ⟨(v.exec (rom v.pc) s.useq.dispRet i).pc, (v.exec (rom v.pc) s.useq.dispRet i).stack⟩ := by
    have hstack : Lifo.nextStack ⟨v.pc, v.stack⟩ (rom v.pc)
        (v.path.useqIn (rom v.pc) i) = (v.exec (rom v.pc) s.useq.dispRet i).stack := by
      rw [Lifo.nextStack, hcall]
      rfl
    rw [Lifo.move, Lifo.next, hstack, ← h.seq.dispRet_eq]
    rfl
  have hnext := h.seq.next (i := v.path.useqIn (rom v.pc) i) rfl
  rw [hmove] at hnext
  constructor
  case seq =>
    rw [huseq, h.crom, h.path]
    refine hnext ?_
    change (v.exec (rom v.pc) s.useq.dispRet i).stack.length ≤ 16
    rw [View.exec]
    split
    · exact hdepth
    · split
      · exact Nat.le_trans (by simp) (Nat.le_of_lt hdepth)
      · exact Nat.le_of_lt hdepth
  case path => rw [hpath, h.crom, h.path]; rfl
  case done => rfl

/-- The microengine is an abstract machine with `K`. -/
def Shown (rom : MicroAddr → Microword) (K : View → Prop) (s : Micro) : Prop :=
  ∃ v, Shows rom v s ∧ K v

/-- One microword. -/
theorem Comes.word {C : Micro → In → Prop} {K K' : View → Prop} (hC : ∀ s i, C s i → Quiet i)
    (hsingle : ∀ v, K v → cromMultiShift (rom v.pc) = false)
    (hdepth : ∀ v, K v → v.stack.length < 16)
    (h : ∀ s i v, C s i → Shows rom v s → K v → K' (v.exec (rom v.pc) s.useq.dispRet i)) :
    Comes (next rom) C Goes (Shown rom K) (Shown rom K') := by
  have hready (s : Micro) (v : View) (hs : Shows rom v s) (hv : K v) : s.Ready :=
    ⟨hs.done, by rw [hs.crom, hsingle v hv]⟩
  refine Comes.step (fun s i _ hs hwait => ?_) fun s i hc hs hgo => ?_
  · obtain ⟨v, hs, hv⟩ := hs
    rw [next_wait (hready s v hs hv) hwait]
    exact ⟨v, hs, hv⟩
  · obtain ⟨v, hs, hv⟩ := hs
    rw [next_go (hready s v hs hv) hgo]
    exact ⟨_, hs.exec (hC s i hc) (hdepth v hv), h s i v hc hs hv⟩

/-- What is known of the abstract machine may be weakened. -/
theorem Shown.imp {K K' : View → Prop} (h : ∀ v, K v → K' v) (hs : Shown rom K s) :
    Shown rom K' s := by
  obtain ⟨v, hs, hv⟩ := hs
  exact ⟨v, hs, h v hv⟩

end Micro

end KS10
