import KS10.Clocked.RingStack
import KS10.Cpu.Sequencer

/-!
# The micro-stack as an unbounded stack

`Lifo` is what the microsequencer is for: a program counter into the microcode and
an unbounded stack of micro-addresses.  It executes the microword at its program
counter; a call or a page failure pushes the program counter itself, a return pops
and may dispatch on the address popped.

`Useq.Refines` relates the registers of the microsequencer to a `Lifo` state: the
address register is the program counter, the control ROM register holds the
microword there, and the ring of the micro-stack holds the stack.  Every clock
keeps it while the stack is at most sixteen deep (`Useq.follows_lifo`).

A return microword with a zero jump field that dispatches on the whole return
address goes back to the address on top of the stack (`Useq.nextAddr_plainReturn`).
A page fail handler that ends in one therefore leads back to the failed microword
with the stack as it was.
-/

namespace KS10

open Clocked Microword

/-! ## The unbounded sequencer -/

structure Lifo where
  pc : MicroAddr
  stack : List MicroAddr

namespace Lifo

/-- The return address.  An empty stack dispatches on whatever the hardware finds. -/
def top (a : Lifo) (junk : MicroAddr) : MicroAddr := a.stack.headD junk

/-- The stack after the microword `crom` at the program counter. -/
def nextStack (a : Lifo) (crom : Microword) (i : Useq.In) : List MicroAddr :=
  if Useq.call crom i then a.pc :: a.stack
  else if Useq.ret crom then a.stack.tail
  else a.stack

/-- One clock of the unbounded sequencer over the microcode `rom`. -/
def next (rom : MicroAddr → Microword) (junk : MicroAddr) (a : Lifo) (i : Useq.In) : Lifo :=
  if i.clken then
    { pc := Useq.nextAddr (rom a.pc) (a.top junk) i
      stack := a.nextStack (rom a.pc) i }
  else a

/-- The unbounded sequencer as the shadow of the microsequencer. -/
def move (rom : MicroAddr → Microword) (a : Lifo) (s : Useq) (i : Useq.In) : Lifo :=
  a.next rom s.dispRet i

/-- Before the first microword nothing has been called. -/
def start : Lifo := { pc := 0, stack := [] }

def within (depth : Nat) (a : Lifo) : Prop := a.stack.length ≤ depth

theorem nextStack_move (a : Lifo) (crom : Microword) (i : Useq.In) :
    StackMove a.stack (a.nextStack crom i) := by
  unfold nextStack
  split
  · exact StackMove.push a.pc a.stack
  · split
    · exact StackMove.pop a.stack
    · exact StackMove.keep a.stack

theorem next_stackMove (rom : MicroAddr → Microword) (junk : MicroAddr) (a : Lifo)
    (i : Useq.In) : StackMove a.stack (a.next rom junk i).stack := by
  unfold next
  split
  · exact a.nextStack_move _ i
  · exact StackMove.keep a.stack

end Lifo

namespace Useq

variable {rom : MicroAddr → Microword}

/-! ## The refinement -/

/-- The registers of the microsequencer hold the state of the unbounded sequencer. -/
structure Refines (rom : MicroAddr → Microword) (s : Useq) (a : Lifo) : Prop where
  currAddr : s.currAddr = a.pc
  crom : s.crom = rom a.pc
  stack : Holds s.stack s.sp a.stack

/-- The registers after a clock with reset asserted and the sequencer enabled. -/
structure Reset (rom : MicroAddr → Microword) (s : Useq) : Prop where
  sp : s.sp = 15
  currAddr : s.currAddr = 0
  crom : s.crom = rom 0

theorem next_reset (s : Useq) {i : In} (hrst : i.rst = true) (hclk : i.clken = true) :
    Reset rom (next rom s i) where
  sp := by simp [next, nextSp, hrst]
  currAddr := by simp [next, nextCurrAddr, hrst]
  crom := by simp [next, addr, nextAddr, hrst, hclk]

theorem Reset.refines {s : Useq} (h : Reset rom s) : Refines rom s Lifo.start where
  currAddr := h.currAddr
  crom := h.crom
  stack := Holds.nil s.stack s.sp

/-- A stack that is not empty has its top on the return address lines. -/
theorem Refines.dispRet_eq {s : Useq} {a : Lifo} (h : Refines rom s a) :
    s.dispRet = a.top s.dispRet := by
  unfold Lifo.top
  cases hl : a.stack with
  | nil => rfl
  | cons r l =>
      have hholds := h.stack
      rw [hl] at hholds
      exact hholds.top

theorem Refines.addr_eq {s : Useq} {a : Lifo} (h : Refines rom s a) (i : In) :
    s.addr i = nextAddr (rom a.pc) (a.top s.dispRet) i := by
  unfold addr
  rw [h.crom, ← h.dispRet_eq]

/-- The pointer and the ring after one enabled clock. -/
theorem Refines.nextStack {s : Useq} {a : Lifo} {i : In} (h : Refines rom s a)
    (hrst : i.rst = false) (hclk : i.clken = true)
    (hdepth : (a.nextStack (rom a.pc) i).length ≤ 16) :
    Holds (s.nextStack i) (s.nextSp i) (a.nextStack (rom a.pc) i) := by
  unfold Useq.nextStack nextSp Lifo.nextStack at *
  rw [h.crom, hrst, hclk]
  by_cases hcall : call (rom a.pc) i = true
  · simp only [hcall, if_true, Bool.and_true, Bool.false_eq_true, if_false] at hdepth ⊢
    rw [h.currAddr]
    exact h.stack.push a.pc hdepth
  · by_cases hret : ret (rom a.pc) = true
    · simp only [hcall, hret, if_true, Bool.and_false, Bool.false_eq_true, if_false]
      exact h.stack.pop
    · simp only [hcall, hret, if_true, Bool.and_false, Bool.false_eq_true, if_false]
      exact h.stack

/-- One clock of the microsequencer is one clock of the unbounded sequencer. -/
theorem Refines.next {s : Useq} {a : Lifo} {i : In} (h : Refines rom s a)
    (hrst : i.rst = false) (hdepth : Lifo.within 16 (a.move rom s i)) :
    Refines rom (Useq.next rom s i) (a.move rom s i) := by
  by_cases hclk : i.clken = true
  · have hmove : a.move rom s i =
        { pc := nextAddr (rom a.pc) (a.top s.dispRet) i
          stack := a.nextStack (rom a.pc) i } := by
      simp [Lifo.move, Lifo.next, hclk]
    rw [hmove] at hdepth ⊢
    refine ⟨?_, ?_, ?_⟩
    · simp [Useq.next, nextCurrAddr, hrst, hclk, h.addr_eq]
    · simp [Useq.next, hclk, h.addr_eq]
    · exact h.nextStack hrst hclk hdepth
  · have hmove : a.move rom s i = a := by simp [Lifo.move, Lifo.next, hclk]
    have hnext : Useq.next rom s i = s := by
      simp [Useq.next, nextSp, nextCurrAddr, Useq.nextStack, hrst, hclk]
    rw [hmove, hnext]
    exact h

theorem follows_lifo (rom : MicroAddr → Microword) :
    Follows (next rom) (Lifo.move rom) (fun _ i => i.rst = false) (Lifo.within 16)
      (Refines rom) where
  step := fun _ _ _ hrst hdepth h => h.next hrst hdepth

/-! ## Returns -/

/-- The microword returns to the address on top of the stack: it dispatches on the
return address, its jump field is zero, and neither a call, a skip nor a page
failure interferes. -/
structure PlainReturn (crom : Microword) (i : In) : Prop where
  disp : cromDisp crom = 0o41
  jump : cromJ crom = 0
  call : cromCall crom = false
  skip : skipAddr crom i = 0
  pageFail : i.pageFail = false
  rst : i.rst = false
  clken : i.clken = true

theorem PlainReturn.ret {crom : Microword} {i : In} (h : PlainReturn crom i) :
    Useq.ret crom = true := by
  unfold Useq.ret
  rw [h.disp]
  decide

theorem PlainReturn.dispAddr {crom : Microword} {i : In} (h : PlainReturn crom i)
    (r : MicroAddr) : dispAddr crom r i = r := by
  have hbit : ∀ k, k ≤ 5 → bit crom (57 + k) = bit (0o41#6) k := by
    intro k hk
    rw [← bit_field crom (a := 57) (b := 62) (by omega) (by omega) (by omega)]
    exact congrArg (fun d : BitVec 6 => bit d k) h.disp
  have h40 : cromDispEn40 crom = false := by
    unfold cromDispEn40
    rw [hbit 0 (by omega)]
    decide
  have h20 : cromDispEn20 crom = true := by
    unfold cromDispEn20
    rw [hbit 1 (by omega)]
    decide
  have h10 : cromDispEn10 crom = true := by
    unfold cromDispEn10
    rw [hbit 2 (by omega)]
    decide
  have hselh : cromDispSelh crom = 0b01 := by
    have hf := field_field crom (a := 57) (b := 62) (c := 4) (d := 5) (by omega) (by omega)
      (by omega) (by omega)
    have hd : field (field crom 57 62) 4 5 = field (0o41#6) 4 5 :=
      congrArg (fun d : BitVec 6 => field d 4 5) h.disp
    exact (hf.symm.trans hd).trans (by decide)
  have hsel : cromDispSel crom = 0b001 := by
    have hf := field_field crom (a := 57) (b := 62) (c := 3) (d := 5) (by omega) (by omega)
      (by omega) (by omega)
    have hd : field (field crom 57 62) 3 5 = field (0o41#6) 3 5 :=
      congrArg (fun d : BitVec 6 => field d 3 5) h.disp
    exact (hf.symm.trans hd).trans (by decide)
  unfold Useq.dispAddr dispHigh dispLow dispLow10
  rw [h40, h20, h10, hselh, hsel]
  exact field_append (a := 7) (b := 3) r

/-- The next address is the one on top of the stack. -/
theorem PlainReturn.nextAddr {crom : Microword} {i : In} (h : PlainReturn crom i)
    (r : MicroAddr) : nextAddr crom r i = r := by
  unfold Useq.nextAddr
  rw [h.rst, h.pageFail, h.dispAddr, h.skip, h.jump]
  simp

/-- A plain return pops the stack and continues at the address popped. -/
theorem PlainReturn.next {a : Lifo} {i : In} (h : PlainReturn (rom a.pc) i) {r : MicroAddr}
    {l : List MicroAddr} (hstack : a.stack = r :: l) (junk : MicroAddr) :
    a.next rom junk i = { pc := r, stack := l } := by
  have hcall : Useq.call (rom a.pc) i = false := by
    unfold Useq.call
    rw [h.call, h.pageFail]
    rfl
  unfold Lifo.next Lifo.nextStack Lifo.top
  rw [h.clken, h.nextAddr, hcall, h.ret, hstack]
  rfl

/-- A page failure pushes the microword that failed, whatever that microword does. -/
theorem next_pageFail {a : Lifo} {i : In} (hclk : i.clken = true) (hrst : i.rst = false)
    (hfail : i.pageFail = true) (junk : MicroAddr) :
    a.next rom junk i = { pc := 0o7777, stack := a.pc :: a.stack } := by
  unfold Lifo.next Lifo.nextStack nextAddr Useq.call
  rw [hclk, hrst, hfail, Bool.or_true]
  rfl

/-! ## Transparency over whole runs -/

variable (rom) in
/-- The microsequencer after `t` clocks. -/
def useqAt (s : Useq) (i : Nat → In) (t : Nat) : Useq := run (next rom) s i t

variable (rom) in
/-- The unbounded sequencer that follows the microsequencer, after `t` clocks. -/
def lifoAt (s : Useq) (i : Nat → In) (t : Nat) : Lifo :=
  shadow (next rom) (Lifo.move rom) s Lifo.start i t

/-- A page failure at clock `t` whose handler, entered at clock `t + 1`, never pops
what the page failure pushed and ends at clock `t + 1 + n` in a return with a zero
jump field. -/
structure Handler (rom : MicroAddr → Microword) (s : Useq) (i : Nat → In) (t n : Nat) :
    Prop where
  clken : (i t).clken = true
  pageFail : (i t).pageFail = true
  inside : ∀ u, u ≤ n →
    (lifoAt rom s i (t + 1)).stack.length ≤ (lifoAt rom s i (t + 1 + u)).stack.length
  back : (lifoAt rom s i (t + 1 + n)).stack.length = (lifoAt rom s i (t + 1)).stack.length
  returns : PlainReturn (useqAt rom s i (t + 1 + n)).crom (i (t + 1 + n))

section Transparency

variable {s : Useq} {i : Nat → In}

theorem refines_run (hreset : Reset rom s) (hrst : ∀ t, (i t).rst = false)
    (hdepth : ∀ t, Lifo.within 16 (lifoAt rom s i t)) (t : Nat) :
    Refines rom (useqAt rom s i t) (lifoAt rom s i t) :=
  (follows_lifo rom).run hreset.refines hrst hdepth t

theorem lifoAt_pageFail (hrst : ∀ t, (i t).rst = false) {t : Nat} (hclk : (i t).clken = true)
    (hfail : (i t).pageFail = true) :
    lifoAt rom s i (t + 1) =
      { pc := 0o7777, stack := (lifoAt rom s i t).pc :: (lifoAt rom s i t).stack } :=
  next_pageFail hclk (hrst t) hfail _

/-- After the handler's return the unbounded sequencer is where the page failure
found it. -/
theorem Handler.lifoAt_eq {t n : Nat} (h : Handler rom s i t n)
    (hrst : ∀ t, (i t).rst = false)
    (href : Refines rom (useqAt rom s i (t + 1 + n)) (lifoAt rom s i (t + 1 + n))) :
    lifoAt rom s i (t + 1 + n + 1) = lifoAt rom s i t := by
  have hmoves : ∀ u, StackMove (lifoAt rom s i u).stack (lifoAt rom s i (u + 1)).stack :=
    fun u => Lifo.next_stackMove rom _ _ (i u)
  have hsame : (lifoAt rom s i (t + 1 + n)).stack = (lifoAt rom s i (t + 1)).stack :=
    stack_restored hmoves h.inside h.back
  rw [lifoAt_pageFail hrst h.clken h.pageFail] at hsame
  have hret := h.returns
  rw [href.crom] at hret
  exact hret.next hsame _

/-- From reset, as long as calls and page failures nest at most sixteen deep:
the micro-stack is an unbounded stack and the address register holds the address of
the microword being executed; a page failure pushes the address of the microword it
hits; and a page fail handler that ends in a return with a zero jump field leads
back to that microword with the stack it had. -/
theorem microsequencer_transparent (hreset : Reset rom s) (hrst : ∀ t, (i t).rst = false)
    (hdepth : ∀ t, Lifo.within 16 (lifoAt rom s i t)) (t : Nat) :
    Refines rom (useqAt rom s i t) (lifoAt rom s i t) ∧
    (useqAt rom s i t).crom = rom (useqAt rom s i t).currAddr ∧
    ((i t).clken = true → (i t).pageFail = true →
      (useqAt rom s i (t + 1)).currAddr = 0o7777 ∧
      (lifoAt rom s i (t + 1)).stack =
        (useqAt rom s i t).currAddr :: (lifoAt rom s i t).stack) ∧
    (∀ n, Handler rom s i t n →
      (useqAt rom s i (t + 1 + n + 1)).currAddr = (useqAt rom s i t).currAddr ∧
      (useqAt rom s i (t + 1 + n + 1)).crom = (useqAt rom s i t).crom ∧
      (lifoAt rom s i (t + 1 + n + 1)).stack = (lifoAt rom s i t).stack) := by
  have href := refines_run hreset hrst hdepth
  refine ⟨href t, ?_, ?_, ?_⟩
  · rw [(href t).crom, (href t).currAddr]
  · intro hclk hfail
    have hl : lifoAt rom s i (t + 1) =
        { pc := 0o7777, stack := (lifoAt rom s i t).pc :: (lifoAt rom s i t).stack } :=
      lifoAt_pageFail hrst hclk hfail
    rw [(href (t + 1)).currAddr, hl, (href t).currAddr]
    exact ⟨rfl, rfl⟩
  · intro n h
    have hl := h.lifoAt_eq hrst (href (t + 1 + n))
    rw [(href (t + 1 + n + 1)).currAddr, (href (t + 1 + n + 1)).crom, hl,
      (href t).currAddr, (href t).crom]
    exact ⟨rfl, rfl, rfl⟩

end Transparency

/-! ## A page failure at the reset microword -/

/-- No jump, no dispatch, no skip. -/
def loopWord : Microword := BitVec.ofNat 108 (7 <<< 48 ||| 7 <<< 42)

/-- `RETURN [0]`. -/
def returnWord : Microword := BitVec.ofNat 108 (0o41 <<< 45 ||| 7 <<< 42)

def loopRom (a : MicroAddr) : Microword := if a = 0o7777 then returnWord else loopWord

def loopStart : Useq := { crom := loopWord, sp := 15, currAddr := 0, stack := fun _ => 0 }

/-- A page failure at the first clock and none afterwards. -/
def failOnce : Nat → In
  | 0 => { (default : In) with clken := true, pageFail := true }
  | _ + 1 => { (default : In) with clken := true }

theorem failOnce_rst (t : Nat) : (failOnce t).rst = false := by
  cases t with
  | zero => rfl
  | succ t => rfl

theorem loopStart_reset : Reset loopRom loopStart where
  sp := rfl
  currAddr := rfl
  crom := by decide

theorem returnWord_plainReturn : PlainReturn returnWord (failOnce 1) where
  disp := by decide
  jump := by decide
  call := by decide
  skip := by decide
  pageFail := rfl
  rst := rfl
  clken := rfl

/-- The loop microword dispatches on nothing, so it does not see the return address. -/
theorem loopWord_dispAddr (r : MicroAddr) (i : In) : Useq.dispAddr loopWord r i = 0 := by
  have h40 : cromDispEn40 loopWord = false := by decide
  have h20 : cromDispEn20 loopWord = false := by decide
  have h10 : cromDispEn10 loopWord = false := by decide
  unfold Useq.dispAddr dispHigh dispLow dispLow10
  rw [h40, h20, h10]
  simp only [Bool.false_eq_true, if_false]
  decide

theorem loopWord_skipAddr (i : In) : skipAddr loopWord i = 0 := by
  have h40 : cromSkipEn40 loopWord = false := by decide
  have h20 : cromSkipEn20 loopWord = false := by decide
  have h10 : cromSkipEn10 loopWord = false := by decide
  unfold skipAddr skipMux
  rw [h40, h20, h10]
  rfl

theorem loopWord_next (junk : MicroAddr) (t : Nat) :
    Lifo.start.next loopRom junk (failOnce (t + 1)) = Lifo.start := by
  have hrom : loopRom Lifo.start.pc = loopWord := by decide
  unfold Lifo.next Lifo.nextStack Useq.nextAddr
  rw [hrom, loopWord_dispAddr, loopWord_skipAddr]
  rfl

theorem lifoAt_failOnce_one :
    lifoAt loopRom loopStart failOnce 1 = { pc := 0o7777, stack := [0] } :=
  lifoAt_pageFail failOnce_rst rfl rfl

theorem lifoAt_failOnce_two : lifoAt loopRom loopStart failOnce 2 = Lifo.start := by
  have hstep : lifoAt loopRom loopStart failOnce 2 =
      (lifoAt loopRom loopStart failOnce 1).next loopRom
        (useqAt loopRom loopStart failOnce 1).dispRet (failOnce 1) := rfl
  rw [hstep, lifoAt_failOnce_one]
  exact returnWord_plainReturn.next rfl _

theorem lifoAt_failOnce (t : Nat) : lifoAt loopRom loopStart failOnce (t + 2) = Lifo.start := by
  induction t with
  | zero => exact lifoAt_failOnce_two
  | succ t ih =>
      have hstep : lifoAt loopRom loopStart failOnce (t + 1 + 2) =
          (lifoAt loopRom loopStart failOnce (t + 2)).next loopRom
            (useqAt loopRom loopStart failOnce (t + 2)).dispRet (failOnce (t + 2)) := rfl
      rw [hstep, ih]
      exact loopWord_next _ (t + 1)

theorem microsequencer_transparent_failOnce :
    (useqAt loopRom loopStart failOnce 2).currAddr = 0 ∧
    (useqAt loopRom loopStart failOnce 2).crom = loopWord ∧
    (lifoAt loopRom loopStart failOnce 2).stack = [] := by
  have hdepth : ∀ t, Lifo.within 16 (lifoAt loopRom loopStart failOnce t) := by
    intro t
    match t with
    | 0 => exact Nat.zero_le _
    | 1 => rw [lifoAt_failOnce_one]; exact (by decide : 1 ≤ 16)
    | t + 2 => rw [lifoAt_failOnce]; exact Nat.zero_le _
  have hall := microsequencer_transparent loopStart_reset failOnce_rst hdepth 0
  refine hall.2.2.2 0 ⟨rfl, rfl, ?_, rfl, ?_⟩
  · intro u hu
    obtain rfl := Nat.le_zero.mp hu
    exact Nat.le_refl _
  · exact returnWord_plainReturn

end Useq

end KS10
