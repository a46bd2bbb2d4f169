import KS10.Cpu.Lockstep
import KS10.Clocked.Enable

/-!
# Is every reference checked?

A memory cycle that starts at one microword is checked at the next one that is
executed: that is what the flip-flop `pfEn` is for.  It is set by the start of a cycle
and clears itself at the next executed microword.  When that microword starts a cycle
as well, as the one does that takes an operand and prefetches the next instruction,
`pfEn` is cleared where it would have to be set, and the second cycle is not
checked.
-/

namespace KS10

open Clocked Microword DromWord

namespace Mmu

/-! ## What is to be shown -/

/-- A memory cycle starts: the cycle flags of the VMA register are loaded and one of
them is set. -/
def startsCycle (s : Mmu) (i : In) : Bool :=
  !i.rst && i.clken && memEn i && !s.pageFail i &&
    ((loadMem s.vmaReg i).read || (loadMem s.vmaReg i).wrTest || (loadMem s.vmaReg i).write)

/-- The microword executed next after clock `t` is executed at clock `e`. -/
structure NextExecuted (i : Nat → In) (t e : Nat) : Prop where
  first : FirstFrom (fun v => (i v).clken = true) (t + 1) e
  quiet : ∀ v, t < v → v ≤ e → (i v).rst = false

/-- What a check of the reference in the VMA register against the page table finds. -/
def verdict (s : Mmu) (i : In) : Option (BitVec 4) :=
  if s.translated i then
    if !bit (s.pageTable s.vmaReg.page) 0 then some 0o12
    else if s.vmaReg.user != bit (s.pageTable s.vmaReg.page) 3 then some 0o13
    else if s.vmaReg.wrTest && !bit (s.pageTable s.vmaReg.page) 1 then some 0o10
    else none
  else none

/-- An interrupt goes before the check. -/
def interrupted (s : Mmu) (i : In) : Bool :=
  s.intrEn && (i.nxmIntr || i.piIntr || i.timerIntr)

/-- Every cycle is checked at the microword executed next: an interrupt fails it, and
otherwise the dispatch is what the check finds.  A microword that fails starts no
other reference. -/
structure Checks (s : Mmu) (i : Nat → In) : Prop where
  dispatch : ∀ t e, (mmuAt s i t).startsCycle (i t) = true → NextExecuted i t e →
    (mmuAt s i e).interrupted (i e) = false →
    (mmuAt s i e).dispatch (i e) = (mmuAt s i e).verdict (i e)
  interrupt : ∀ t e, (mmuAt s i t).startsCycle (i t) = true → NextExecuted i t e →
    (mmuAt s i e).interrupted (i e) = true → (mmuAt s i e).pageFail (i e) = true
  holds : ∀ e, (i e).rst = false → (mmuAt s i e).pageFail (i e) = true →
    (mmuAt s i (e + 1)).vmaReg = (mmuAt s i e).vmaReg

/-! ## The check enable -/

section Step

variable {s : Mmu} {i : In}

/-- The page fail logic and the VMA register decode the start of a cycle alike. -/
theorem pfCycle_eq (s : Mmu) (i : In) : pfCycle i = (memEn i &&
    ((loadMem s.vmaReg i).read || (loadMem s.vmaReg i).wrTest || (loadMem s.vmaReg i).write)) := by
  unfold pfCycle loadMem
  cases memEn i with
  | false => rfl
  | true =>
      cases cromMemAread i.crom with
      | true => rfl
      | false =>
          cases cromMemDpFunc i.crom with
          | true => rfl
          | false => rfl

theorem startsCycle_iff : s.startsCycle i = true ↔
    i.rst = false ∧ i.clken = true ∧ s.pageFail i = false ∧ pfCycle i = true := by
  rw [pfCycle_eq s i]
  simp only [startsCycle, Bool.and_eq_true, Bool.not_eq_true']
  constructor
  · rintro ⟨⟨⟨⟨hrst, hclk⟩, hmem⟩, hfail⟩, hkind⟩
    exact ⟨hrst, hclk, hfail, hmem, hkind⟩
  · rintro ⟨hrst, hclk, hfail, hmem, hkind⟩
    exact ⟨⟨⟨⟨hrst, hclk⟩, hmem⟩, hfail⟩, hkind⟩

/-- The start of a cycle toggles the check enable. -/
theorem pfEn_of_startsCycle (h : s.startsCycle i = true) : (next s i).pfEn = !s.pfEn := by
  obtain ⟨hrst, hclk, -, hcycle⟩ := startsCycle_iff.mp h
  have hnext : (next s i).pfEn = s.nextPfEn i := rfl
  rw [hnext, nextPfEn, hrst, hclk, hcycle]
  cases s.pfEn with
  | true => rfl
  | false => rfl

theorem pfEn_of_disabled (hrst : i.rst = false) (hclk : i.clken = false) :
    (next s i).pfEn = s.pfEn := by
  rw [next_of_disabled hclk hrst]

/-- A page failure inhibits the load of the VMA register. -/
theorem vmaReg_of_pageFail (hrst : i.rst = false) (hfail : s.pageFail i = true) :
    (next s i).vmaReg = s.vmaReg := by
  have hnext : (next s i).vmaReg = s.nextVma i := rfl
  rw [hnext, nextVma, hrst, loads, hfail]
  simp

theorem pageFail_of_interrupted (h : s.interrupted i = true) : s.pageFail i = true := by
  simp only [interrupted, Bool.and_eq_true, Bool.or_eq_true] at h
  obtain ⟨hen, hsome⟩ := h
  unfold pageFail dispatch
  rw [hen]
  cases hnxm : i.nxmIntr with
  | true => rfl
  | false =>
      cases hpi : i.piIntr with
      | true => rfl
      | false =>
          rw [hnxm, hpi] at hsome
          have htimer : i.timerIntr = true := by simpa using hsome
          rw [htimer]
          cases s.pageInvalid i with
          | true => rfl
          | false => rfl

/-- In step with the page table, the enabled check finds what there is to find, and
the disabled one nothing. -/
theorem dispatch_eq (hno : s.interrupted i = false)
    (hstep : s.translated i = true → s.InStep) :
    s.dispatch i = if s.pfEn then s.verdict i else none := by
  have hnone (b : Bool) (hb : (i.nxmIntr || i.piIntr || i.timerIntr) = false ∨ s.intrEn = false)
      (hle : b = true → (i.nxmIntr || i.piIntr || i.timerIntr) = true) :
      (s.intrEn && b) = false := by
    cases hen : s.intrEn with
    | false => rfl
    | true =>
        cases b with
        | false => rfl
        | true =>
            rcases hb with hb | hb
            · rw [hle rfl] at hb
              cases hb
            · rw [hen] at hb
              cases hb
  have hcases : (i.nxmIntr || i.piIntr || i.timerIntr) = false ∨ s.intrEn = false := by
    rw [interrupted, Bool.and_eq_false_iff] at hno
    exact hno.symm
  have hnxm : (s.intrEn && i.nxmIntr) = false := hnone _ hcases (by simp +contextual)
  have hpi : (s.intrEn && i.piIntr) = false := hnone _ hcases (by simp +contextual)
  have htimer : (s.intrEn && i.timerIntr) = false := hnone _ hcases (by simp +contextual)
  unfold dispatch
  rw [hnxm, hpi, htimer]
  cases hen : s.pfEn with
  | false => simp
  | true =>
      cases htrans : s.translated i with
      | false => simp [verdict, pageInvalid, pageMismatch, pageWriteFail, htrans]
      | true =>
          have hentry : s.pageFlags ++ s.pageAddr = s.pageTable s.vmaReg.page := hstep htrans
          have hbit (k : Nat) (hk : k < 4) :
              bit (s.pageTable s.vmaReg.page) k = bit s.pageFlags k := by
            rw [← hentry, bit_append, if_neg (by omega)]
          have h0 := hbit 0 (by decide)
          have h1 := hbit 1 (by decide)
          have h3 := hbit 3 (by decide)
          simp [verdict, pageInvalid, pageMismatch, pageWriteFail, htrans, h0, h1, h3]

end Step

section Run

variable {s : Mmu} {i : Nat → In} {t e : Nat}

/-- At the microword executed next the check is enabled if it was not at the start of
the cycle. -/
theorem NextExecuted.pfEn (h : NextExecuted i t e)
    (hstart : (mmuAt s i t).startsCycle (i t) = true) :
    (mmuAt s i e).pfEn = !(mmuAt s i t).pfEn := by
  have hfirst : (mmuAt s i (t + 1)).pfEn = !(mmuAt s i t).pfEn := pfEn_of_startsCycle hstart
  refine stays_until (P := fun v => (mmuAt s i v).pfEn = !(mmuAt s i t).pfEn)
    (C := fun v => t < v ∧ v < e) (fun v hv hC => ?_) hfirst h.first.le
    fun v htv hve => ⟨htv, hve⟩
  have hclk : (i v).clken = false := by
    rw [← Bool.not_eq_true]
    exact h.first.none v hC.1 hC.2
  have hnext : (mmuAt s i (v + 1)).pfEn = (mmuAt s i v).pfEn :=
    pfEn_of_disabled (h.quiet v hC.1 (Nat.le_of_lt hC.2)) hclk
  exact hnext.trans hv

end Run

/-- Where each reference that is translated finds its page looked up last, the cycles
are checked in exactly those runs in which a cycle started while the check enable is
set, by the microword executed next after the start of another one, is interrupted or
has nothing to find. -/
theorem checks_iff (s : Mmu) (i : Nat → In)
    (hlooked : ∀ t e, (mmuAt s i t).startsCycle (i t) = true → NextExecuted i t e →
      (mmuAt s i e).translated (i e) = true → ∃ u, LookedUp s i e u) :
    Checks s i ↔ ∀ t e, (mmuAt s i t).startsCycle (i t) = true → NextExecuted i t e →
      (mmuAt s i t).pfEn = true →
      (mmuAt s i e).interrupted (i e) = true ∨ (mmuAt s i e).verdict (i e) = none := by
  have hdispatch {t e : Nat} (hstart : (mmuAt s i t).startsCycle (i t) = true)
      (hnext : NextExecuted i t e) (hno : (mmuAt s i e).interrupted (i e) = false) :
      (mmuAt s i e).dispatch (i e) =
        if (mmuAt s i t).pfEn then none else (mmuAt s i e).verdict (i e) := by
    rw [dispatch_eq hno fun htrans => ?_, hnext.pfEn hstart]
    · cases (mmuAt s i t).pfEn with
      | true => rfl
      | false => rfl
    · obtain ⟨u, hu⟩ := hlooked t e hstart hnext htrans
      exact inStep_of_lookedUp hu
  constructor
  · intro hchecks t e hstart hnext hen
    cases hno : (mmuAt s i e).interrupted (i e) with
    | true => exact Or.inl rfl
    | false =>
        have hfound := hchecks.dispatch t e hstart hnext hno
        rw [hdispatch hstart hnext hno, hen, if_pos rfl] at hfound
        exact Or.inr hfound.symm
  · intro hmeets
    refine ⟨fun t e hstart hnext hno => ?_, fun t e _ _ hint => pageFail_of_interrupted hint,
      fun e hrst hfail => vmaReg_of_pageFail hrst hfail⟩
    rw [hdispatch hstart hnext hno]
    cases hen : (mmuAt s i t).pfEn with
    | false => rfl
    | true =>
        rcases hmeets t e hstart hnext hen with hint | hnone
        · rw [hno] at hint
          cases hint
        · rw [hnone]
          rfl

/-- A read of page 2, and the microword after it. -/
def readOnce : Nat → In
  | 0 => pagedIn [76, 104, 106, 93] 2
  | 1 => pagedIn [] 0
  | _ => { pagedIn [] 0 with clken := false }

theorem readOnce_lookedUp : LookedUp pagedStart readOnce 1 0 where
  before := Nat.zero_lt_one
  lookup := by decide
  page := by decide
  last := fun v hv hv' => by omega
  kept := fun v _ hv => by
    obtain rfl : v = 0 := by omega
    decide

theorem checks_iff_readOnce : Checks pagedStart readOnce ↔
    ∀ t e, (mmuAt pagedStart readOnce t).startsCycle (readOnce t) = true →
      NextExecuted readOnce t e → (mmuAt pagedStart readOnce t).pfEn = true →
      (mmuAt pagedStart readOnce e).interrupted (readOnce e) = true ∨
        (mmuAt pagedStart readOnce e).verdict (readOnce e) = none := by
  refine checks_iff pagedStart readOnce fun t e hstart hnext _ => ?_
  match t with
  | 0 =>
      have hone : FirstFrom (fun v => (readOnce v).clken = true) (0 + 1) 1 :=
        FirstFrom.here (by decide)
      obtain rfl : e = 1 := hnext.first.unique hone
      exact ⟨0, readOnce_lookedUp⟩
  | 1 => exact absurd hstart (by decide)
  | _ + 2 => exact absurd (startsCycle_iff.mp hstart).2.1 Bool.false_ne_true

/-! ## An operand read and a prefetch

The first microword loads the VMA register with an address on page 2 and starts a
read.  The second one loads it with an address on page 1, which is not mapped, and
starts the next read at once. -/

def readThenPrefetch : Nat → In
  | 0 => pagedIn [76, 104, 106, 93] 2
  | 1 => pagedIn [76, 104, 106, 93, 92] 1
  | 2 => pagedIn [] 0
  | _ => { pagedIn [] 0 with clken := false }

theorem checks_fails : ¬ ∀ s i, Checks s i := by
  intro h
  have hnext : NextExecuted readThenPrefetch 1 2 := by
    refine ⟨FirstFrom.here (by decide), fun v hlt hle => ?_⟩
    obtain rfl : v = 2 := by omega
    decide
  have hfound := (h pagedStart readThenPrefetch).dispatch 1 2 (by decide) hnext (by decide)
  revert hfound
  decide

end Mmu

end KS10
