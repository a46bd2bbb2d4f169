import KS10.Bus.Cycles
import KS10.Clocked.Driver
import KS10.Console.Registers

/-!
# The accesses of the console microcontroller

The microcontroller reaches CSL over a bus of 16 bits.  The write strobe comes to CSL through two
flip-flops, and the address and the data have to stay until it is through (`Backplane.Strobes`).
A register of 64 bits is four halfwords, the low one first (`Ks10.lower`).

Between two accesses no strobe is on its way (`Backplane.Quiet`).  So a write is two clocks in
which CSL sees nothing, and then clocks that all write the same halfword
(`Backplane.writes_induct`).
-/

namespace KS10

open Clocked

/-! ## Writes of a halfword -/

namespace Csl

/-- A write on both byte lanes. -/
def put (regs : Regs) (addr : BitVec 8) (v : BitVec 16) : Regs :=
  writeLo (writeHi regs addr v) addr v

/-- A field that is written twice holds what was written. -/
theorem setField_twice {w : Nat} (x : BitVec w) {a b : Nat} (v : BitVec (b - a + 1)) (hab : a ≤ b)
    (hb : b < w) : setField (setField x a b v) a b v = setField x a b v := by
  apply BitVec.eq_of_getLsbD_eq
  intro k hk
  rw [getLsbD_setField _ _ hab hb hk, getLsbD_setField _ _ hab hb hk]
  split_ifs with hin
  · rfl
  · rfl

theorem setField_pair_twice {w : Nat} (x : BitVec w) {a b c d : Nat} (v : BitVec (b - a + 1))
    (v' : BitVec (d - c + 1)) (hab : a ≤ b) (hb : b < w) (hcd : c ≤ d) (hd : d < w) :
    setField (setField (setField (setField x a b v) c d v') a b v) c d v' =
      setField (setField x a b v) c d v' := by
  apply BitVec.eq_of_getLsbD_eq
  intro k hk
  rw [getLsbD_setField _ _ hcd hd hk, getLsbD_setField _ _ hab hb hk,
    getLsbD_setField _ _ hcd hd hk, getLsbD_setField _ _ hab hb hk]
  split_ifs with hin hout
  · rfl
  · rfl
  · rfl

/-- A halfword that is written twice is written. -/
theorem put_put (regs : Regs) (addr : BitVec 8) (v : BitVec 16) :
    put (put regs addr v) addr v = put regs addr v := by
  have hlow (x : BitVec 36) := setField_pair_twice x (a := 20) (b := 27) (c := 28) (d := 35)
    (hiByte v) (loByte v) (by decide) (by decide) (by decide) (by decide)
  have hmid (x : BitVec 36) := setField_pair_twice x (a := 4) (b := 11) (c := 12) (d := 19)
    (hiByte v) (loByte v) (by decide) (by decide) (by decide) (by decide)
  have hhigh (x : BitVec 36) :=
    setField_twice x (a := 0) (b := 3) (loNibble v) (by decide) (by decide)
  by_cases h00 : addr = 0x00
  · subst h00
    exact congrArg (fun x => { regs with regAddr := x }) (hlow regs.regAddr)
  by_cases h02 : addr = 0x02
  · subst h02
    exact congrArg (fun x => { regs with regAddr := x }) (hmid regs.regAddr)
  by_cases h04 : addr = 0x04
  · subst h04
    exact congrArg (fun x => { regs with regAddr := x }) (hhigh regs.regAddr)
  by_cases h08 : addr = 0x08
  · subst h08
    exact congrArg (fun x => { regs with regData := x }) (hlow regs.regData)
  by_cases h0a : addr = 0x0a
  · subst h0a
    exact congrArg (fun x => { regs with regData := x }) (hmid regs.regData)
  by_cases h0c : addr = 0x0c
  · subst h0c
    exact congrArg (fun x => { regs with regData := x }) (hhigh regs.regData)
  by_cases h10 : addr = 0x10
  · subst h10
    rfl
  by_cases h18 : addr = 0x18
  · subst h18
    exact congrArg (fun x => { regs with regCir := x }) (hlow regs.regCir)
  by_cases h1a : addr = 0x1a
  · subst h1a
    exact congrArg (fun x => { regs with regCir := x }) (hmid regs.regCir)
  by_cases h1c : addr = 0x1c
  · subst h1c
    exact congrArg (fun x => { regs with regCir := x }) (hhigh regs.regCir)
  · -- The register is one of a device or of the debugger, or none.
    have hnone (r : Regs) : put r addr v = r := by
      rw [put, writeHi, writeLo, if_neg h00, if_neg h02, if_neg h04, if_neg h08, if_neg h0a,
        if_neg h0c, if_neg h10, if_neg h18, if_neg h1a, if_neg h1c, if_neg h00, if_neg h02,
        if_neg h08, if_neg h0a, if_neg h10, if_neg h18, if_neg h1a]
    rw [hnone]

/-- CSL sees a write of the halfword `v` to the address `addr`. -/
structure Putting (s : Csl) (i : In) (addr : BitVec 8) (v : BitVec 16) : Prop where
  wr : s.cslWr = true
  ble : s.cslBle = true
  bhe : s.cslBhe = true
  addr : cslAddr i = addr
  data : i.conData = v

variable {s : Csl} {i : In} {addr : BitVec 8} {v : BitVec 16}

namespace Putting

theorem written (h : Putting s i addr v) : s.written i = put s.toRegs addr v := by
  rw [Csl.written, h.ble, h.bhe, h.addr, h.data, if_pos rfl, if_pos rfl, put]

theorem nextRegs (h : Putting s i addr v) : s.nextRegs i = put s.toRegs addr v := by
  rw [Csl.nextRegs, if_pos h.wr, h.written]

/-- The write is one of the GO bit. -/
theorem cslGo (h : Putting s i addr v) : s.cslGo i = (addr == 0x12 && v.getLsbD 0) := by
  rw [Csl.cslGo, h.wr, h.ble, h.addr, h.data, Bool.true_and, Bool.and_true]

end Putting

end Csl

/-! ## The bus of the microcontroller -/

namespace Backplane

/-- The write strobe is low for `n` clocks, and address and data stay until it is through. -/
structure Strobes (i : Nat → In) (t n : Nat) (addr : BitVec 8) (v : BitVec 16) : Prop where
  pos : 0 < n
  low : ∀ k, k < n → (i (t + k)).conWrN = false ∧ (i (t + k)).conBleN = false ∧
    (i (t + k)).conBheN = false
  high : ∀ k, n ≤ k → k < n + 2 → (i (t + k)).conWrN = true
  held : ∀ k, k < n + 2 → (i (t + k)).conAddr = addr ∧ (i (t + k)).conData = v

/-- The bus of the microcontroller. -/
def console : Port Backplane In (BitVec 8) (BitVec 16) where
  rests i := i.conWrN = true
  reads s i addr v := i.conWrN = true ∧ i.conAddr = addr ∧ s.dout i = v
  writes i t t' addr v := ∃ n, t' = t + n + 2 ∧ Strobes i t n addr v

/-- No write strobe is on its way. -/
def Quiet (s : Backplane) : Prop := s.csl.syncWr = Sync.clear

theorem Quiet.wr {s : Backplane} (h : Quiet s) : s.csl.cslWr = false := by
  rw [Csl.cslWr, h]
  rfl

variable {s : Backplane} {i : Nat → In} {e : Nat}

theorem quiet_next {c : Nat} (h : Quiet (run next s i c)) (hwr : (i c).conWrN = true) :
    Quiet (run next s i (c + 1)) := by
  have hsync : (run next s i (c + 1)).csl.syncWr =
      (run next s i c).csl.syncWr.next (!(i c).conWrN) := rfl
  rw [Quiet, hsync, h, hwr]
  rfl

/-- The strobe of two clocks before. -/
theorem cslWr_two (c : Nat) : (run next s i (c + 2)).csl.cslWr = !(i c).conWrN := rfl

theorem cslBle_two (c : Nat) : (run next s i (c + 2)).csl.cslBle = !(i c).conBleN := rfl

theorem cslBhe_two (c : Nat) : (run next s i (c + 2)).csl.cslBhe = !(i c).conBheN := rfl

/-- What a write keeps: `P` as long as CSL sees nothing, and `P'` from the first clock on in which
it sees the halfword. -/
theorem writes_induct {P P' : Nat → Prop} {addr : BitVec 8} {v : BitVec 16}
    (hpre : ∀ c, c < e → (run next s i c).csl.cslWr = false → P c → P (c + 1))
    (hput : ∀ c, c < e → Csl.Putting (run next s i c).csl ((run next s i c).cslIn (i c)) addr v →
      P c ∨ P' c → P' (c + 1))
    (heven : addr &&& 0xfe = addr) {t t' : Nat} (he : t' ≤ e)
    (hwrites : console.writes i t t' addr v) (hquiet : Quiet (run next s i t)) (hP : P t) :
    Quiet (run next s i t') ∧ P' t' := by
  obtain ⟨n, rfl, hs⟩ := hwrites
  have hone : (run next s i (t + 1)).csl.cslWr = false := by
    have hsync : (run next s i (t + 1)).csl.cslWr = (run next s i t).csl.syncWr.d := rfl
    rw [hsync, hquiet]
    rfl
  have hseen (k : Nat) (hk : k < n) : Csl.Putting (run next s i (t + 2 + k)).csl
      ((run next s i (t + 2 + k)).cslIn (i (t + 2 + k))) addr v := by
    obtain ⟨hwr, hble, hbhe⟩ := hs.low k hk
    have hheld := hs.held (k + 2) (Nat.add_lt_add_right hk 2)
    have hclock : t + 2 + k = t + k + 2 := Nat.add_right_comm t 2 k
    rw [hclock]
    constructor
    case wr => rw [cslWr_two, hwr]; rfl
    case ble => rw [cslBle_two, hble]; rfl
    case bhe => rw [cslBhe_two, hbhe]; rfl
    case addr =>
      have hcon : Csl.cslAddr ((run next s i (t + k + 2)).cslIn (i (t + k + 2))) =
          (i (t + k + 2)).conAddr &&& 0xfe := rfl
      rw [hcon, Nat.add_assoc t k 2, hheld.1, heven]
    case data => exact hheld.2
  have hstart : P (t + 2) := by
    have hfirst : P (t + 1) := hpre t (by omega) hquiet.wr hP
    exact hpre (t + 1) (by omega) hone hfirst
  have hall (k : Nat) (hk : k < n) : P' (t + 2 + k + 1) := by
    induction k with
    | zero => exact hput (t + 2) (by omega) (hseen 0 hk) (.inl hstart)
    | succ k ih =>
        have hlast := ih (Nat.lt_of_succ_lt hk)
        exact hput (t + 2 + (k + 1)) (by omega) (hseen (k + 1) hk) (.inr hlast)
  obtain ⟨m, rfl⟩ := Nat.exists_eq_add_of_lt hs.pos
  constructor
  · have hd : (run next s i (t + (0 + m + 1) + 2)).csl.syncWr =
        ⟨!(i (t + (0 + m + 1) + 1)).conWrN, !(i (t + (0 + m + 1))).conWrN⟩ := rfl
    rw [Quiet, hd, hs.high (0 + m + 1) (Nat.le_refl _) (by omega),
      Nat.add_assoc t (0 + m + 1) 1, hs.high (0 + m + 1 + 1) (by omega) (by omega)]
    rfl
  · have hlast := hall m (by omega)
    have hclock : t + 2 + m + 1 = t + (0 + m + 1) + 2 := by omega
    rwa [hclock] at hlast

/-! ## Rules for the accesses -/

/-- It holds between two accesses. -/
def Between (s : Backplane) (i : Nat → In) (P : Nat → Prop) (t : Nat) : Prop :=
  Quiet (run next s i t) ∧ P t

/-- A clock in which CSL sees no write keeps it. -/
def Kept (s : Backplane) (i : Nat → In) (e : Nat) (P : Nat → Prop) : Prop :=
  ∀ c, c < e → (run next s i c).csl.cslWr = false → P c → P (c + 1)

variable {α : Type} {P P' : Nat → Prop} {Q : α → Nat → Prop}

theorem Kept.stable (h : Kept s i e P) : Stable console i e (Between s i P) := by
  intro t ht hrest hP
  exact ⟨quiet_next hP.1 hrest, h t ht hP.1.wr hP.2⟩

/-- A write of a halfword. -/
theorem triple_write {addr : BitVec 8} (heven : addr &&& 0xfe = addr) {v : BitVec 16}
    {k : Prog (BitVec 8) (BitVec 16) α} (hkept : Kept s i e P)
    (hput : ∀ c, c < e → Csl.Putting (run next s i c).csl ((run next s i c).cslIn (i c)) addr v →
      P c ∨ P' c → P' (c + 1))
    (hk : Triple console next s i e (Between s i P') k Q) :
    Triple console next s i e (Between s i P) (.write addr v k) Q := by
  refine Triple.write hkept.stable ?_ hk
  intro t t' ht' hP hwrites
  exact writes_induct hkept hput heven ht' hwrites hP.1 hP.2

/-- A read of a halfword. -/
theorem triple_read {addr : BitVec 8} (heven : addr &&& 0xfe = addr)
    {k : BitVec 16 → Prog (BitVec 8) (BitVec 16) α}
    {R : BitVec 16 → Nat → Prop} (hkept : Kept s i e P)
    (hread : ∀ c, c < e → (run next s i c).csl.cslWr = false →
      Csl.cslAddr ((run next s i c).cslIn (i c)) = addr → P c →
        R ((run next s i c).dout (i c)) (c + 1))
    (hk : ∀ v, Triple console next s i e (Between s i (R v)) (k v) Q) :
    Triple console next s i e (Between s i P) (.read addr k) Q := by
  refine Triple.read hkept.stable ?_ hk
  rintro t v ht hP ⟨hwr, hcon, rfl⟩
  have haddr : Csl.cslAddr ((run next s i t).cslIn (i t)) = addr := by
    have hcsl : Csl.cslAddr ((run next s i t).cslIn (i t)) = (i t).conAddr &&& 0xfe := rfl
    rw [hcsl, hcon, heven]
  exact ⟨quiet_next hP.1 hwr, hread t ht hP.1.wr haddr hP.2⟩

end Backplane

/-! ## Registers of 64 bits -/

/-- The registers are at even addresses. -/
theorem Reg.even (r : Reg) : r.base &&& 0xfe = r.base ∧ (r.base + 2) &&& 0xfe = r.base + 2 ∧
    (r.base + 4) &&& 0xfe = r.base + 4 ∧ (r.base + 6) &&& 0xfe = r.base + 6 := by
  cases r with
  | addr => decide
  | data => decide
  | stat => decide
  | cir => decide

namespace Ks10

/-- The accesses of the microcontroller for the accesses of a program. -/
def lower {α : Type} : Ks10 α → Prog (BitVec 8) (BitVec 16) α
  | .ret a => .ret a
  | .read r k =>
      .read r.base fun v0 => .read (r.base + 2) fun v2 => .read (r.base + 4) fun v4 =>
        .read (r.base + 6) fun v6 => lower (k (v6 ++ v4 ++ v2 ++ v0))
  | .write r v k =>
      .write r.base (v.extractLsb' 0 16) (.write (r.base + 2) (v.extractLsb' 16 16)
        (.write (r.base + 4) (v.extractLsb' 32 16)
          (.write (r.base + 6) (v.extractLsb' 48 16) (lower k))))

theorem lower_bind {α β : Type} (p : Ks10 α) (f : α → Ks10 β) :
    lower (p >>= f) = lower p >>= fun a => lower (f a) := by
  induction p with
  | ret a => rfl
  | read r k ih =>
      simp only [Prog.read_bind, lower, ih]
  | write r v k ih =>
      simp only [Prog.write_bind, lower, ih]

end Ks10

end KS10
