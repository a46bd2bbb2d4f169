import KS10.Console.Deposit
import KS10.Console.SaveFile

/-!
# Loading a program into the memory

What `loadCode` does to the KS10 is deposits and at last a write of the console instruction
register.  Performed on the backplane, they leave in the memory what the file says, for each word
that no other unit writes meanwhile, and the start instruction in the register (`loadFile_run`).
A word can be examined then (`examine_run`).
-/

namespace KS10

open Clocked Loader

/-! ## The memory -/

/-- The memory with the words of a file, the last one where there are several for an address. -/
def SavFile.load (writes : List (BitVec 18 × BitVec 36)) (m : BitVec 20 → BitVec 36) :
    BitVec 20 → BitVec 36 :=
  writes.foldl (fun m p => Function.update m (p.1.setWidth 20) p.2) m

namespace Loader

/-- The word `y`, which holds `v`, after an effect. -/
def Effect.word (y : BitVec 20) (v : BitVec 36) : Effect → BitVec 36
  | .writeMem addr data => if Backplane.memWord addr = y then data.setWidth 36 else v
  | .writeRegCIR _ => v

/-- The word `y` after the effects. -/
def word (y : BitVec 20) (effects : List Effect) (v : BitVec 36) : BitVec 36 :=
  effects.foldl (fun v f => f.word y v) v

/-- A word of 36 bits in 64. -/
theorem setWidth_setWidth (x : BitVec 36) : (x.setWidth 64).setWidth 36 = x := by
  apply BitVec.eq_of_getLsbD_eq
  intro k hk
  have hin : k < 64 := Nat.lt_trans hk (by decide)
  rw [BitVec.getLsbD_setWidth, BitVec.getLsbD_setWidth]
  simp only [hk, hin, decide_true, Bool.true_and]

theorem memWord_setWidth (a : BitVec 18) : Backplane.memWord (a.setWidth 64) = a.setWidth 20 := by
  apply BitVec.eq_of_getLsbD_eq
  intro k hk
  rw [Backplane.memWord, BitVec.getLsbD_extractLsb', BitVec.getLsbD_setWidth,
    BitVec.getLsbD_setWidth, Nat.zero_add]
  have hin : k < 64 := Nat.lt_trans hk (by decide)
  simp only [hk, hin, decide_true, Bool.true_and]

/-- The effects of a file are what it says. -/
theorem word_memEffect (y : BitVec 20) (writes : List (BitVec 18 × BitVec 36))
    (m : BitVec 20 → BitVec 36) :
    Loader.word y (writes.map memEffect) (m y) = SavFile.load writes m y := by
  induction writes generalizing m with
  | nil => rfl
  | cons p writes ih =>
      have hword : (memEffect p).word y (m y) = Function.update m (p.1.setWidth 20) p.2 y := by
        rw [memEffect, Effect.word, memWord_setWidth, setWidth_setWidth]
        by_cases h : p.1.setWidth 20 = y
        · subst h
          rw [if_pos rfl, Function.update_self]
        · rw [if_neg h, Function.update_of_ne (Ne.symm h)]
      have hload := ih (Function.update m (p.1.setWidth 20) p.2)
      rw [← hword] at hload
      exact hload

/-! ## The program -/

def Effect.program : Effect → Ks10 Unit
  | .writeMem addr data => Ks10.writeMem addr data
  | .writeRegCIR data => Ks10.writeRegCIR data

def program : List Effect → Ks10 Unit
  | [] => .ret ()
  | f :: effects => f.program >>= fun _ => program effects

theorem program_append (l l' : List Effect) :
    program (l ++ l') = program l >>= fun _ => program l' := by
  induction l with
  | nil => rfl
  | cons f l ih =>
      change (f.program >>= fun _ => program (l ++ l')) = _
      rw [ih]
      exact (Prog.bind_bind _ _ _).symm

end Loader

namespace Backplane

variable {s : Backplane} {i : Nat → In} {e : Nat}

section

variable {y : BitVec 20} {v : BitVec 36}
  (hother : ∀ c, c < e → ¬ (run next s i c).OtherWrites (i c) y)

include hother

/-- The console instruction register is loaded. -/
theorem writeRegCIR_triple (data : BitVec 64) : Triple console next s i e (Rest s i y v)
    (Ks10.writeRegCIR data).lower fun _ => Between s i fun t => ∃ regs : Csl.Regs,
      Ready regs y v (run next s i t) ∧ regs.regCir = data.setWidth 36 := by
  refine triple_rest_of fun regs => ?_
  refine triple_store hother (r := .cir) (by decide) ?_
  exact Triple.ret (ready_kept hother).stable fun t h =>
    ⟨h.1, _, h.2, Board.setField_bytes regs.regCir data⟩

theorem program_triple (hfree : Yields s i maxBusy) (effects : List Effect) :
    Triple console next s i e (Rest s i y v) (Loader.program effects).lower
      fun _ => Rest s i y (Loader.word y effects v) := by
  induction effects generalizing v with
  | nil => exact Triple.ret (rest_kept hother).stable fun t h => h
  | cons f effects ih =>
      change Triple console next s i e _ (Ks10.lower (f.program >>= fun _ => _)) _
      rw [Ks10.lower_bind]
      refine Triple.bind (Q := fun _ => Rest s i y (f.word y v)) ?_ fun _ => ih
      cases f with
      | writeMem addr data => exact writeMem_triple hother hfree addr data
      | writeRegCIR data =>
          refine (writeRegCIR_triple hother data).mono (fun t h => h) ?_
          rintro _ t ⟨hquiet, regs, hready, -⟩
          exact ⟨hquiet, regs, hready⟩

/-- The end of a file. -/
theorem start_triple (w : BitVec 36) : Triple console next s i e (Rest s i y v)
    (program (startEffects (some w))).lower fun _ => Between s i fun t => ∃ regs : Csl.Regs,
      Ready regs y v (run next s i t) ∧ (SavFile.lh w = 0o254000 → regs.regCir = w) := by
  by_cases hw : SavFile.lh w = 0o254000
  · have hstart : program (startEffects (some w)) =
        Ks10.writeRegCIR (w.setWidth 64) >>= fun _ => .ret () := by
      rw [startEffects, if_pos hw]
      rfl
    rw [hstart, Ks10.lower_bind]
    refine Triple.bind (writeRegCIR_triple hother _) fun _ => Triple.ret (Kept.stable ?_) ?_
    · rintro c hc hwr ⟨regs, hready, hcir⟩
      exact ⟨regs, ready_kept hother c hc hwr hready, hcir⟩
    · rintro t ⟨hquiet, regs, hready, hcir⟩
      refine ⟨hquiet, regs, hready, fun _ => ?_⟩
      rw [hcir, setWidth_setWidth]
  · have hstart : program (startEffects (some w)) = .ret () := by
      rw [startEffects, if_neg hw]
      rfl
    rw [hstart]
    refine Triple.ret (rest_kept hother).stable ?_
    rintro t ⟨hquiet, regs, hready⟩
    exact ⟨hquiet, regs, hready, fun h => absurd h hw⟩

end

/-- The effects of a complete file. -/
theorem loadCode_effects (stack : Nat → Nat → BitVec 8) {content : List (BitVec 8)} {w : BitVec 36}
    (hstart : (SavFile.contents (SavFile.words content)).start = some w) :
    ∃ n, (loadCode stack (some content) n).stage = .done true ∧
      (loadCode stack (some content) n).effects =
        (SavFile.contents (SavFile.words content)).writes.map memEffect ++
          startEffects (some w) := by
  obtain ⟨n, c', hrun⟩ := @run_contents stack content 0 [] w hstart
  have hload : loadCode stack (some content) n = _ := hrun
  refine ⟨n, ?_, ?_⟩
  · rw [hload]
  · rw [hload]
    rfl

/-! ## A machine where only the console is at work -/

/-- The processor and the adapters do not request the bus. -/
def Alone (x : In) : Prop := x.cpuReqI = false ∧ ∀ n, x.ubaReqI n = false

def resting : In where
  conWrN := true
  conBleN := true
  conBheN := true
  conAddr := 0
  conData := 0
  cpuHalt := false
  cpuRun := false
  cpuCont := false
  cpuExec := false
  cpuReqI := false
  cpuAddrI := 0
  cpuDataI := 0
  ubaReqI _ := false
  ubaAckI _ := false
  ubaAddrI _ := 0
  ubaDataI _ := 0

theorem alone_grant {x : In} (h : Alone x) {r : Arb.Reqs} (hcsl : r.cslReqI = s.csl.busReqO)
    (hcpu : r.cpuReqI = x.cpuReqI) (huba : r.ubaReqI = x.ubaReqI) :
    Arb.grant r = if s.csl.busReqO then .csl else .none := by
  rw [Arb.grant, hcsl, hcpu, huba, h.1, h.2 0, h.2 1, h.2 2, h.2 3]
  rfl

theorem alone_other {x : In} (h : Alone x) (y : BitVec 20) : ¬ s.OtherWrites x y := by
  rintro ⟨hreq, hwrite, -⟩
  have hgrant := alone_grant (r := (s.driven x).toReqs) (s := s) h rfl rfl rfl
  rw [hreq] at hgrant
  have haddr : (s.memIn x).busAddrI = 0 := by
    change Arb.memAddrO (s.driven x) = 0
    rw [Arb.memAddrO, hgrant]
    rfl
  rw [Mem.memWrite, Mem.busWrite, haddr] at hwrite
  cases hwrite

theorem alone_free {x : In} (h : Alone x) : s.ioBusy x = false := by
  have hgrant := alone_grant (r := (s.arb x).toReqs) (s := s) h rfl rfl rfl
  have haddr : (s.cslIn x).busAddrI = 0 := by
    change Arb.cslAddrO (s.arb x) = 0
    rw [Arb.cslAddrO, hgrant]
    cases s.csl.busReqO with
    | true => rfl
    | false => rfl
  rw [ioBusy, haddr]
  rfl

/-- The microcontroller can perform every program then. -/
theorem drivable : console.Drivable Alone where
  idle := ⟨resting, rfl, fun _ => rfl⟩
  read s addr := ⟨{ resting with conAddr := addr }, _, ⟨rfl, fun _ => rfl⟩, rfl, rfl, rfl⟩
  write addr v := by
    refine ⟨3, fun t => { resting with
      conWrN := t != 0, conBleN := t != 0, conBheN := t != 0, conAddr := addr, conData := v },
      fun t => ⟨rfl, fun _ => rfl⟩, 1, rfl, ?_⟩
    constructor
    case pos => exact Nat.one_pos
    case low =>
      intro k hk
      obtain rfl : k = 0 := by omega
      exact ⟨rfl, rfl, rfl⟩
    case high =>
      intro k hk _
      obtain ⟨m, rfl⟩ := Nat.exists_eq_add_of_le' hk
      change (0 + (m + 1) != 0) = true
      rw [Nat.zero_add]
      rfl
    case held => exact fun _ _ => ⟨rfl, rfl⟩
  shift i j t t' c addr v h hwrites := by
    obtain ⟨n, rfl, hs⟩ := hwrites
    have hsame (k : Nat) (hk : k < n + 2) : j (c + t + k) = i (t + k) := by
      rw [Nat.add_assoc]
      exact h (t + k) (Nat.le_add_right t k) (by omega)
    refine ⟨n, by omega, hs.pos, fun k hk => ?_, fun k hk hk' => ?_, fun k hk => ?_⟩
    · rw [hsame k (Nat.lt_add_right 2 hk)]
      exact hs.low k hk
    · rw [hsame k hk']
      exact hs.high k hk hk'
    · rw [hsame k hk]
      exact hs.held k hk

/-- The memory is empty, and CSL is idle. -/
def empty : Backplane := ⟨Csl.clear, ⟨fun _ => 0, false, true, true⟩⟩

/-! ## Load and examine -/

/-- A complete file is loaded: in each word of the memory that no other unit writes meanwhile is
what the file says, or what was there before; and a start instruction is in the console
instruction register. -/
theorem loadFile_run (stack : Nat → Nat → BitVec 8) {content : List (BitVec 8)} {w : BitVec 36}
    (hstart : (SavFile.contents (SavFile.words content)).start = some w) :
    ∃ n, (loadCode stack (some content) n).stage = .done true ∧
      ∀ (s : Backplane) (i : Nat → In) (u : Nat), s.csl.state = .idle → Quiet s →
        Yields s i maxBusy →
        Performs console next s i (program (loadCode stack (some content) n).effects).lower 0 () u →
        ∀ y, (∀ c, c < u → ¬ (run next s i c).OtherWrites (i c) y) →
          (run next s i u).mem.ssram y =
              SavFile.load (SavFile.contents (SavFile.words content)).writes s.mem.ssram y ∧
            (SavFile.lh w = 0o254000 → (run next s i u).csl.regCir = w) := by
  obtain ⟨n, hdone, heffects⟩ := loadCode_effects stack hstart
  refine ⟨n, hdone, fun s i u hidle hquiet hfree hperf y hother => ?_⟩
  have hrest : Rest s i y (s.mem.ssram y) 0 := ⟨hquiet, s.csl.toRegs, hidle, rfl, rfl⟩
  rw [heffects, program_append, Ks10.lower_bind] at hperf
  obtain ⟨⟨⟩, t, hwrites, hregs⟩ := hperf.split
  have hmem := program_triple hother hfree _ 0 () t hregs.le hwrites hrest
  rw [word_memEffect] at hmem
  obtain ⟨-, regs, hready, hcir⟩ :=
    start_triple hother w t () u (Nat.le_refl u) hregs hmem
  refine ⟨hready.word, fun hw => ?_⟩
  have hregCir : (run next s i u).csl.regCir = regs.regCir :=
    congrArg Csl.Regs.regCir hready.regs
  rw [hregCir, hcir hw]

/-- The word 5 for the address 1000, and a jump there. -/
def smallFile : List (BitVec 8) :=
  [0x7f, 0x7f, 0x78, 0x01, 0xff, 0, 0, 0, 0, 0x82, 0x2b, 0, 0, 0x02, 0]

theorem contents_smallFile : SavFile.contents (SavFile.words smallFile) =
    ⟨[(0o1000, 5)], some 0o254000001000⟩ := by
  have hwords : SavFile.words smallFile = [0o777777000777, 5, 0o254000001000] := by decide
  rw [hwords, SavFile.contents_record (by decide) (by decide)]
  change SavFile.Contents.mk (_ ++ (SavFile.contents [0o254000001000]).writes)
    (SavFile.contents [0o254000001000]).start = _
  rw [SavFile.contents_start _ (by decide)]
  rfl

theorem loadFile_small : ∃ (n : Nat) (i : Nat → In) (u : Nat),
    (loadCode (fun _ _ => 0) (some smallFile) n).stage = .done true ∧
      (run next empty i u).mem.ssram 0o1000 = 5 ∧
      (run next empty i u).csl.regCir = 0o254000001000 := by
  have hstart : (SavFile.contents (SavFile.words smallFile)).start = some 0o254000001000 := by
    rw [contents_smallFile]
  obtain ⟨n, hdone, hload⟩ := loadFile_run (fun _ _ => 0) hstart
  obtain ⟨i, halone, ⟨⟩, u, hperf⟩ := Performs.exists_inputs drivable next
    (program (loadCode (fun _ _ => 0) (some smallFile) n).effects).lower empty
  obtain ⟨hword, hcir⟩ := hload empty i u rfl rfl
    (fun c => ⟨c, Nat.le_refl c, Nat.lt_add_of_pos_right (by decide), alone_free (halone c)⟩)
    hperf 0o1000
    fun c _ => alone_other (halone c) _
  rw [contents_smallFile] at hword
  exact ⟨n, i, u, hdone, hword, hcir (by decide)⟩

/-- An examine after any deposits returns the word that is there, if no other unit has written it
meanwhile, unless a collision has lost it. -/
theorem examine_run {u : Nat} {effects : List Effect} {addr a : BitVec 64}
    (hidle : s.csl.state = .idle) (hquiet : Quiet s) (hfree : Yields s i maxBusy)
    (hperf : Performs console next s i
      (Ks10.lower (program effects >>= fun _ => Ks10.readMem addr)) 0 a u)
    (hother : ∀ c, c < u → ¬ (run next s i c).OtherWrites (i c) (memWord addr)) :
    a = (Loader.word (memWord addr) effects (s.mem.ssram (memWord addr))).setWidth 64 ∨
      ∃ c, c < u ∧ Collision s i c := by
  have hrest : Rest s i (memWord addr) (s.mem.ssram (memWord addr)) 0 :=
    ⟨hquiet, s.csl.toRegs, hidle, rfl, rfl⟩
  rw [Ks10.lower_bind] at hperf
  obtain ⟨⟨⟩, t, hdeposits, hexamine⟩ := hperf.split
  have hmem := program_triple hother hfree _ 0 () t hexamine.le hdeposits hrest
  exact (readMem_triple hother hfree addr t a u (Nat.le_refl u) hexamine hmem).2 rfl

/-- The word 7 for the address 20. -/
theorem examine_seven : ∃ (i : Nat → In) (a : BitVec 64) (u : Nat),
    Performs console next empty i
      (Ks10.lower (program [.writeMem 0o20 7] >>= fun _ => Ks10.readMem 0o20)) 0 a u ∧
      (a = 7 ∨ ∃ c, c < u ∧ Collision empty i c) := by
  obtain ⟨i, halone, a, u, hperf⟩ := Performs.exists_inputs drivable next
    (Ks10.lower (program [.writeMem 0o20 7] >>= fun _ => Ks10.readMem 0o20)) empty
  exact ⟨i, a, u, hperf, examine_run (s := empty) rfl rfl
    (fun c => ⟨c, Nat.le_refl c, Nat.lt_add_of_pos_right (by decide), alone_free (halone c)⟩) hperf
    fun c _ => alone_other (halone c) _⟩

end Backplane

end KS10
