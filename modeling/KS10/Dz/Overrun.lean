import KS10.Dz.Silo

/-!
# Overruns of the receive silo

The source says of the silo that when it is full its last character is replaced with the
current character, and the overrun bit is asserted.  `Rbuf.place` is the queue that this
describes: the characters with their overrun bits, where the mark goes to the character that
took the place of a lost one.

The silo follows the queue as long as it loses no character (`Rbuf.marks_run`).  A character
that finds the silo full goes into the spare cell of the ring, where the next one overwrites
it, and the overrun flag, which goes with the next character, is reset a clock after the
silo has moved on.  A character that comes in that clock gets the mark, a later one does not.
So the first character that finds the silo full breaks the queue.  A character that comes in
the clock in which a read is over is not stored either.
-/

namespace KS10

open Clocked

namespace Rbuf

/-! ## The queue -/

/-- The character that arrives, with the overrun bit `ovre`. -/
def entry (i : In) (ovre : Bool) : BitVec 15 :=
  BitVec.ofBool ovre ++ BitVec.ofBool i.uartRxFrme ++ BitVec.ofBool i.uartRxPare ++ 0#1
    ++ BitVec.ofNat 3 i.scan ++ i.uartRxData

def ovre (c : BitVec 15) : Bool := c.getLsbD 14

/-- The number of characters in a full silo. -/
def capacity : Nat := fifoSize - 1

/-- The queue without the character whose read is over. -/
def leaves (q : List (BitVec 15)) (s : Rbuf) (i : In) : List (BitVec 15) :=
  if s.rd i then q.tail else q

/-- A character that finds the queue full replaces the newest one and is marked. -/
def place (q : List (BitVec 15)) (s : Rbuf) (i : In) : List (BitVec 15) :=
  if i.rst || i.clr then []
  else if wr i then
    if (leaves q s i).length < capacity then leaves q s i ++ [entry i false]
    else (leaves q s i).dropLast ++ [entry i true]
  else leaves q s i

/-- The silo holds the queue, and a settled output shows its oldest character. -/
structure Marks (s : Rbuf) (q : List (BitVec 15)) : Prop where
  held : s.held = q
  output : s.settled = true → ∀ c rest, q = c :: rest → s.regRbuf = 1#1 ++ c

/-- A character finds the silo full. -/
def overruns (s : Rbuf) (i : In) : Bool :=
  !i.rst && !i.clr && wr i && !s.rd i && s.full

/-- A character comes in the clock in which a read is over. -/
def collides (s : Rbuf) (i : In) : Bool := !i.rst && !i.clr && wr i && s.rd i

/-- A character is not stored. -/
def drops (s : Rbuf) (i : In) : Bool := s.overruns i || s.collides i

/-- The silo that has lost nothing is the queue, and it has nothing to mark. -/
structure Clean (s : Rbuf) (q : List (BitVec 15)) : Prop where
  sound : s.Sound
  held : s.held = q
  ovre : s.rbufOvre = false
  room : s.rdDly = true → s.full = false
  unmarked : ∀ c ∈ q, Rbuf.ovre c = false

variable {s : Rbuf} {q : List (BitVec 15)} {i : In}

/-! ## Entries -/

theorem wrData_eq : s.wrData i = entry i s.rbufOvre := rfl

theorem ovre_entry (i : In) (b : Bool) : ovre (entry i b) = b := by
  unfold ovre entry
  simp only [BitVec.getLsbD_append]
  cases b <;> rfl

/-! ## One clock -/

theorem Clean.marks (h : s.Clean q) : s.Marks q where
  held := h.held
  output hset c rest hq := by
    obtain ⟨hdval, hhead⟩ := h.sound.output hset
    rw [h.held, hq, List.head?_cons, Option.some.injEq] at hhead
    unfold regRbuf
    rw [hdval, hhead]
    rfl

theorem Clean.length (h : s.Clean q) : q.length = s.depth := by
  rw [← h.held, length_held]

theorem Clean.full_eq (h : s.Clean q) : s.full = false ↔ q.length < capacity := by
  rw [full_eq_false h.sound, h.length]
  unfold capacity fifoSize
  omega

/-- A silo without characters is clean. -/
theorem clean_of_empty (hdepth : s.depth = 0) (hrd : s.rdPtr = 0) (hwr : s.wrPtr = 0)
    (hovre : s.rbufOvre = false) : s.Clean [] where
  sound := sound_of_empty hdepth hrd hwr
  held := by
    unfold Rbuf.held
    rw [hdepth]
    rfl
  ovre := hovre
  room _ := by
    unfold full
    rw [hdepth]
    rfl
  unmarked c hc := absurd hc List.not_mem_nil

theorem next_of_clr (hrst : i.rst = false) (hclr : i.clr = true) : (s.next i).Clean [] := by
  rw [next_of_run hrst]
  refine clean_of_empty ?_ ?_ ?_ ?_
  · change s.nextDepth i = 0
    unfold nextDepth
    rw [hclr, if_pos rfl]
  · change s.nextRdPtr i = 0
    unfold nextRdPtr
    rw [hclr, if_pos rfl]
  · change s.nextWrPtr i = 0
    unfold nextWrPtr
    rw [hclr, if_pos rfl]
  · change s.nextOvre i = false
    unfold nextOvre
    rw [hclr, if_pos rfl]

/-- No character is lost without a clear. -/
theorem not_drops (hrst : i.rst = false) (hclr : i.clr = false) (h : s.drops i = false) :
    wr i = true → s.rd i = false ∧ s.full = false := by
  intro hwr
  unfold drops overruns collides at h
  rw [hrst, hclr, hwr] at h
  cases hrd : s.rd i with
  | true =>
      rw [hrd, Bool.or_eq_false_iff] at h
      cases h.2
  | false =>
      rw [hrd, Bool.or_eq_false_iff] at h
      exact ⟨rfl, h.1⟩

/-- What is stored is what joins the queue. -/
theorem Clean.held_next (h : s.Clean q) (hrst : i.rst = false) (hclr : i.clr = false)
    (hdrops : s.drops i = false) : (s.next i).held = place q s i := by
  have hkept := not_drops hrst hclr hdrops
  rw [Rbuf.held_next h.sound hrst hclr, h.held]
  unfold place leaves
  rw [hrst, hclr, Bool.or_false, if_neg Bool.false_ne_true]
  cases hwr : wr i with
  | true =>
      obtain ⟨hrd, hfull⟩ := hkept hwr
      have hpush : s.pushes i = true := by
        unfold pushes
        rw [hwr, hrd, hfull]
        rfl
      rw [pops_of_not_rd hrd, hpush, hrd, if_neg Bool.false_ne_true, if_neg Bool.false_ne_true,
        if_pos rfl, if_pos rfl, if_pos (h.full_eq.mp hfull), wrData_eq, h.ovre]
  | false =>
      have hpush : s.pushes i = false := by
        unfold pushes
        rw [hwr]
        rfl
      rw [hpush, if_neg Bool.false_ne_true, if_neg Bool.false_ne_true]
      unfold pops
      rw [hwr]
      cases hrd : s.rd i with
      | false => rfl
      | true =>
          cases hempty : s.empty with
          | false => rfl
          | true =>
              -- A read of an empty silo takes nothing away.
              have hdepth : s.depth = 0 := beq_iff_eq.mp hempty
              have hnil : q = [] := List.length_eq_zero_iff.mp (h.length.trans hdepth)
              rw [hnil]
              rfl

/-- The read of a silo makes room in it. -/
theorem Clean.room_next (h : s.Clean q) (hrst : i.rst = false) (hclr : i.clr = false)
    (hdrops : s.drops i = false) (hrd : s.rd i = true) : (s.next i).full = false := by
  have hwr : wr i = false := by
    cases hwr : wr i with
    | false => rfl
    | true =>
        rw [(not_drops hrst hclr hdrops hwr).1] at hrd
        cases hrd
  have hdepth : (s.next i).depth = s.depth - 1 := by
    rw [next_of_run hrst]
    change s.nextDepth i = _
    rw [depth_next hclr]
    unfold pops pushes
    rw [hrd, hwr]
    cases hempty : s.empty with
    | false => rfl
    | true =>
        have hzero : s.depth = 0 := beq_iff_eq.mp hempty
        rw [hzero]
        rfl
  have hbound := h.sound.depth
  unfold full
  rw [hdepth, beq_eq_false_iff_ne]
  unfold fifoSize at *
  omega

theorem unmarked_place (h : s.Clean q) (hrst : i.rst = false) (hclr : i.clr = false)
    (hdrops : s.drops i = false) : ∀ c ∈ place q s i, ovre c = false := by
  have hleft : ∀ c ∈ leaves q s i, ovre c = false := by
    unfold leaves
    intro c hc
    split at hc
    · exact h.unmarked c (List.mem_of_mem_tail hc)
    · exact h.unmarked c hc
  intro c hc
  unfold place at hc
  rw [hrst, hclr, Bool.or_false, if_neg Bool.false_ne_true] at hc
  cases hwr : wr i with
  | false =>
      rw [hwr, if_neg Bool.false_ne_true] at hc
      exact hleft c hc
  | true =>
      obtain ⟨hrd, hfull⟩ := not_drops hrst hclr hdrops hwr
      have hroom : (leaves q s i).length < capacity := by
        unfold leaves
        rw [hrd, if_neg Bool.false_ne_true]
        exact h.full_eq.mp hfull
      rw [hwr, if_pos rfl, if_pos hroom, List.mem_append, List.mem_singleton] at hc
      rcases hc with hc | rfl
      · exact hleft c hc
      · exact ovre_entry i false

/-- A clock that loses nothing keeps the silo clean. -/
theorem Clean.next (h : s.Clean q) (hdrops : s.drops i = false) :
    (s.next i).Clean (place q s i) := by
  cases hrst : i.rst with
  | true =>
      unfold Rbuf.next place
      rw [hrst, Bool.true_or, if_pos rfl, if_pos rfl]
      exact clean_of_empty rfl rfl rfl rfl
  | false =>
      cases hclr : i.clr with
      | true =>
          unfold place
          rw [hrst, hclr, Bool.false_or, if_pos rfl]
          exact next_of_clr hrst hclr
      | false =>
          refine ⟨h.sound.next i, h.held_next hrst hclr hdrops, ?_, fun hdly => ?_,
            unmarked_place h hrst hclr hdrops⟩
          · rw [next_of_run hrst]
            change s.nextOvre i = false
            unfold nextOvre
            rw [hclr, if_neg Bool.false_ne_true]
            split
            · rename_i hload
              rw [Bool.or_eq_true] at hload
              rcases hload with hwr | hdly
              · exact (not_drops hrst hclr hdrops hwr).2
              · exact h.room hdly
            · exact h.ovre
          · rw [next_of_run hrst] at hdly
            exact h.room_next hrst hclr hdrops hdly

/-- A character that finds the silo full is not marked in it. -/
theorem Clean.not_marks_of_overruns (h : s.Clean q) (hover : s.overruns i = true) :
    ¬ (s.next i).Marks (place q s i) := by
  unfold overruns at hover
  simp only [Bool.and_eq_true, Bool.not_eq_true'] at hover
  obtain ⟨⟨⟨⟨hrst, hclr⟩, hwr⟩, hrd⟩, hfull⟩ := hover
  intro hmarks
  have hheld := hmarks.held
  have hpush : s.pushes i = false := by
    unfold pushes
    rw [hfull, Bool.not_true, Bool.and_false]
  rw [Rbuf.held_next h.sound hrst hclr, pops_of_not_rd hrd, hpush, if_neg Bool.false_ne_true,
    if_neg Bool.false_ne_true, h.held] at hheld
  have hroom : ¬ q.length < capacity := by
    rw [← h.full_eq, hfull]
    exact Bool.false_ne_true.symm
  have hmem : entry i true ∈ place q s i := by
    unfold place leaves
    rw [hrst, hclr, hwr, hrd, Bool.or_false, if_neg Bool.false_ne_true, if_pos rfl,
      if_neg Bool.false_ne_true, if_neg hroom]
    exact List.mem_append_right _ (List.mem_singleton_self _)
  rw [← hheld] at hmem
  have hnot := h.unmarked _ hmem
  rw [ovre_entry] at hnot
  cases hnot

/-! ## Runs -/

/-- The queue along the run. -/
def queue (s : Rbuf) (i : Nat → In) : Nat → List (BitVec 15) := shadow next place s [] i

theorem clean_run {s₀ : Rbuf} (i : Nat → In) {t : Nat}
    (h : ∀ u, u < t → (run next s₀.reset i u).drops (i u) = false) :
    (run next s₀.reset i t).Clean (queue s₀.reset i t) := by
  induction t with
  | zero => exact clean_of_empty rfl rfl rfl rfl
  | succ t ih =>
      exact (ih fun u hu => h u (Nat.lt_succ_of_lt hu)).next (h t (Nat.lt_succ_self t))

/-- The silo is the queue with its marks as long as no character finds it full or comes in
the clock in which a read is over.  The first character that finds it full is not marked. -/
theorem marks_run (s₀ : Rbuf) (i : Nat → In) (t : Nat) :
    ((∀ u, u < t → (run next s₀.reset i u).drops (i u) = false) →
        (run next s₀.reset i t).Marks (queue s₀.reset i t)) ∧
      ((∀ u, u < t → (run next s₀.reset i u).drops (i u) = false) →
        (run next s₀.reset i t).overruns (i t) = true →
        ¬ (run next s₀.reset i (t + 1)).Marks (queue s₀.reset i (t + 1))) :=
  ⟨fun h => (clean_run i h).marks, fun h => (clean_run i h).not_marks_of_overruns⟩

/-! ## A silo that nobody reads -/

/-- A character of line 0 comes every 8192 clocks, and RBUF is not read. -/
def arriving (t : Nat) : In where
  rst := false
  clr := false
  csrMse := true
  csrSae := false
  scan := Fin.ofNat 8 t
  uartRxFrme := false
  uartRxPare := false
  uartRxData := 0x41
  uartRxFull := t % 8192 == 0
  rbufRead := false

/-- The registers before the reset. -/
def powerUp : Rbuf where
  last := false
  rdDly := false
  wrDly := false
  depth := 0
  rdPtr := 0
  wrPtr := 0
  rbufOvre := false
  rbufDval := false
  countSa := 0
  rbufSa := false
  fifoData := 0
  dpram := fun _ => 0

theorem wr_arriving (t : Nat) : wr (arriving t) = (t % 8192 == 0) := Bool.and_true _

theorem rd_arriving (s : Rbuf) (t : Nat) (h : s.last = false) : s.rd (arriving t) = false := by
  unfold rd
  rw [h, Bool.and_false]

theorem depth_arriving (s : Rbuf) (t : Nat) (h : s.last = false) :
    (s.next (arriving t)).depth =
      if (t % 8192 == 0) && !s.full then s.depth + 1 else s.depth := by
  rw [next_of_run rfl]
  change s.nextDepth (arriving t) = _
  rw [depth_next rfl, pops_of_not_rd (rd_arriving s t h), if_neg Bool.false_ne_true]
  unfold pushes
  rw [rd_arriving s t h, wr_arriving, Bool.not_false, Bool.and_true]

/-- The silo is filled within 64 of these periods, and loses nothing until then. -/
theorem filled_arriving {t : Nat} (ht : t ≤ 64 * 8192) :
    (run next powerUp.reset arriving t).last = false ∧
      (run next powerUp.reset arriving t).depth = (t + 8191) / 8192 ∧
      ∀ u, u < t → (run next powerUp.reset arriving u).drops (arriving u) = false := by
  induction t with
  | zero => exact ⟨rfl, rfl, fun u hu => absurd hu (Nat.not_lt_zero u)⟩
  | succ t ih =>
      obtain ⟨hlast, hdepth, hkept⟩ := ih (by omega)
      have hroom : t % 8192 = 0 → (run next powerUp.reset arriving t).full = false := by
        intro hperiod
        unfold full fifoSize
        rw [hdepth, beq_eq_false_iff_ne]
        omega
      refine ⟨?_, ?_, fun u hu => ?_⟩
      · rw [run_succ, next_of_run rfl]
        rfl
      · rw [run_succ, depth_arriving _ t hlast, hdepth]
        cases hwr : t % 8192 == 0 with
        | true =>
            have hperiod : t % 8192 = 0 := beq_iff_eq.mp hwr
            rw [hroom hperiod, Bool.not_false, Bool.and_true, if_pos rfl]
            omega
        | false =>
            have hperiod : t % 8192 ≠ 0 := beq_eq_false_iff_ne.mp hwr
            rw [Bool.false_and, if_neg Bool.false_ne_true]
            omega
      · rcases Nat.lt_or_eq_of_le (Nat.le_of_lt_succ hu) with hlt | rfl
        · exact hkept u hlt
        · unfold drops overruns collides
          rw [rd_arriving _ u hlast, wr_arriving, Bool.and_false, Bool.or_false]
          cases hwr : u % 8192 == 0 with
          | false => rfl
          | true =>
              rw [hroom (beq_iff_eq.mp hwr), Bool.and_false]

/-- The 65th character finds the silo full. -/
theorem marks_fails : ¬ ∀ (s₀ : Rbuf) (i : Nat → In) (t : Nat),
    (run next s₀.reset i t).Marks (queue s₀.reset i t) := by
  intro h
  obtain ⟨hlast, hdepth, hkept⟩ := filled_arriving (Nat.le_refl (64 * 8192))
  refine (clean_run arriving hkept).not_marks_of_overruns ?_ (h powerUp arriving (64 * 8192 + 1))
  unfold overruns full
  rw [rd_arriving _ _ hlast, wr_arriving, hdepth]
  rfl

end Rbuf

end KS10
