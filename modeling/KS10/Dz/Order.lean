import KS10.Dz.Silo

/-!
# The silo as a queue

What the processor reads from RBUF with the data valid bit is to be what was taken from
the receivers, in order.  The processor loads the data lines as long as it reads, so that
it has the word of the last clock of the read (`DzTraffic.word`), and the silo moves on
in the clock after.

The silo keeps the order (`DzTraffic.keepsOrder_run`) if every read finds a character
that has settled at the output, or a silo that has never held one, and if no character
comes in the clock in which the silo moves on (`DzTraffic.Timely`).  A character in that
clock is overwritten by the next one, and the character that was read is read again.  A
read of the silo that it has emptied finds the data valid bit of its last character.
-/

namespace KS10

open Clocked

/-- The receive side with what goes through it: the word that the processor has loaded,
the characters that were taken from the receivers, those that were read as valid, and the
queue that the silo is to be. -/
structure DzTraffic where
  rx : DzRx
  word : BitVec 16
  taken : List (BitVec 15)
  got : List (BitVec 15)
  unread : List (BitVec 15)

namespace DzTraffic

open DzRx (In)

/-! ## Reads -/

/-- The fields of RBUF. -/
def valid (word : BitVec 16) : Bool := word.getLsbD 15
def data (word : BitVec 16) : BitVec 15 := word.extractLsb' 0 15

/-- The number of characters that the silo can hold. -/
def capacity : Nat := Rbuf.fifoSize - 1

/-- The read of a valid word is over. -/
def reads (x : DzTraffic) (i : In) : Bool := x.rx.rd i && valid x.word

/-- The queue without the character that has been read. -/
def left (x : DzTraffic) (i : In) : List (BitVec 15) :=
  if x.reads i then x.unread.tail else x.unread

/-- One clock.  A character that finds the queue full is lost. -/
def next (x : DzTraffic) (i : In) : DzTraffic where
  rx := x.rx.next i
  word := if i.rbufRead then x.rx.rbuf.regRbuf else x.word
  taken := if x.rx.takes i then x.taken ++ [x.rx.char i] else x.taken
  got := if x.reads i then x.got ++ [data x.word] else x.got
  unread :=
    if x.rx.takes i && decide ((x.left i).length < capacity) then x.left i ++ [x.rx.char i]
    else x.left i

/-- The silo after a clear, with no read in progress. -/
structure Cleared (x : DzTraffic) : Prop where
  depth : x.rx.rbuf.depth = 0
  rdPtr : x.rx.rbuf.rdPtr = 0
  wrPtr : x.rx.rbuf.wrPtr = 0
  dval : x.rx.rbuf.rbufDval = false
  last : x.rx.rbuf.last = false
  taken : x.taken = []
  got : x.got = []
  unread : x.unread = []

/-- There is no clear in the run. -/
structure Quiet (i : Nat → In) : Prop where
  rst : ∀ t, (i t).rst = false
  clr : ∀ t, (i t).clr = false

/-- No more characters are outstanding than the silo can hold. -/
def Fits (x : Nat → DzTraffic) : Prop :=
  ∀ t, (x t).taken.length ≤ (x t).got.length + capacity

/-- A read of RBUF has its last clock. -/
def ReadEnds (i : Nat → In) (t : Nat) : Prop :=
  (i t).rbufRead = true ∧ (i (t + 1)).rbufRead = false

/-- The read that has its last clock at `t` finds a settled character or a silo that has
never held one, and no character comes in the clock after. -/
def Timely (x : Nat → DzTraffic) (i : Nat → In) (t : Nat) : Prop :=
  ReadEnds i t → (x (t + 1)).rx.takes (i (t + 1)) = false ∧
    ((x t).rx.rbuf.settled = true ∨ (x (t + 1)).taken = [])

/-! ## Words -/

theorem valid_regRbuf (s : Rbuf) : valid s.regRbuf = s.rbufDval := by
  unfold valid Rbuf.regRbuf
  rw [BitVec.getLsbD_append]
  simp

theorem data_regRbuf (s : Rbuf) : data s.regRbuf = s.fifoData := by
  unfold data Rbuf.regRbuf
  apply BitVec.eq_of_getLsbD_eq
  intro k hk
  rw [BitVec.getLsbD_extractLsb', BitVec.getLsbD_append]
  simp [hk]

/-! ## One clock -/

/-- The silo is the queue, and its data valid bit waits for the first character. -/
structure InOrder (x : DzTraffic) : Prop where
  sound : x.rx.rbuf.Sound
  held : x.rx.rbuf.held = x.unread
  none : x.taken = [] → x.unread = []
  dval : x.taken = [] → x.rx.rbuf.rbufDval = false

/-- The word that the processor has loaded is the oldest character, or it is not valid and
there has been none. -/
def Loaded (x : DzTraffic) : Prop :=
  (valid x.word = true ∧ x.unread.head? = some (data x.word)) ∨
    (valid x.word = false ∧ x.taken = [])

variable {x : DzTraffic} {i : In}

theorem Cleared.inOrder (h : x.Cleared) : x.InOrder where
  sound := Rbuf.sound_of_empty h.depth h.rdPtr h.wrPtr
  held := by
    unfold Rbuf.held
    rw [h.unread, h.depth]
    rfl
  none _ := h.unread
  dval _ := h.dval

theorem InOrder.depth_eq (h : x.InOrder) : x.rx.rbuf.depth = x.unread.length := by
  rw [← h.held, Rbuf.length_held]

theorem InOrder.empty_of_none (h : x.InOrder) (hnone : x.taken = []) :
    x.rx.rbuf.empty = true := by
  unfold Rbuf.empty
  rw [h.depth_eq, h.none hnone]
  rfl

theorem taken_of_next (h : (x.next i).taken = []) : x.taken = [] ∧ x.rx.takes i = false := by
  have htaken : (if x.rx.takes i then x.taken ++ [x.rx.char i] else x.taken) = [] := h
  cases htakes : x.rx.takes i with
  | true =>
      rw [htakes, if_pos rfl] at htaken
      simp at htaken
  | false =>
      rw [htakes, if_neg Bool.false_ne_true] at htaken
      exact ⟨htaken, rfl⟩

theorem unread_of_not_takes (h : x.rx.takes i = false) : (x.next i).unread = x.left i := by
  show (if x.rx.takes i && _ then _ else _) = _
  rw [h, Bool.false_and, if_neg Bool.false_ne_true]

theorem left_of_not_rd (h : x.rx.rd i = false) : x.left i = x.unread := by
  unfold left reads
  rw [h, Bool.false_and, if_neg Bool.false_ne_true]

theorem held_next (h : x.InOrder) (hrst : i.rst = false) (hclr : i.clr = false) :
    (x.next i).rx.rbuf.held =
      if x.rx.rbuf.pops (x.rx.rbufIn i) then x.unread.tail
      else if x.rx.rbuf.pushes (x.rx.rbufIn i) then x.unread ++ [x.rx.char i]
      else x.unread := by
  rw [← h.held]
  exact Rbuf.held_next h.sound hrst hclr

theorem pops_eq : x.rx.rbuf.pops (x.rx.rbufIn i) =
    (x.rx.rd i && !x.rx.takes i && !x.rx.rbuf.empty) := rfl

theorem pushes_eq : x.rx.rbuf.pushes (x.rx.rbufIn i) =
    (x.rx.takes i && !x.rx.rd i && !x.rx.rbuf.full) := rfl

/-- The data valid bit of a silo that has held no character stays down. -/
theorem InOrder.dval_next (h : x.InOrder) (hrst : i.rst = false) (hclr : i.clr = false)
    (hnone : (x.next i).taken = []) : (x.next i).rx.rbuf.rbufDval = false := by
  have htaken := (taken_of_next hnone).1
  have hnext : (x.next i).rx.rbuf = _ :=
    Rbuf.next_of_run (s := x.rx.rbuf) (i := x.rx.rbufIn i) hrst
  have hclr' : (x.rx.rbufIn i).clr = false := hclr
  rw [hnext]
  show x.rx.rbuf.nextDval (x.rx.rbufIn i) = false
  unfold Rbuf.nextDval
  rw [hclr', h.empty_of_none htaken, h.dval htaken]
  simp

/-- The clock in which the silo moves on. -/
theorem InOrder.next_of_rd (h : x.InOrder) (hrst : i.rst = false) (hclr : i.clr = false)
    (hrd : x.rx.rd i = true) (htakes : x.rx.takes i = false) (hload : x.Loaded) :
    (x.next i).InOrder := by
  have hheld := held_next h hrst hclr
  have hunread := unread_of_not_takes htakes
  unfold left reads at hunread
  rw [hrd, Bool.true_and] at hunread
  have hnone' : (x.next i).taken = [] → (x.next i).unread = [] := by
    intro hnone
    rw [hunread, h.none (taken_of_next hnone).1]
    split <;> rfl
  refine ⟨h.sound.next _, ?_, hnone', h.dval_next hrst hclr⟩
  rw [hheld, hunread, pops_eq, pushes_eq, hrd, htakes]
  rcases hload with ⟨hvalid, hhead⟩ | ⟨hvalid, hnone⟩
  · have hempty : x.rx.rbuf.empty = false := by
      rw [Rbuf.empty_eq_false_iff, h.depth_eq]
      intro hlen
      rw [List.length_eq_zero_iff.mp hlen] at hhead
      cases hhead
    rw [hvalid, hempty]
    rfl
  · rw [hvalid, h.empty_of_none hnone]
    rfl

/-- A clock in which no read is over. -/
theorem InOrder.next_of_not_rd (h : x.InOrder) (hrst : i.rst = false) (hclr : i.clr = false)
    (hrd : x.rx.rd i = false) : (x.next i).InOrder := by
  have hheld := held_next h hrst hclr
  have hfull : (!x.rx.rbuf.full) = decide (x.unread.length < capacity) := by
    have hbound := h.sound.depth
    rw [h.depth_eq] at hbound
    unfold Rbuf.full capacity
    rw [h.depth_eq]
    unfold Rbuf.fifoSize at *
    rw [Bool.eq_iff_iff]
    simp only [Bool.not_eq_true', beq_eq_false_iff_ne, decide_eq_true_eq]
    omega
  have hunread : (x.next i).unread =
      if x.rx.takes i && decide (x.unread.length < capacity) then x.unread ++ [x.rx.char i]
      else x.unread := by
    show (if _ && decide ((x.left i).length < _) then x.left i ++ _ else x.left i) = _
    rw [left_of_not_rd hrd]
  refine ⟨h.sound.next _, ?_, fun hnone => ?_, h.dval_next hrst hclr⟩
  · rw [hheld, hunread, pops_eq, pushes_eq, hrd, hfull]
    simp
  · obtain ⟨htaken, htakes⟩ := taken_of_next hnone
    rw [unread_of_not_takes htakes, left_of_not_rd hrd, h.none htaken]

/-- While the processor reads, the oldest character stays where it is. -/
theorem head_unread_next (hrd : x.rx.rd i = false) {c : BitVec 15}
    (hhead : x.unread.head? = some c) : (x.next i).unread.head? = some c := by
  show (if _ then x.left i ++ _ else x.left i : List _).head? = _
  rw [left_of_not_rd hrd]
  split
  · rw [List.head?_append, hhead]
    rfl
  · exact hhead

theorem rd_of_read (h : i.rbufRead = true) : x.rx.rd i = false := by
  unfold DzRx.rd Rbuf.rd DzRx.rbufIn
  rw [h]
  rfl

/-- The word of a read that is over is the one of its last clock. -/
theorem loaded_next (h : x.InOrder) (hread : i.rbufRead = true)
    (hfinds : x.rx.rbuf.settled = true ∨ (x.next i).taken = []) : (x.next i).Loaded := by
  have hword : (x.next i).word = x.rx.rbuf.regRbuf := if_pos hread
  unfold Loaded
  rw [hword, valid_regRbuf, data_regRbuf]
  rcases hfinds with hset | hnone
  · obtain ⟨hdval, hhead⟩ := h.sound.output hset
    rw [h.held] at hhead
    exact Or.inl ⟨hdval, head_unread_next (rd_of_read hread) hhead⟩
  · exact Or.inr ⟨h.dval (taken_of_next hnone).1, hnone⟩

theorem taken_of_not_takes (h : x.rx.takes i = false) : (x.next i).taken = x.taken := by
  show (if x.rx.takes i then _ else _) = _
  rw [h, if_neg Bool.false_ne_true]

/-- A valid word that has been read leaves the queue. -/
theorem split_of_read (hsplit : x.taken = x.got ++ x.unread) (hrd : x.rx.rd i = true)
    (htakes : x.rx.takes i = false) (hload : x.Loaded) :
    (x.next i).taken = (x.next i).got ++ (x.next i).unread := by
  have hgot : (x.next i).got = if valid x.word then x.got ++ [data x.word] else x.got := by
    show (if x.rx.rd i && valid x.word then _ else _) = _
    rw [hrd, Bool.true_and]
  rw [taken_of_not_takes htakes, hgot, unread_of_not_takes htakes]
  unfold left reads
  rw [hrd, Bool.true_and]
  rcases hload with ⟨hvalid, hhead⟩ | ⟨hvalid, -⟩
  · rw [hvalid, if_pos rfl, if_pos rfl, hsplit]
    cases hunread : x.unread with
    | nil =>
        rw [hunread] at hhead
        cases hhead
    | cons c rest =>
        rw [hunread] at hhead
        cases hhead
        simp
  · rw [hvalid, if_neg Bool.false_ne_true, if_neg Bool.false_ne_true]
    exact hsplit

/-- A character that is taken joins the queue. -/
theorem unread_of_takes (hrd : x.rx.rd i = false) (htakes : x.rx.takes i = true)
    (hfits : x.unread.length < capacity) :
    (x.next i).unread = x.unread ++ [x.rx.char i] := by
  show (if _ && decide ((x.left i).length < _) then x.left i ++ _ else x.left i) = _
  rw [left_of_not_rd hrd, htakes, decide_eq_true hfits]
  rfl

/-- As long as everything fits, what is taken goes into the queue and comes out of it. -/
theorem split_next (hsplit : x.taken = x.got ++ x.unread)
    (hload : x.rx.rd i = true → x.rx.takes i = false ∧ x.Loaded)
    (hroom : (x.next i).taken.length ≤ (x.next i).got.length + capacity) :
    (x.next i).taken = (x.next i).got ++ (x.next i).unread := by
  cases hrd : x.rx.rd i with
  | true => exact split_of_read hsplit hrd (hload hrd).1 (hload hrd).2
  | false =>
      have hgot : (x.next i).got = x.got := by
        show (if x.rx.rd i && valid x.word then _ else _) = _
        rw [hrd, Bool.false_and, if_neg Bool.false_ne_true]
      cases htakes : x.rx.takes i with
      | false =>
          rw [taken_of_not_takes htakes, hgot, unread_of_not_takes htakes, left_of_not_rd hrd]
          exact hsplit
      | true =>
          have htaken : (x.next i).taken = x.taken ++ [x.rx.char i] := by
            show (if x.rx.takes i then _ else _) = _
            rw [htakes, if_pos rfl]
          rw [htaken, hgot, hsplit] at hroom
          simp only [List.length_append, List.length_singleton] at hroom
          rw [htaken, hgot, unread_of_takes hrd htakes (by omega), hsplit, List.append_assoc]

/-! ## Runs -/

theorem rd_succ {x₀ : DzTraffic} {i : Nat → In} {t : Nat} (hrst : (i t).rst = false)
    (h : (run next x₀ i (t + 1)).rx.rd (i (t + 1)) = true) : ReadEnds i t := by
  have hnext := Rbuf.next_of_run (s := (run next x₀ i t).rx.rbuf)
    (i := (run next x₀ i t).rx.rbufIn (i t)) hrst
  have hrd : (!(i (t + 1)).rbufRead && (run next x₀ i (t + 1)).rx.rbuf.last) = true := h
  have hlast : (run next x₀ i (t + 1)).rx.rbuf.last = (i t).rbufRead := by
    rw [run_succ]
    exact congrArg Rbuf.last hnext
  rw [hlast, Bool.and_eq_true, Bool.not_eq_true'] at hrd
  exact ⟨hrd.2, hrd.1⟩

/-- A run with timely reads keeps the silo in order, and each word is loaded when its read
is over. -/
theorem inOrder_run {x₀ : DzTraffic} (h₀ : x₀.Cleared) {i : Nat → In} (hquiet : Quiet i)
    (htimely : ∀ t, Timely (run next x₀ i) i t) (t : Nat) :
    (run next x₀ i t).InOrder ∧ ((run next x₀ i t).rx.rd (i t) = true →
      (run next x₀ i t).rx.takes (i t) = false ∧ (run next x₀ i t).Loaded) := by
  induction t with
  | zero =>
      refine ⟨h₀.inOrder, fun hrd => ?_⟩
      have hlast : (!(i 0).rbufRead && x₀.rx.rbuf.last) = true := hrd
      rw [h₀.last, Bool.and_false] at hlast
      cases hlast
  | succ t ih =>
      obtain ⟨hord, hmoves⟩ := ih
      have hrst := hquiet.rst t
      have hclr := hquiet.clr t
      constructor
      · cases hrd : (run next x₀ i t).rx.rd (i t) with
        | true => exact hord.next_of_rd hrst hclr hrd (hmoves hrd).1 (hmoves hrd).2
        | false => exact hord.next_of_not_rd hrst hclr hrd
      · intro hrd
        have hends : ReadEnds i t := rd_succ hrst hrd
        obtain ⟨htakes, hfinds⟩ := htimely t hends
        exact ⟨htakes, loaded_next hord hends.1 hfinds⟩

/-- In a run with timely reads, what has been taken from the receivers is what has been
read, followed by what the silo holds. -/
theorem keepsOrder_run {x₀ : DzTraffic} (h₀ : x₀.Cleared) {i : Nat → In} (hquiet : Quiet i)
    (hfits : Fits (run next x₀ i)) (htimely : ∀ t, Timely (run next x₀ i) i t) (t : Nat) :
    (run next x₀ i t).taken = (run next x₀ i t).got ++ (run next x₀ i t).rx.rbuf.held := by
  rw [(inOrder_run h₀ hquiet htimely t).1.held]
  induction t with
  | zero =>
      rw [run_zero, h₀.taken, h₀.got, h₀.unread]
      rfl
  | succ t ih =>
      rw [run_succ]
      exact split_next ih (inOrder_run h₀ hquiet htimely t).2 (hfits (t + 1))

/-! ## One read -/

/-- The silo after a reset, with characters waiting in the receivers `full`. -/
def waiting (full : Fin 8 → Bool) : DzTraffic where
  rx :=
    { scan := 0
      rxFull := full
      rbuf := Rbuf.reset
        { last := false, rdDly := false, wrDly := false, depth := 0, rdPtr := 0, wrPtr := 0
          rbufOvre := false, rbufDval := false, countSa := 0, rbufSa := false, fifoData := 0
          dpram := fun _ => 0 } }
  word := 0
  taken := []
  got := []
  unread := []

theorem waiting_cleared (full : Fin 8 → Bool) : (waiting full).Cleared :=
  ⟨rfl, rfl, rfl, rfl, rfl, rfl, rfl, rfl⟩

/-- The scanner runs for seven clocks, and RBUF is read at clocks 4 and 5. -/
def readOnce (t : Nat) : In where
  rst := false
  clr := false
  csrMse := decide (t < 7)
  csrSae := false
  rxDone := fun _ => false
  rxData := fun n => if n = 1 then 0x41 else 0x42
  rxPare := fun _ => false
  rxFrme := fun _ => false
  rbufRead := t == 4 || t == 5

theorem quiet_readOnce : Quiet readOnce := ⟨fun _ => rfl, fun _ => rfl⟩

theorem fits_readOnce (full : Fin 8 → Bool) : Fits (run next (waiting full) readOnce) := by
  intro t
  have hbound : (run next (waiting full) readOnce t).taken.length ≤ t ∧
      (run next (waiting full) readOnce t).taken.length ≤ 7 := by
    induction t with
    | zero => exact ⟨Nat.le_refl 0, Nat.zero_le 7⟩
    | succ t ih =>
        rw [run_succ]
        show (if _ then _ else _ : List _).length ≤ t + 1 ∧ (if _ then _ else _ : List _).length ≤ 7
        split
        · rename_i htakes
          have hmse : decide (t < 7) = true := (Bool.and_eq_true _ _ |>.mp htakes).2
          rw [decide_eq_true_eq] at hmse
          rw [List.length_append, List.length_singleton]
          omega
        · omega
  have hcap : capacity = 64 := rfl
  omega

theorem readEnds_readOnce {t : Nat} (h : ReadEnds readOnce t) : t = 5 := by
  obtain ⟨hread, hend⟩ := h
  unfold readOnce at hread hend
  simp only [Bool.or_eq_true, beq_iff_eq, Bool.or_eq_false_iff, beq_eq_false_iff_ne] at hread hend
  omega

theorem timely_readOnce (t : Nat) : Timely (run next (waiting (· == 1)) readOnce) readOnce t := by
  intro hends
  obtain rfl := readEnds_readOnce hends
  exact ⟨by decide +kernel, Or.inl (by decide +kernel)⟩

/-- A character of line 1 is taken and read. -/
theorem keepsOrder_run_one :
    (run next (waiting (· == 1)) readOnce 7).got.length = 1 ∧
      (run next (waiting (· == 1)) readOnce 7).taken =
        (run next (waiting (· == 1)) readOnce 7).got ++
          (run next (waiting (· == 1)) readOnce 7).rx.rbuf.held :=
  ⟨by decide +kernel,
    keepsOrder_run (waiting_cleared _) quiet_readOnce (fits_readOnce _) timely_readOnce 7⟩

/-- A character of line 6 comes in the clock in which the silo moves on from the one of
line 1. -/
theorem keepsOrder_fails :
    ¬ ∀ (x₀ : DzTraffic) (i : Nat → In), x₀.Cleared → Quiet i → Fits (run next x₀ i) → ∀ t,
      (run next x₀ i t).taken = (run next x₀ i t).got ++ (run next x₀ i t).rx.rbuf.held := by
  intro h
  have hsplit := h (waiting fun n => n == 1 || n == 6) readOnce (waiting_cleared _)
    quiet_readOnce (fits_readOnce _) 7
  exact absurd hsplit (by decide +kernel)

end DzTraffic

end KS10
