import KS10.Lp.Feeds

/-!
# The skip to a channel

A paper instruction may skip to the next line of the form that is punched in a channel.  The
printer advances its line counter, round the form, until it is on a punched line, and sends as
many line feeds as it has advanced.  It counts the lines it looks at, and faults when they are
one less than the lines of the form.

So the line where the skip began is never looked at again.  A skip is right exactly when the
channel is not punched on this line alone (`LpSkip.skips_iff`).
-/

namespace KS10

open Clocked

namespace LpSkip

open Lp26 (In vfuMatch vfuSlew vfuChan)

/-! ## Lines round the form -/

/-- Of `n` lines the one that is `k` lines after `cur`. -/
def lineAt (n cur k : Nat) : Nat := (cur + k) % n

/-- The first line after `cur` with a mark is `k` lines on. -/
structure First (mark : Nat → Bool) (n cur k : Nat) : Prop where
  pos : 1 ≤ k
  found : mark (lineAt n cur k) = true
  none : ∀ j, 1 ≤ j → j < k → mark (lineAt n cur j) = false

section Lines

variable {mark : Nat → Bool} {n cur m k : Nat}

theorem lineAt_lt (hn : 0 < n) : lineAt n cur k < n := Nat.mod_lt _ hn

/-- Every other line comes within one round. -/
theorem exists_lineAt (hcur : cur < n) (hm : m < n) (hne : m ≠ cur) :
    ∃ k, 1 ≤ k ∧ k < n ∧ lineAt n cur k = m := by
  unfold lineAt
  rcases Nat.lt_or_gt_of_ne hne with hlt | hgt
  · refine ⟨m + n - cur, by omega, by omega, ?_⟩
    have hsum : cur + (m + n - cur) = m + n := by omega
    rw [hsum, Nat.add_mod_right, Nat.mod_eq_of_lt hm]
  · refine ⟨m - cur, by omega, by omega, ?_⟩
    have hsum : cur + (m - cur) = m := by omega
    rw [hsum, Nat.mod_eq_of_lt hm]

/-- Within one round no line comes twice. -/
theorem lineAt_ne (hcur : cur < n) (hpos : 1 ≤ k) (hlt : k < n) : lineAt n cur k ≠ cur := by
  unfold lineAt
  by_cases hwrap : cur + k < n
  · rw [Nat.mod_eq_of_lt hwrap]
    omega
  · rw [Nat.mod_eq_sub_mod (by omega), Nat.mod_eq_of_lt (by omega)]
    omega

/-- A mark on another line is found within one round. -/
theorem exists_first (hcur : cur < n) (h : ∃ m, m < n ∧ m ≠ cur ∧ mark m = true) :
    ∃ k, k < n ∧ First mark n cur k := by
  obtain ⟨m, hm, hne, hmark⟩ := h
  obtain ⟨k, hpos, hk, hat⟩ := exists_lineAt hcur hm hne
  have hsome : ∃ k, 1 ≤ k ∧ mark (lineAt n cur k) = true := ⟨k, hpos, by rw [hat, hmark]⟩
  obtain ⟨k', ⟨hpos', hmark'⟩, hfirst⟩ := Clocked.exists_first hsome
  have hle : k' ≤ k := by
    by_contra hgt
    exact hfirst k (Nat.lt_of_not_le hgt) ⟨hpos, by rw [hat, hmark]⟩
  refine ⟨k', Nat.lt_of_le_of_lt hle hk, hpos', hmark', fun j hj hjk => ?_⟩
  rw [← Bool.not_eq_true]
  exact fun hj' => hfirst j hjk ⟨hj, hj'⟩

end Lines

/-! ## A skip -/

/-- The registers after a reset; the memories hold anything. -/
def AfterReset (x : Lp26) : Prop := x.fsm = x.fsm.reset

/-- The number of lines of the form. -/
def form (x : Lp26) (c : In) : Nat := (x.fsm.vfuLen c).toNat + 1

/-- The line is punched in the channel of the command. -/
def punched (x : Lp26) (c : In) (m : Nat) : Bool :=
  vfuMatch (x.fsm.marks c (BitVec.ofNat 8 m)) c.lpData

/-- A skip to a channel is taken while the counter is on the form. -/
structure Commands (x : Lp26) (c : In) : Prop where
  idle : x.fsm.state = .idle
  rst : c.rst = false
  strobe : c.lpStrobe = true
  lpPi : c.lpPi = true
  slew : vfuSlew c.lpData = false
  chan : vfuChan c.lpData < 12
  line : x.fsm.lpLctr.toNat < form x c

/-- The printer is looking for the line. -/
def searching (x : Lp26) : Bool := x.fsm.state == .vfuChan || x.fsm.state == .dly2

/-- The command and the choice of the format stay on the inputs. -/
structure Keeps (c i : In) : Prop where
  rst : i.rst = false
  lpOvfu : i.lpOvfu = c.lpOvfu
  lpData : i.lpData = c.lpData

/-- The search that begins in clock `t` is over in clock `u`. -/
def Over (x : Lp26) (i : Nat → In) (t u : Nat) : Prop :=
  t < u ∧ searching (run Lp26.next x i u) = false ∧
    ∀ v, t < v → v < u → searching (run Lp26.next x i v) = true

/-- The search stops `k` lines on and has counted as many line feeds. -/
def Stops (x : Lp26) (i : Nat → In) (t k : Nat) : Prop :=
  let s := run Lp26.next x i t
  ∃ u, Over x i t u ∧ (run Lp26.next x i u).fsm.state = .vfuPrint ∧
    (run Lp26.next x i u).fsm.lpLctr.toNat = lineAt (form s (i t)) s.fsm.lpLctr.toNat k ∧
    (run Lp26.next x i u).fsm.lpLfCnt.toNat = k

def Faults (x : Lp26) (i : Nat → In) (t : Nat) : Prop :=
  ∃ u, Over x i t u ∧ (run Lp26.next x i u).fsm.state = .vfuOffln

/-- The skip goes to the first punched line, and it faults only if there is none. -/
structure Skips (x : Lp26) (i : Nat → In) (t : Nat) : Prop where
  stops : ∀ m, m < form (run Lp26.next x i t) (i t) →
    punched (run Lp26.next x i t) (i t) m = true →
    ∃ k, First (punched (run Lp26.next x i t) (i t)) (form (run Lp26.next x i t) (i t))
      (run Lp26.next x i t).fsm.lpLctr.toNat k ∧ Stops x i t k
  faults : Faults x i t → ∀ m, m < form (run Lp26.next x i t) (i t) →
    punched (run Lp26.next x i t) (i t) m = false

/-! ## The search -/

/-- The printer looks at the line that is `k + 1` lines after the one where the skip began. -/
structure Searches (s : Lp26) (c : In) (k : Nat) (x : Lp26) : Prop where
  state : x.fsm.state = .vfuChan
  lpCount : x.fsm.lpCount.toNat = k
  lpLfCnt : x.fsm.lpLfCnt = x.fsm.lpCount + 1
  lpLctr : x.fsm.lpLctr.toNat = lineAt (form s c) s.fsm.lpLctr.toNat (k + 1)
  lpDvfuLen : x.fsm.lpDvfuLen = s.fsm.lpDvfuLen
  lpVfuDat : x.fsm.lpVfuDat = s.fsm.lpVfuDat

variable {s x : Lp26} {c i j : In} {k : Nat}

theorem fsm_next (hrst : i.rst = false) :
    (x.next i).fsm = ({ x.fsm with lpTxStb := false } : Lp26.Fsm).step i x.lpXon := by
  show x.fsm.next i x.lpXon = _
  unfold Lp26.Fsm.next
  rw [hrst, if_neg Bool.false_ne_true]

theorem tidy_of_reset (h : AfterReset x) : x.fsm.Tidy := by
  unfold AfterReset at h
  rw [h]
  exact ⟨rfl, rfl⟩

theorem tidy_next (h : x.fsm.Tidy) (i : In) : (x.next i).fsm.Tidy := by
  show (x.fsm.next i x.lpXon).Tidy
  unfold Lp26.Fsm.next
  cases i.rst with
  | true => exact ⟨rfl, rfl⟩
  | false => exact Lp26.Fsm.Tidy.step (s := { x.fsm with lpTxStb := false }) h

theorem tidy_run (h : AfterReset x) (i : Nat → In) (t : Nat) :
    (run Lp26.next x i t).fsm.Tidy :=
  run_invariant (P := fun x : Lp26 => x.fsm.Tidy) (tidy_of_reset h)
    (fun _ i h => tidy_next h i) i t

/-- The line counter goes round the form. -/
theorem nextLine_lineAt {f : Lp26.Fsm} {n cur : Nat} (hlen : (f.vfuLen i).toNat + 1 = n)
    (hline : f.lpLctr.toNat = lineAt n cur k) :
    (f.nextLine i).toNat = lineAt n cur (k + 1) := by
  have hlt : lineAt n cur k < n := lineAt_lt (by omega)
  rw [Lp26.Fsm.nextLine_toNat rfl (by omega), hline, hlen]
  unfold lineAt
  rw [Nat.mod_add_mod, Nat.add_assoc]

/-- A command begins the search at the line after the one it was given on. -/
theorem Commands.searches (h : Commands s c) (htidy : s.fsm.Tidy) :
    Searches s c 0 (s.next c) := by
  have hcount : s.fsm.lpLfCnt = 0 := by
    unfold Lp26.Fsm.Tidy at htidy
    rw [h.idle] at htidy
    exact htidy.1
  have hchan : vfuChan c.lpData < 12 := h.chan
  have hstart : Lp26.isStart c.lpData = false := by
    rw [← Bool.not_eq_true]
    intro hstart
    unfold Lp26.isStart at hstart
    simp only [Bool.or_eq_true, beq_iff_eq] at hstart
    rcases hstart with (hd | hd) | hd <;> rw [hd] at hchan <;> exact absurd hchan (by decide)
  have hstop : c.lpData ≠ Lp26.charStop := by
    intro hd
    rw [hd] at hchan
    exact absurd hchan (by decide)
  have hfsm : (s.next c).fsm =
      { s.fsm with
        lpTxStb := false
        lpCount := 0
        lpLctr := s.fsm.nextLine c
        lpLfCnt := s.fsm.lpLfCnt + 1
        state := .vfuChan } := by
    rw [fsm_next h.rst]
    unfold Lp26.Fsm.step
    dsimp only
    rw [h.idle]
    dsimp only
    rw [h.strobe, if_pos rfl, h.lpPi, if_pos rfl]
    unfold Lp26.Fsm.paper Lp26.Fsm.motion
    rw [hstart, if_neg Bool.false_ne_true, if_neg hstop, h.slew, if_neg Bool.false_ne_true,
      if_pos hchan]
    rfl
  have hcur : s.fsm.lpLctr.toNat = lineAt (form s c) s.fsm.lpLctr.toNat 0 :=
    (Nat.mod_eq_of_lt h.line).symm
  refine ⟨?_, ?_, ?_, ?_, ?_, ?_⟩
  · rw [hfsm]
  · rw [hfsm]
    rfl
  · rw [hfsm]
    show s.fsm.lpLfCnt + 1 = 0 + 1
    rw [hcount]
  · rw [hfsm]
    exact nextLine_lineAt rfl hcur
  · rw [hfsm]
  · rw [hfsm]

theorem Searches.vfuLen (h : Searches s c k x) (hkeeps : Keeps c i) :
    x.fsm.vfuLen i = s.fsm.vfuLen c := by
  unfold Lp26.Fsm.vfuLen
  rw [hkeeps.lpOvfu, h.lpDvfuLen]

/-- The printer looks for a mark of the command on the line of the counter. -/
theorem Searches.vfuMatch_eq (h : Searches s c k x) (hkeeps : Keeps c i) :
    vfuMatch (x.fsm.marks i x.fsm.lpLctr) i.lpData =
      punched s c (lineAt (form s c) s.fsm.lpLctr.toNat (k + 1)) := by
  have hline : x.fsm.lpLctr = BitVec.ofNat 8 (lineAt (form s c) s.fsm.lpLctr.toNat (k + 1)) := by
    rw [← h.lpLctr, BitVec.ofNat_toNat, BitVec.setWidth_eq]
  unfold punched Lp26.Fsm.marks
  rw [hkeeps.lpData, hkeeps.lpOvfu, h.lpVfuDat, ← hline]

/-- What a clock of the search does. -/
theorem Searches.fsm_next (h : Searches s c k x) (hkeeps : Keeps c i) : (x.next i).fsm =
    if k + 1 = form s c then { x.fsm with lpTxStb := false, state := .vfuOffln }
    else if punched s c (lineAt (form s c) s.fsm.lpLctr.toNat (k + 1)) then
      { x.fsm with lpTxStb := false, lpCount := 0, state := .vfuPrint }
    else
      { x.fsm with
        lpTxStb := false
        lpLctr := x.fsm.nextLine i
        lpLfCnt := x.fsm.lpLfCnt + 1
        lpCount := x.fsm.lpCount + 1
        state := .dly2 } := by
  have hround : x.fsm.lpCount = s.fsm.vfuLen c ↔ k + 1 = form s c := by
    unfold form
    rw [← h.lpCount, Nat.add_right_cancel_iff]
    exact ⟨congrArg BitVec.toNat, BitVec.eq_of_toNat_eq⟩
  have hstep : ({ x.fsm with lpTxStb := false } : Lp26.Fsm).step i x.lpXon =
      ({ x.fsm with lpTxStb := false } : Lp26.Fsm).search i i.lpData .dly2 := by
    unfold Lp26.Fsm.step
    dsimp only
    rw [h.state]
  rw [LpSkip.fsm_next hkeeps.rst, hstep]
  show (if x.fsm.lpCount = x.fsm.vfuLen i then _
    else if vfuMatch (x.fsm.marks i x.fsm.lpLctr) i.lpData then _ else _) = _
  rw [h.vfuLen hkeeps, h.vfuMatch_eq hkeeps]
  simp only [hround]
  rfl

/-- A line without a mark is left after two clocks. -/
theorem Searches.next (h : Searches s c k x) (hi : Keeps c i) (hj : Keeps c j)
    (hround : k + 1 < form s c)
    (hnone : punched s c (lineAt (form s c) s.fsm.lpLctr.toNat (k + 1)) = false) :
    (x.next i).fsm.state = .dly2 ∧ Searches s c (k + 1) ((x.next i).next j) := by
  have hfsm := h.fsm_next hi
  rw [if_neg (Nat.ne_of_lt hround), hnone, if_neg Bool.false_ne_true] at hfsm
  have hstate : (x.next i).fsm.state = .dly2 := by rw [hfsm]
  have hfsm' : ((x.next i).next j).fsm =
      { (x.next i).fsm with lpTxStb := false, state := .vfuChan } := by
    rw [LpSkip.fsm_next hj.rst]
    unfold Lp26.Fsm.step
    dsimp only
    rw [hstate]
  have hlen : (s.fsm.vfuLen c).toNat < 256 := (s.fsm.vfuLen c).isLt
  refine ⟨hstate, ?_, ?_, ?_, ?_, ?_, ?_⟩
  · rw [hfsm']
  · rw [hfsm', hfsm]
    show (x.fsm.lpCount + 1).toNat = k + 1
    unfold form at hround
    rw [BitVec.toNat_add, h.lpCount]
    show (k + 1) % 256 = k + 1
    exact Nat.mod_eq_of_lt (by omega)
  · rw [hfsm', hfsm]
    show x.fsm.lpLfCnt + 1 = x.fsm.lpCount + 1 + 1
    rw [h.lpLfCnt]
  · rw [hfsm', hfsm]
    refine nextLine_lineAt ?_ h.lpLctr
    rw [h.vfuLen hi]
    rfl
  · rw [hfsm', hfsm]
    exact h.lpDvfuLen
  · rw [hfsm', hfsm]
    exact h.lpVfuDat

/-! ## The end of the search -/

theorem searching_of_chan (h : x.fsm.state = .vfuChan) : searching x = true := by
  unfold searching
  rw [h]
  rfl

theorem searching_of_dly2 (h : x.fsm.state = .dly2) : searching x = true := by
  unfold searching
  rw [h]
  rfl

/-- The search has one end. -/
theorem Over.unique {i : Nat → In} {t u v : Nat} (hu : Over x i t u) (hv : Over x i t v) :
    u = v := by
  rcases Nat.lt_trichotomy u v with hlt | heq | hgt
  · have hstill := hv.2.2 u hu.1 hlt
    rw [hu.2.1] at hstill
    cases hstill
  · exact heq
  · have hstill := hu.2.2 v hv.1 hgt
    rw [hv.2.1] at hstill
    cases hstill

section Run

variable {i : Nat → In} {t : Nat}

/-- The search looks at one line every second clock, as long as it finds no mark. -/
theorem search_at (htidy : (run Lp26.next x i t).fsm.Tidy)
    (hcmd : Commands (run Lp26.next x i t) (i t))
    (hkeeps : ∀ u, t < u → searching (run Lp26.next x i u) = true → Keeps (i t) (i u))
    (hk : k < form (run Lp26.next x i t) (i t))
    (hnone : ∀ j, 1 ≤ j → j ≤ k → punched (run Lp26.next x i t) (i t)
      (lineAt (form (run Lp26.next x i t) (i t)) (run Lp26.next x i t).fsm.lpLctr.toNat j) =
        false) :
    Searches (run Lp26.next x i t) (i t) k (run Lp26.next x i (t + 1 + 2 * k)) ∧
      ∀ v, t < v → v ≤ t + 1 + 2 * k → searching (run Lp26.next x i v) = true := by
  induction k with
  | zero =>
      have hfirst : Searches (run Lp26.next x i t) (i t) 0 (run Lp26.next x i (t + 1)) :=
        hcmd.searches htidy
      refine ⟨hfirst, fun v htv hv => ?_⟩
      obtain rfl : v = t + 1 := by omega
      exact searching_of_chan hfirst.state
  | succ k ih =>
      obtain ⟨hsearches, hbefore⟩ := ih (by omega) fun j hj hjk => hnone j hj (by omega)
      have hkeep := hkeeps (t + 1 + 2 * k) (by omega) (searching_of_chan hsearches.state)
      have hdly : (run Lp26.next x i (t + 1 + 2 * k + 1)).fsm.state = .dly2 :=
        (hsearches.next hkeep hkeep hk (hnone (k + 1) (by omega) (by omega))).1
      have hkeep' := hkeeps (t + 1 + 2 * k + 1) (by omega) (searching_of_dly2 hdly)
      have hnext : Searches (run Lp26.next x i t) (i t) (k + 1)
          (run Lp26.next x i (t + 1 + 2 * (k + 1))) :=
        (hsearches.next hkeep hkeep' hk (hnone (k + 1) (by omega) (by omega))).2
      refine ⟨hnext, fun v htv hv => ?_⟩
      rcases Nat.lt_or_ge (t + 1 + 2 * k) v with hlt | hle
      · rcases Nat.lt_or_eq_of_le hv with hone | rfl
        · obtain rfl : v = t + 1 + 2 * k + 1 := by omega
          exact searching_of_dly2 hdly
        · exact searching_of_chan hnext.state
      · exact hbefore v htv hle

/-- A mark within one round stops the search. -/
theorem stops_of_first (htidy : (run Lp26.next x i t).fsm.Tidy)
    (hcmd : Commands (run Lp26.next x i t) (i t))
    (hkeeps : ∀ u, t < u → searching (run Lp26.next x i u) = true → Keeps (i t) (i u))
    (hfirst : First (punched (run Lp26.next x i t) (i t)) (form (run Lp26.next x i t) (i t))
      (run Lp26.next x i t).fsm.lpLctr.toNat k)
    (hk : k < form (run Lp26.next x i t) (i t)) : Stops x i t k := by
  obtain ⟨k, rfl⟩ := Nat.exists_eq_add_of_le' hfirst.pos
  obtain ⟨hsearches, hbefore⟩ := search_at htidy hcmd hkeeps (Nat.lt_of_succ_lt hk)
    fun j hj hjk => hfirst.none j hj (Nat.lt_succ_of_le hjk)
  have hkeep := hkeeps (t + 1 + 2 * k) (by omega) (searching_of_chan hsearches.state)
  have hfsm : (run Lp26.next x i (t + 1 + 2 * k + 1)).fsm = _ := hsearches.fsm_next hkeep
  rw [if_neg (Nat.ne_of_lt hk), hfirst.found, if_pos rfl] at hfsm
  have hlen : ((run Lp26.next x i t).fsm.vfuLen (i t)).toNat < 256 := BitVec.isLt _
  refine ⟨t + 1 + 2 * k + 1, ⟨by omega, ?_, fun v htv hv => hbefore v htv (by omega)⟩,
    ?_, ?_, ?_⟩
  · unfold searching
    rw [hfsm]
    rfl
  · rw [hfsm]
  · rw [hfsm]
    exact hsearches.lpLctr
  · rw [hfsm]
    show (run Lp26.next x i (t + 1 + 2 * k)).fsm.lpLfCnt.toNat = k + 1
    unfold form at hk
    rw [hsearches.lpLfCnt, BitVec.toNat_add, hsearches.lpCount]
    show (k + 1) % 256 = k + 1
    exact Nat.mod_eq_of_lt (by omega)

/-- Without a mark on the other lines the search comes round and faults. -/
theorem faults_of_none (htidy : (run Lp26.next x i t).fsm.Tidy)
    (hcmd : Commands (run Lp26.next x i t) (i t))
    (hkeeps : ∀ u, t < u → searching (run Lp26.next x i u) = true → Keeps (i t) (i u))
    (hnone : ∀ m, m < form (run Lp26.next x i t) (i t) →
      m ≠ (run Lp26.next x i t).fsm.lpLctr.toNat →
        punched (run Lp26.next x i t) (i t) m = false) : Faults x i t := by
  obtain ⟨last, hlast⟩ : ∃ last, form (run Lp26.next x i t) (i t) = last + 1 := ⟨_, rfl⟩
  obtain ⟨hsearches, hbefore⟩ := search_at (k := last) htidy hcmd hkeeps (by omega)
    fun j hj hjk => hnone _ (lineAt_lt (by omega)) (lineAt_ne hcmd.line hj (by omega))
  have hkeep := hkeeps (t + 1 + 2 * last) (by omega) (searching_of_chan hsearches.state)
  have hfsm : (run Lp26.next x i (t + 1 + 2 * last + 1)).fsm = _ := hsearches.fsm_next hkeep
  rw [if_pos hlast.symm] at hfsm
  refine ⟨t + 1 + 2 * last + 1, ⟨by omega, ?_, fun v htv hv => hbefore v htv (by omega)⟩, ?_⟩
  · unfold searching
    rw [hfsm]
    rfl
  · rw [hfsm]

/-- A search does not stop and fault. -/
theorem not_stops_of_faults (h : Faults x i t) : ¬ Stops x i t k := by
  rintro ⟨u, hu, hprint, -⟩
  obtain ⟨v, hv, hoffln⟩ := h
  rw [hu.unique hv, hoffln] at hprint
  cases hprint

end Run

/-- After a reset, a skip goes to the first punched line exactly when the channel is not
punched on the current line alone. -/
theorem skips_iff (x : Lp26) (hreset : AfterReset x) (i : Nat → In) (t : Nat)
    (hcmd : Commands (run Lp26.next x i t) (i t))
    (hkeeps : ∀ u, t < u → searching (run Lp26.next x i u) = true → Keeps (i t) (i u)) :
    Skips x i t ↔
      (punched (run Lp26.next x i t) (i t) (run Lp26.next x i t).fsm.lpLctr.toNat = true →
        ∃ m, m < form (run Lp26.next x i t) (i t) ∧
          m ≠ (run Lp26.next x i t).fsm.lpLctr.toNat ∧
            punched (run Lp26.next x i t) (i t) m = true) := by
  have htidy := tidy_run hreset i t
  constructor
  · intro h hcur
    by_contra hnone
    have hfaults : Faults x i t := by
      refine faults_of_none htidy hcmd hkeeps fun m hm hne => ?_
      rw [← Bool.not_eq_true]
      exact fun hmark => hnone ⟨m, hm, hne, hmark⟩
    obtain ⟨k, -, hstops⟩ := h.stops _ hcmd.line hcur
    exact not_stops_of_faults hfaults hstops
  · intro h
    have hother : ∀ m, m < form (run Lp26.next x i t) (i t) →
        punched (run Lp26.next x i t) (i t) m = true →
        ∃ k, k < form (run Lp26.next x i t) (i t) ∧
          First (punched (run Lp26.next x i t) (i t)) (form (run Lp26.next x i t) (i t))
            (run Lp26.next x i t).fsm.lpLctr.toNat k := by
      intro m hm hmark
      refine exists_first hcmd.line ?_
      by_cases hcur : m = (run Lp26.next x i t).fsm.lpLctr.toNat
      · exact h (hcur ▸ hmark)
      · exact ⟨m, hm, hcur, hmark⟩
    refine ⟨fun m hm hmark => ?_, fun hfaults m hm => ?_⟩
    · obtain ⟨k, hk, hfirst⟩ := hother m hm hmark
      exact ⟨k, hfirst, stops_of_first htidy hcmd hkeeps hfirst hk⟩
    · rw [← Bool.not_eq_true]
      intro hmark
      obtain ⟨k, hk, hfirst⟩ := hother m hm hmark
      exact not_stops_of_faults hfaults (stops_of_first htidy hcmd hkeeps hfirst hk)

/-- A strobe of one character. -/
def strobe (lpPi : Bool) (lpData : BitVec 8) : In where
  rst := false
  lpInit := false
  lpSetOnln := false
  lpSetOffln := false
  lpOvfu := false
  lpStrobe := true
  lpData := lpData
  lpPi := lpPi
  lpTxEmpty := true
  lpRxFull := false
  lpRxDat := 0

/-- A form of two lines is loaded, with channel 1 on line 0 and channel 2 on line 1, and then
comes a command. -/
def twoLines (command : BitVec 8) : Nat → In
  | 0 => strobe true Lp26.charStart3
  | 1 => strobe false 0b000001
  | 2 => strobe false 0
  | 3 => strobe false 0b000010
  | 4 => strobe false 0
  | 5 => strobe true Lp26.charStop
  | 6 | 7 | 8 => { strobe false 0 with lpStrobe := false }
  | 9 => strobe true command
  | _ + 10 => { strobe true command with lpStrobe := false }

theorem twoLines_keeps (command : BitVec 8) {u : Nat} (hu : 9 < u) :
    Keeps (twoLines command 9) (twoLines command u) := by
  obtain ⟨w, rfl⟩ := Nat.exists_eq_add_of_le' hu
  exact ⟨rfl, rfl, rfl⟩

theorem twoLines_commands : Commands (run Lp26.next Lp26.afterReset (twoLines 0) 9)
      (twoLines 0 9) ∧
    Commands (run Lp26.next Lp26.afterReset (twoLines 1) 9) (twoLines 1 9) :=
  ⟨⟨by decide +kernel, rfl, rfl, rfl, by decide, by decide, by decide +kernel⟩,
    ⟨by decide +kernel, rfl, rfl, rfl, by decide, by decide, by decide +kernel⟩⟩

theorem skips_iff_twoLines : Skips Lp26.afterReset (twoLines 1) 9 :=
  (skips_iff Lp26.afterReset rfl (twoLines 1) 9 twoLines_commands.2
    fun _ hu _ => twoLines_keeps 1 hu).mpr fun h => absurd h (by decide +kernel)

/-- At the top of the form a skip to the top of the form faults. -/
theorem skips_fails : ¬ ∀ x, AfterReset x → ∀ (i : Nat → In) (t : Nat),
    Commands (run Lp26.next x i t) (i t) →
    (∀ u, t < u → searching (run Lp26.next x i u) = true → Keeps (i t) (i u)) →
    Skips x i t := by
  intro h
  have hfaults : Faults Lp26.afterReset (twoLines 0) 9 :=
    faults_of_none (tidy_run (x := Lp26.afterReset) rfl (twoLines 0) 9) twoLines_commands.1
      (fun u hu _ => twoLines_keeps 0 hu)
      (by decide +kernel)
  have hskips := h Lp26.afterReset rfl (twoLines 0) 9 twoLines_commands.1
    fun u hu _ => twoLines_keeps 0 hu
  obtain ⟨k, -, hstops⟩ := hskips.stops 0 (by decide +kernel) (by decide +kernel)
  exact not_stops_of_faults hfaults hstops

end LpSkip

end KS10
