import KS10.Uart.Link

/-!
# The two sides of the UART stay in step

One clock of the transmitter and one of the receiver take the pair of the places to the next
one (`Pair.next`).  The receiver sees the start bit at most three enables after its beginning,
takes every bit of the frame from the line while the transmitter is at this bit, and is idle
again before the start bit of the next frame is three enables old.
-/

namespace KS10

open Uart (Sym)

namespace UartLink

variable {c : UartCfg} {apart en1 en2 : Bool} {p q : UartSent} {s : UartLink} {i : In}
  {x : TxPhase} {y : RxPhase} {t u n : Nat}

/-! ## The receiver -/

/-- The flip-flops are not part of the place in the frame. -/
theorem rx_next (h : RxShows c q (s.rx.step c i.clken) y) : RxShows c q (s.next c i).rx y := by
  have hstate : (s.next c i).rx.state = (s.rx.step c i.clken).state :=
    UartRx.next_state (i := s.rxIn c i) rfl rfl
  have hbrdiv : (s.next c i).rx.brdiv = (s.rx.step c i.clken).brdiv :=
    UartRx.next_brdiv (i := s.rxIn c i) rfl rfl
  have htaken : (s.next c i).rx.taken = (s.rx.step c i.clken).taken :=
    UartRx.next_taken (i := s.rxIn c i) rfl rfl
  have hat : ∀ t, UartRx.At c (s.rx.step c i.clken) t → UartRx.At c (s.next c i).rx t :=
    fun t h => ⟨h.lt, hstate.trans h.state, by rw [hbrdiv]; exact h.brdiv⟩
  cases y with
  | idle => exact hstate.trans h
  | hears t => exact ⟨hat t h.1, fun hplace => htaken.trans (h.2 hplace)⟩
  | ends n => exact ⟨hat _ h.1, htaken.trans h.2⟩
  | done => exact ⟨hstate.trans h.1, htaken.trans h.2⟩

/-- The idle receiver waits for an enable at which the line is low. -/
theorem rx_idle {r : UartRx} {en : Bool} (h : r.state = .idle) (hnot : (en && !r.din) = false) :
    r.step c en = r := by
  unfold UartRx.step
  rw [h]
  dsimp only
  rw [hnot]
  rfl

theorem rx_sees {r : UartRx} (h : r.state = .idle) (hlow : r.din = false) :
    RxShows c q (r.step c true) (.hears 0) := by
  refine ⟨(UartRx.at_zero h hlow).1, fun hplace => ?_⟩
  unfold UartRx.place at hplace
  omega

theorem symAt_start_of : ∀ (length parity : BitVec 2) (stop : Bool) (j : Nat),
    j < (UartCfg.mk length parity stop).plan.length →
      (UartCfg.mk length parity stop).symAt j = .start → j = 0 := by
  decide +kernel

/-- An enable in the frame. -/
theorem rx_hears {r : UartRx} (h : RxShows c q r (.hears t)) (hlt : t + 1 < 16 * c.plan.length)
    (hlow : UartRx.place t = 0 → r.din = false)
    (hdin : t % 16 = 7 → UartRx.place t < c.plan.length →
      r.din = q.lineBit c (c.symAt (UartRx.place t))) :
    RxShows c q (r.step c true) (.hears (t + 1)) := by
  obtain ⟨hat, htaken⟩ := h
  by_cases hplace : UartRx.place t < c.plan.length
  · obtain ⟨hat', htaken'⟩ := hat.take hplace fun hstart =>
      hlow (symAt_start_of c.length c.parity c.stop _ hplace hstart)
    refine ⟨hat', fun hone => ?_⟩
    rw [htaken']
    by_cases hmiddle : t % 16 = 7
    · have hnext : UartRx.place (t + 1) = UartRx.place t + 1 := by
        unfold UartRx.place
        omega
      rw [if_pos hmiddle, hnext]
      by_cases hzero : UartRx.place t = 0
      · rw [hzero]
        exact UartSent.sample_start _ _
      · rw [hdin hmiddle hplace, htaken (by omega), UartSent.taken_succ hplace]
    · have hnext : UartRx.place (t + 1) = UartRx.place t := by
        unfold UartRx.place
        omega
      rw [if_neg hmiddle, hnext]
      exact htaken (by omega)
  · obtain ⟨htaken', ⟨-, hat'⟩ | ⟨hend, -⟩⟩ := hat.wait hplace
    · have hnext : UartRx.place (t + 1) = UartRx.place t := by
        unfold UartRx.place at hplace ⊢
        omega
      refine ⟨hat', fun hone => ?_⟩
      rw [htaken', hnext]
      exact htaken (by omega)
    · omega

/-- What the receiver holds after the last bit. -/
theorem rx_heard {r : UartRx} (h : RxShows c q r (.hears t)) (hlegal : q.Legal c)
    (hplace : ¬ UartRx.place t < c.plan.length) : r.taken = q.heard c := by
  obtain ⟨hat, htaken⟩ := h
  have hlt := hat.lt
  have hlength : 0 < c.plan.length := Nat.succ_pos _
  have hlast : UartRx.place t = c.plan.length := by
    unfold UartRx.place at hplace ⊢
    omega
  rw [htaken (by omega), hlast, UartSent.heard_eq hlegal]

/-- The last enables only count. -/
theorem rx_ends {r : UartRx} (h : RxShows c q r (.ends n)) (hn : 1 ≤ n) (hn8 : n ≤ 8) :
    RxShows c q (r.step c true) (if n = 1 then .done else .ends (n - 1)) := by
  obtain ⟨hat, htaken⟩ := h
  have hlt := hat.lt
  have hplace : ¬ UartRx.place (16 * c.plan.length - n) < c.plan.length := by
    unfold UartRx.place
    omega
  obtain ⟨htaken', ⟨hlt', hat'⟩ | ⟨hend, hdone⟩⟩ := hat.wait hplace
  · have heq : 16 * c.plan.length - n + 1 = 16 * c.plan.length - (n - 1) := by omega
    rw [if_neg (by omega)]
    exact ⟨heq ▸ hat', htaken'.trans htaken⟩
  · rw [if_pos (by omega)]
    exact ⟨hdone, htaken'.trans htaken⟩

/-- The receiver keeps its place where the clock is not enabled. -/
theorem rx_stays {r : UartRx} (h : RxShows c q r y) (hdone : y ≠ .done) : r.step c false = r := by
  cases y with
  | idle => exact rx_idle h rfl
  | hears t => exact h.1.stay
  | ends n => exact h.1.stay
  | done => exact absurd rfl hdone

theorem rx_done {r : UartRx} {en : Bool} (h : r.state = .done) : (r.step c en).state = .idle := by
  unfold UartRx.step
  rw [h]

/-! ## One clock of the two sides -/

/-- The character that the transmitter accepts at this clock. -/
def arriving (s : UartLink) (i : In) : List UartSent :=
  if s.accepts i then [⟨i.data, i.hit⟩] else []

theorem sent_next : (s.next c i).sent = s.sent ++ arriving s i := by
  show (if s.accepts i then s.sent ++ [⟨i.data, i.hit⟩] else s.sent) = _
  unfold arriving
  cases s.accepts i with
  | false => exact (List.append_nil _).symm
  | true => rfl

theorem received_next (h : s.rx.state ≠ .done) : (s.next c i).received = s.received := by
  show (if s.rx.intr then s.received ++ [s.rx.taken] else s.received) = s.received
  unfold UartRx.intr
  rw [beq_eq_false_iff_ne.mpr h, if_neg Bool.false_ne_true]

/-- The transmitter keeps its character and takes the one that arrives, unless the frame ends. -/
theorem txHas_next (h : TxShows c en1 en2 p s x)
    (hgo : ∀ t, x = .sends t → i.clken = true → t + 1 < 16 * c.plan.length) :
    txHas (load p s i) (x.next c i.clken i.load) = txHas p x ++ arriving s i := by
  cases x with
  | idle =>
      have haccepts : s.accepts i = i.load := by
        unfold accepts
        rw [h.1]
        rfl
      unfold load arriving TxPhase.next
      rw [haccepts]
      cases i.load <;> rfl
  | sync =>
      have hne : s.tx.state ≠ .idle := by
        rw [h.1]
        nofun
      unfold arriving
      rw [load_of_ne hne, accepts_of_ne hne]
      cases i.clken <;> rfl
  | sends t =>
      have hne : s.tx.state ≠ .idle := by
        rw [h.1.state]
        nofun
      unfold arriving TxPhase.next
      rw [load_of_ne hne, accepts_of_ne hne]
      cases hclken : i.clken with
      | false => rfl
      | true =>
          dsimp only
          rw [if_pos rfl, if_pos (hgo t rfl hclken)]
          rfl
  | done =>
      have hne : s.tx.state ≠ .idle := by
        rw [h.1]
        nofun
      unfold arriving
      rw [load_of_ne hne, accepts_of_ne hne]
      rfl

/-- A character that arrives may be inverted at a data bit or at the parity bit. -/
def Offers (c : UartCfg) (i : In) : Prop := i.load = true → (UartSent.mk i.data i.hit).Legal c

theorem legal_next (h : Pair c apart en1 en2 p q x y s) (hi : Offers c i)
    (hgo : ∀ t, x = .sends t → i.clken = true → t + 1 < 16 * c.plan.length) :
    ∀ r ∈ txHas (load p s i) (x.next c i.clken i.load), r.Legal c := by
  intro r hr
  rw [txHas_next h.tx hgo, List.mem_append] at hr
  rcases hr with hr | hr
  · exact h.legal r hr
  · unfold arriving at hr
    cases haccepts : s.accepts i with
    | false =>
        rw [haccepts] at hr
        cases hr
    | true =>
        rw [haccepts] at hr
        have hload : i.load = true := by
          unfold accepts at haccepts
          exact (Bool.and_eq_true_iff.mp haccepts).2
        rw [List.mem_singleton.mp hr]
        exact hi hload

/-- The receiver stays with what it has, or it begins with the frame on the line. -/
theorem Pair.goes (h : Pair c apart en1 en2 p q x y s) (hi : Offers c i) {y' : RxPhase}
    (hgo : ∀ t, x = .sends t → i.clken = true → t + 1 < 16 * c.plan.length)
    (hne : s.rx.state ≠ .done) {q' : UartSent} (hrx : RxShows c q' (s.rx.step c i.clken) y')
    (htied : Tied apart i.clken en1 (x.next c i.clken i.load) y')
    (hsame : ∀ t, y' = .hears t → q' = load p s i) (hhas : rxHas q' y' = rxHas q y) :
    Pair c apart i.clken en1 (load p s i) q' (x.next c i.clken i.load) y' (s.next c i) where
  tx := tx_step h.tx h.legal
  rx := rx_next hrx
  tied := htied
  same := hsame
  legal := legal_next h hi hgo
  lists := by
    obtain ⟨past, hsent, hreceived⟩ := h.lists
    refine ⟨past, ?_, (received_next hne).trans hreceived⟩
    rw [sent_next, hsent, txHas_next h.tx hgo, hhas, List.append_assoc, List.append_assoc]

/-- What the receiver sees on the line at the beginning of a frame. -/
theorem din_first (h : Pair c apart en1 en2 p q (.sends t) y s) (ht : t < 16) :
    s.rx.din = decide (t < en1.toNat + en2.toNat) := by
  obtain ⟨-, -, -, hdin⟩ := h.tx
  rw [hdin]
  unfold lineAt
  by_cases hlt : t < en1.toNat + en2.toNat
  · rw [if_pos hlt, decide_eq_true hlt]
  · have hdiv : (t - (en1.toNat + en2.toNat)) / 16 = 0 := by omega
    rw [if_neg hlt, decide_eq_false hlt, hdiv]
    exact lineBit_first (h.legal p (List.mem_singleton_self p))

theorem plan_long_of : ∀ (length parity : BitVec 2) (stop : Bool),
    7 ≤ (UartCfg.mk length parity stop).plan.length := by
  decide +kernel

theorem plan_long (c : UartCfg) : 7 ≤ c.plan.length := plan_long_of c.length c.parity c.stop

theorem most_le (apart : Bool) : most apart ≤ 3 := by
  cases apart with
  | false => exact Nat.le_refl 3
  | true => exact Nat.le_succ 2

theorem most_pos (apart : Bool) : 0 < most apart := by
  cases apart with
  | false => exact Nat.succ_pos 2
  | true => exact Nat.succ_pos 1

/-- The transmitter goes on while the receiver is idle. -/
theorem nearer_idle {en load : Bool}
    (hgo : ∀ t, x = .sends t → en = true → t + 1 < 16 * c.plan.length ∧ t ≤ 3) :
    Nearer c en x .idle (x.next c en load) .idle := by
  cases x with
  | idle =>
      cases load with
      | false => exact ⟨Nat.le_refl _, fun _ hbusy => absurd hbusy (Nat.not_succ_le_self _)⟩
      | true => exact ⟨Nat.le_succ _, fun _ _ => Nat.lt_succ_self _⟩
  | sync =>
      cases en with
      | false => exact ⟨Nat.le_refl _, nofun⟩
      | true => exact ⟨Nat.le_succ _, fun _ _ => Nat.lt_succ_self _⟩
  | sends t =>
      unfold TxPhase.next
      dsimp only
      by_cases hen : en = true
      · obtain ⟨hlt, hthree⟩ := hgo t rfl hen
        have hless : togo c (.sends (t + 1)) .idle < togo c (.sends t) .idle := by
          show 16 * c.plan.length + 4 - (t + 1) < 16 * c.plan.length + 4 - t
          omega
        rw [if_pos hen, if_pos hlt]
        exact ⟨Nat.le_of_lt hless, fun _ _ => hless⟩
      · rw [if_neg hen]
        exact ⟨Nat.le_refl _, fun h => absurd h hen⟩
  | done => exact ⟨Nat.le_refl _, fun _ hbusy => absurd hbusy (Nat.not_succ_le_self _)⟩

/-- The transmitter is at the beginning of its frame while the receiver is idle. -/
theorem goes_on (h : Pair c apart en1 en2 p q (.sends t) .idle s) :
    ∀ u, TxPhase.sends t = .sends u → i.clken = true → u + 1 < 16 * c.plan.length := by
  have hmost : t < most apart := h.tied
  have hthree := most_le apart
  have hlong := plan_long c
  intro u heq _
  cases heq
  omega

/-- The receiver sees the start bit of the frame on the line. -/
theorem step_sees (h : Pair c apart en1 en2 p q (.sends t) .idle s) (hi : Offers c i)
    (hclken : i.clken = true) (hle : en1.toNat + en2.toNat ≤ t) :
    Goes c apart en1 (.sends t) .idle s i := by
  have hmost : t < most apart := h.tied
  have hthree := most_le apart
  have hlong := plan_long c
  have hrx : s.rx.state = .idle := h.rx
  have hlow : s.rx.din = false := by
    rw [din_first h (by omega), decide_eq_false (Nat.not_lt.mpr hle)]
  have hload : load p s i = p := load_of_ne (by rw [h.tx.1.state]; nofun)
  have hless : ∀ x', togo c x' (.hears 0) < togo c (.sends t) .idle := by
    intro x'
    show 16 * c.plan.length - 0 < 16 * c.plan.length + 4 - t
    omega
  refine ⟨_, p, _, .hears 0,
    h.goes hi (goes_on h) (by rw [hrx]; nofun) ?_ ?_ (fun _ _ => hload.symm) rfl,
    .inr ⟨Nat.le_of_lt (hless _), fun _ _ => hless _⟩⟩
  · rw [hclken]
    exact rx_sees hrx hlow
  · unfold TxPhase.next
    dsimp only
    rw [hclken, if_pos rfl, if_pos (goes_on h t rfl hclken)]
    refine ⟨Nat.succ_pos t, by omega, ?_⟩
    rw [Bool.toNat_true]
    omega

/-- The receiver does not see the start bit yet. -/
theorem step_unseen (h : Pair c apart en1 en2 p q (.sends t) .idle s) (hi : Offers c i)
    (hspaced : Spaced apart en1 i.clken)
    (hnot : i.clken = true → t < en1.toNat + en2.toNat) :
    Goes c apart en1 (.sends t) .idle s i := by
  have hmost : t < most apart := h.tied
  have hthree := most_le apart
  have hrx : s.rx.state = .idle := h.rx
  have hgo := goes_on (i := i) h
  have hstay : s.rx.step c i.clken = s.rx := by
    refine rx_idle hrx ?_
    cases hclken : i.clken with
    | false => rfl
    | true =>
        rw [din_first h (by omega), decide_eq_true (hnot hclken)]
        rfl
  refine ⟨_, q, _, .idle, h.goes hi hgo (by rw [hrx]; nofun) (hstay.symm ▸ hrx) ?_ nofun rfl,
    .inr (nearer_idle fun u heq hen => ⟨hgo u heq hen, ?_⟩)⟩
  on_goal 2 =>
    cases heq
    omega
  unfold TxPhase.next
  dsimp only
  cases hclken : i.clken with
  | false => exact hmost
  | true =>
      have hlt := hnot hclken
      rw [if_pos rfl, if_pos (hgo t rfl hclken)]
      show t + 1 < most apart
      have h1 := Bool.toNat_le en1
      have h2 := Bool.toNat_le en2
      unfold Spaced at hspaced
      cases apart with
      | false => show t + 1 < 3; omega
      | true =>
          cases en1 with
          | false =>
              rw [Bool.toNat_false] at hlt
              show t + 1 < 2
              omega
          | true =>
              have hapart := hspaced rfl
              rw [hclken] at hapart
              cases hapart

/-- The receiver is idle. -/
theorem step_idle (h : Pair c apart en1 en2 p q x .idle s) (hi : Offers c i)
    (hspaced : Spaced apart en1 i.clken) : Goes c apart en1 x .idle s i := by
  have hrx : s.rx.state = .idle := h.rx
  have hne : s.rx.state ≠ .done := by
    rw [hrx]
    nofun
  cases x with
  | idle =>
      obtain ⟨-, -, hdin⟩ := h.tx
      have hstay : s.rx.step c i.clken = s.rx :=
        rx_idle hrx (by rw [hdin, Bool.not_true, Bool.and_false])
      refine ⟨_, q, _, .idle, h.goes hi nofun hne (hstay.symm ▸ hrx) ?_ nofun rfl,
        .inr (nearer_idle nofun)⟩
      cases i.load <;> exact trivial
  | sync =>
      obtain ⟨-, -, -, hdin⟩ := h.tx
      have hstay : s.rx.step c i.clken = s.rx :=
        rx_idle hrx (by rw [hdin, Bool.not_true, Bool.and_false])
      refine ⟨_, q, _, .idle, h.goes hi nofun hne (hstay.symm ▸ hrx) ?_ nofun rfl,
        .inr (nearer_idle nofun)⟩
      cases i.clken with
      | false => exact trivial
      | true => exact most_pos apart
  | sends t =>
      by_cases hsees : i.clken = true ∧ en1.toNat + en2.toNat ≤ t
      · exact step_sees h hi hsees.1 hsees.2
      · refine step_unseen h hi hspaced fun hclken => ?_
        by_contra hge
        exact hsees ⟨hclken, Nat.le_of_not_lt hge⟩
  | done => exact h.tied.elim

/-- The receiver takes what the transmitter has put on the line. -/
theorem rx_hears_line (h : Pair c apart en1 en2 p q (.sends t) (.hears u) s) :
    RxShows c q (s.rx.step c true) (.hears (u + 1)) := by
  obtain ⟨hless, hmost, hle⟩ := h.tied
  have hthree := most_le apart
  have hlong := plan_long c
  have hlt := h.tx.1.lt
  obtain rfl := h.same u rfl
  have h1 := Bool.toNat_le en1
  have h2 := Bool.toNat_le en2
  refine rx_hears h.rx (by omega) (fun hzero => ?_) fun hmiddle hplace => ?_
  · have hu : u < 8 := by
      unfold UartRx.place at hzero
      omega
    rw [din_first h (by omega), decide_eq_false (Nat.not_lt.mpr hle)]
  · obtain ⟨-, -, -, hdin⟩ := h.tx
    have hdiv : (t - (en1.toNat + en2.toNat)) / 16 = UartRx.place u := by
      unfold UartRx.place
      omega
    rw [hdin]
    unfold lineAt
    rw [if_neg (Nat.not_lt.mpr hle), hdiv]

/-- The transmitter leaves the frame, and the receiver is at its last bit. -/
theorem step_heard (h : Pair c apart en1 en2 p q (.sends t) (.hears u) s)
    (hclken : i.clken = true) (hend : ¬ t + 1 < 16 * c.plan.length) :
    Goes c apart en1 (.sends t) (.hears u) s i := by
  obtain ⟨hless, hmost, hle⟩ := h.tied
  obtain ⟨past, hsent, hreceived⟩ := h.lists
  have hthree := most_le apart
  have hlong := plan_long c
  have hlt := h.tx.1.lt
  have hstep := rx_hears_line h
  obtain rfl := h.same u rfl
  have hlegal : q.Legal c := h.legal q (List.mem_singleton_self q)
  have hne : s.rx.state ≠ .done := by
    rw [h.rx.1.state]
    split_ifs <;> nofun
  have hnext : TxPhase.next c i.clken i.load (.sends t) = .done := by
    unfold TxPhase.next
    dsimp only
    rw [if_pos hclken, if_neg hend]
  have htx := tx_step (i := i) h.tx h.legal
  have hplace : ¬ UartRx.place (u + 1) < c.plan.length := by
    unfold UartRx.place
    omega
  have hsub : 16 * c.plan.length - (16 * c.plan.length - (u + 1)) = u + 1 := by omega
  have harriving : arriving s i = [] := by
    unfold arriving
    rw [accepts_of_ne (by rw [h.tx.1.state]; nofun)]
    rfl
  have hnearer : togo c .done (.ends (16 * c.plan.length - (u + 1))) <
      togo c (.sends t) (.hears u) := by
    show 16 * c.plan.length - (u + 1) < 16 * c.plan.length - u
    omega
  rw [hnext] at htx
  refine ⟨_, q, .done, .ends (16 * c.plan.length - (u + 1)), ⟨htx, rx_next ?_, ?_, nofun,
    nofun, past, ?_, (received_next hne).trans hreceived⟩,
    .inr ⟨Nat.le_of_lt hnearer, fun _ _ => hnearer⟩⟩
  · rw [hclken]
    refine ⟨?_, rx_heard hstep hlegal hplace⟩
    rw [hsub]
    exact hstep.1
  · exact ⟨by omega, by omega⟩
  · rw [sent_next, harriving, List.append_nil, hsent]
    rfl

/-- The receiver is in the frame that the transmitter is sending. -/
theorem step_hears (h : Pair c apart en1 en2 p q x (.hears u) s) (hi : Offers c i) :
    Goes c apart en1 x (.hears u) s i := by
  cases x with
  | idle => exact h.tied.elim
  | sync => exact h.tied.elim
  | done => exact h.tied.elim
  | sends t =>
      obtain ⟨hless, hmost, hle⟩ := h.tied
      have hlt := h.tx.1.lt
      have hsame := h.same u rfl
      have hload : load p s i = p := load_of_ne (by rw [h.tx.1.state]; nofun)
      have hne : s.rx.state ≠ .done := by
        rw [h.rx.1.state]
        split_ifs <;> nofun
      by_cases hclken : i.clken = true
      · by_cases hend : t + 1 < 16 * c.plan.length
        · have hgo : ∀ v, TxPhase.sends t = .sends v → i.clken = true →
              v + 1 < 16 * c.plan.length := by
            intro v heq _
            cases heq
            exact hend
          have hless' : ∀ x', togo c x' (.hears (u + 1)) < togo c (.sends t) (.hears u) := by
            intro x'
            show 16 * c.plan.length - (u + 1) < 16 * c.plan.length - u
            omega
          refine ⟨_, q, _, .hears (u + 1), h.goes hi hgo hne (hclken ▸ rx_hears_line h) ?_
            (fun _ _ => hsame.trans hload.symm) rfl,
            .inr ⟨Nat.le_of_lt (hless' _), fun _ _ => hless' _⟩⟩
          unfold TxPhase.next
          dsimp only
          rw [if_pos hclken, if_pos hend, hclken]
          refine ⟨Nat.succ_lt_succ hless, by omega, ?_⟩
          rw [Bool.toNat_true]
          omega
        · exact step_heard h hclken hend
      · have hclken' : i.clken = false := Bool.eq_false_iff.mpr hclken
        have hstay : s.rx.step c i.clken = s.rx := by
          rw [hclken']
          exact rx_stays h.rx nofun
        refine ⟨_, q, _, .hears u, h.goes hi (fun _ _ hen => absurd hen hclken) hne
          (hstay.symm ▸ h.rx) ?_ (fun _ _ => hsame.trans hload.symm) rfl,
          .inr ⟨Nat.le_refl _, fun hen => absurd hen hclken⟩⟩
        unfold TxPhase.next
        dsimp only
        rw [if_neg hclken, hclken']
        refine ⟨hless, hmost, ?_⟩
        rw [Bool.toNat_false]
        omega

/-- The last enables of the receiver against a transmitter that may be in the next frame. -/
theorem tied_ends (c : UartCfg) {en : Bool} (load : Bool) (h : Tied apart en1 en2 x (.ends n))
    (hspaced : Spaced apart en1 en) : Tied apart en en1 (x.next c en load)
      (if en = true then if n = 1 then .done else .ends (n - 1) else .ends n) := by
  have hlong := plan_long c
  have hthree := most_le apart
  by_cases hen : en = true
  · rw [if_pos hen, hen]
    cases x with
    | idle =>
        obtain ⟨hn, hmost, -⟩ := h
        by_cases hone : n = 1
        · rw [if_pos hone]
          cases load <;> exact rfl
        · rw [if_neg hone]
          cases load with
          | false => exact ⟨by omega, by omega, .inr (.inr (by omega))⟩
          | true => exact ⟨by omega, by omega⟩
    | sync =>
        obtain ⟨hn, htwo⟩ := h
        by_cases hone : n = 1
        · rw [if_pos hone]
          exact ⟨rfl, Nat.zero_le 1⟩
        · rw [if_neg hone]
          exact ⟨rfl, by omega⟩
    | sends t =>
        obtain ⟨rfl, rfl⟩ := h
        unfold TxPhase.next
        dsimp only
        rw [if_pos rfl, if_pos rfl, if_pos (by omega)]
        exact ⟨rfl, Nat.le_refl 1⟩
    | done =>
        obtain ⟨hn, hmost⟩ := h
        by_cases hone : n = 1
        · rw [if_pos hone]
          exact rfl
        · rw [if_neg hone]
          exact ⟨by omega, by omega, .inr (.inr (by omega))⟩
  · rw [if_neg hen, Bool.eq_false_iff.mpr hen]
    cases x with
    | idle =>
        obtain ⟨hn, hmost, hspare⟩ := h
        cases load with
        | false => exact ⟨hn, hmost, .inr (.inl rfl)⟩
        | true =>
            refine ⟨hn, ?_⟩
            rcases hspare with rfl | rfl | htwo
            · exact hmost
            · cases apart with
              | true => exact hmost
              | false => exact absurd (hspaced rfl) hen
            · exact htwo
    | sync => exact h
    | sends t => exact h
    | done =>
        obtain ⟨hn, hmost⟩ := h
        exact ⟨hn, hmost, .inr (.inl rfl)⟩

/-- The receiver is at the end of a frame that the transmitter has left. -/
theorem step_ends (h : Pair c apart en1 en2 p q x (.ends n) s) (hi : Offers c i)
    (hspaced : Spaced apart en1 i.clken) : Goes c apart en1 x (.ends n) s i := by
  have hlong := plan_long c
  have hthree := most_le apart
  have htied := tied_ends c i.load h.tied hspaced
  have hn : 1 ≤ n ∧ n ≤ 3 := by
    cases x with
    | idle => exact ⟨h.tied.1, Nat.le_trans h.tied.2.1 hthree⟩
    | sync => exact ⟨h.tied.1, Nat.le_succ_of_le h.tied.2⟩
    | sends t =>
        obtain ⟨-, rfl⟩ := h.tied
        exact ⟨Nat.le_refl 1, by omega⟩
    | done => exact ⟨h.tied.1, Nat.le_trans h.tied.2 hthree⟩
  have hgo : ∀ t, x = .sends t → i.clken = true → t + 1 < 16 * c.plan.length := by
    rintro t rfl -
    obtain ⟨rfl, -⟩ := h.tied
    omega
  have hne : s.rx.state ≠ .done := by
    rw [h.rx.1.state]
    split_ifs <;> nofun
  by_cases hclken : i.clken = true
  · have hrx := rx_ends h.rx hn.1 (by omega)
    rw [if_pos hclken] at htied
    by_cases hone : n = 1
    · rw [if_pos hone] at htied hrx
      exact ⟨_, q, _, .done, h.goes hi hgo hne (hclken ▸ hrx) htied nofun rfl,
        .inr ⟨Nat.zero_le _, fun _ _ => hn.1⟩⟩
    · rw [if_neg hone] at htied hrx
      exact ⟨_, q, _, .ends (n - 1), h.goes hi hgo hne (hclken ▸ hrx) htied nofun rfl,
        .inr ⟨Nat.sub_le n 1, fun _ _ => Nat.sub_lt hn.1 Nat.zero_lt_one⟩⟩
  · have hstay : s.rx.step c i.clken = s.rx := by
      rw [Bool.eq_false_iff.mpr hclken]
      exact rx_stays h.rx nofun
    rw [if_neg hclken] at htied
    exact ⟨_, q, _, .ends n, h.goes hi hgo hne (hstay.symm ▸ h.rx) htied nofun rfl,
      .inr ⟨Nat.le_refl _, fun hen => absurd hen hclken⟩⟩

/-- The receiver has a character. -/
theorem step_done (h : Pair c apart en1 en2 p q x .done s) (hi : Offers c i)
    (hspaced : Spaced apart en1 i.clken) : Goes c apart en1 x .done s i := by
  obtain ⟨hstate, htaken⟩ : s.rx.state = .done ∧ s.rx.taken = q.heard c := h.rx
  obtain ⟨past, hsent, hreceived⟩ := h.lists
  have hlong := plan_long c
  have hgo : ∀ t, x = .sends t → i.clken = true → t + 1 < 16 * c.plan.length := by
    rintro t rfl -
    have htwo := h.tied.2
    omega
  refine ⟨_, q, _, .idle, ⟨tx_step h.tx h.legal, rx_next (rx_done hstate), ?_, nofun,
    legal_next h hi hgo, past ++ [q], ?_, ?_⟩, .inl rfl⟩
  · cases x with
    | idle => cases i.load <;> exact trivial
    | sync =>
        cases i.clken with
        | false => exact trivial
        | true => exact most_pos apart
    | sends t =>
        obtain ⟨hen1, hone⟩ := h.tied
        unfold TxPhase.next
        dsimp only
        by_cases hclken : i.clken = true
        · rw [if_pos hclken, if_pos (hgo t rfl hclken)]
          cases apart with
          | false => exact Nat.succ_lt_succ (Nat.lt_succ_of_le hone)
          | true =>
              have hnot := hspaced hen1
              rw [hclken] at hnot
              cases hnot
        · rw [if_neg hclken]
          cases apart with
          | false => exact Nat.lt_succ_of_le (Nat.le_succ_of_le hone)
          | true => exact Nat.lt_succ_of_le hone
    | done => exact h.tied.elim
  · rw [sent_next, hsent, txHas_next h.tx hgo, List.append_assoc, List.append_assoc]
    exact (List.append_assoc past [q] _).symm
  · show (if s.rx.intr then s.received ++ [s.rx.taken] else s.received) = _
    have hintr : s.rx.intr = true := by
      unfold UartRx.intr
      rw [hstate]
      rfl
    rw [hintr, if_pos rfl, hreceived, htaken, List.map_append]
    rfl

/-- One clock of the two sides. -/
theorem Pair.next (h : Pair c apart en1 en2 p q x y s) (hi : Offers c i)
    (hspaced : Spaced apart en1 i.clken) : Goes c apart en1 x y s i := by
  cases y with
  | idle => exact step_idle h hi hspaced
  | hears u => exact step_hears h hi
  | ends n => exact step_ends h hi hspaced
  | done => exact step_done h hi hspaced

end UartLink

end KS10
