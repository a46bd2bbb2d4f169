import KS10.Clocked.Enable
import KS10.Uart.InStep
import KS10.Uart.Rate

/-!
# What the UART receives of its own characters

Along a run the received characters are a first part of the sent ones, as they are heard
(`Inv.lists`), and every character that was sent comes (`comes`).  So the UART receives its own
characters right if and only if each is heard right.
-/

namespace KS10

open Clocked

namespace UartLink

variable {c : UartCfg} {apart en1 en2 : Bool} {p q : UartSent} {s : UartLink}
  {x : TxPhase} {y : RxPhase} {t u n : Nat}

/-! ## The run -/

/-- The enables of the clocks before; before the run they are what the spacing allows. -/
def before (apart : Bool) (i : Nat → In) : Nat → Bool
  | 0 => !apart
  | t + 1 => (i t).clken

theorem Start.inv (h : Start s) : Inv c apart en1 en2 s := by
  refine ⟨⟨0, none⟩, ⟨0, none⟩, .idle, .idle, ⟨h.tx, h.temp, h.din⟩, h.rx, trivial, nofun, nofun,
    [], ?_, h.received⟩
  rw [h.sent]
  rfl

theorem spaced_of_bitRate {i : Nat → In} (h : BitRate fun t => (i t).clken) :
    ∃ apart, ∀ t, Spaced apart (before apart i t) (i t).clken := by
  rcases h.spacing with hspacing | hspacing
  · refine ⟨true, fun t => ?_⟩
    cases t with
    | zero => exact nofun
    | succ t => exact hspacing t
  · refine ⟨false, fun t => ?_⟩
    cases t with
    | zero => exact nofun
    | succ t => exact hspacing t

variable {i : Nat → In} {s₀ : UartLink}

/-- The two sides are somewhere together in the whole run. -/
theorem run_inv (h₀ : Start s₀) (hi : ∀ t, Offers c (i t))
    (hspaced : ∀ t, Spaced apart (before apart i t) (i t).clken) (t : Nat) :
    ∃ en2, Inv c apart (before apart i t) en2 (run (next c) s₀ i t) := by
  induction t with
  | zero => exact ⟨false, h₀.inv⟩
  | succ t ih =>
      obtain ⟨en2, p, q, x, y, hpair⟩ := ih
      obtain ⟨p', q', x', y', hpair', -⟩ := hpair.next (hi t) (hspaced t)
      exact ⟨_, p', q', x', y', hpair'⟩

/-- The characters that were received are a first part of those that were sent. -/
theorem Inv.lists (h : Inv c apart en1 en2 s) : ∃ past rest, s.sent = past ++ rest ∧
    s.received = past.map (UartSent.heard c) := by
  obtain ⟨p, q, x, y, hpair⟩ := h
  obtain ⟨past, hsent, hreceived⟩ := hpair.lists
  exact ⟨past, _, hsent, hreceived⟩

/-! ## What was sent -/

theorem sent_grows (c : UartCfg) (s₀ : UartLink) (i : Nat → In) {t u : Nat} (htu : t ≤ u) :
    (run (next c) s₀ i t).sent <+: (run (next c) s₀ i u).sent := by
  induction u, htu using Nat.le_induction with
  | base => exact List.prefix_rfl
  | succ u _ ih =>
      rw [run_succ, sent_next]
      exact ih.trans (List.prefix_append _ _)

theorem received_le (c : UartCfg) (s₀ : UartLink) (i : Nat → In) {t u : Nat} (htu : t ≤ u) :
    (run (next c) s₀ i t).received.length ≤ (run (next c) s₀ i u).received.length := by
  induction u, htu using Nat.le_induction with
  | base => exact Nat.le_refl _
  | succ u _ ih =>
      refine Nat.le_trans ih ?_
      rw [run_succ]
      show _ ≤ (if _ then _ ++ _ else _ : List UartRx.Taken).length
      split_ifs
      · rw [List.length_append]
        exact Nat.le_add_right _ _
      · exact Nat.le_refl _

/-- Every character that was sent was offered. -/
theorem sent_offered {P : UartSent → Prop} (h₀ : Start s₀)
    (hi : ∀ t, (i t).load = true → P ⟨(i t).data, (i t).hit⟩) (t : Nat) :
    ∀ p ∈ (run (next c) s₀ i t).sent, P p := by
  induction t with
  | zero =>
      intro p hp
      rw [run_zero, h₀.sent] at hp
      cases hp
  | succ t ih =>
      intro p hp
      rw [run_succ, sent_next, List.mem_append] at hp
      rcases hp with hp | hp
      · exact ih p hp
      · unfold arriving at hp
        split_ifs at hp with haccepts
        · rw [List.mem_singleton.mp hp]
          exact hi t (Bool.and_eq_true_iff.mp haccepts).2
        · cases hp

/-- A first part of the sent characters, with what is heard of them, is faithful if and only if
it is heard right. -/
theorem faithful_of_lists {past rest : List UartSent} (hsent : s.sent = past ++ rest)
    (hreceived : s.received = past.map (UartSent.heard c)) :
    Faithful c s ↔ ∀ p ∈ past, p.Right c (p.heard c) := by
  unfold Faithful
  rw [hsent, hreceived, List.length_map, List.take_left, List.forall₂_map_right_iff,
    List.forall₂_same]

/-! ## The next received character -/

/-- The sides are together, and the next received character is at most `n` enables away. -/
def Near (c : UartCfg) (apart en1 en2 : Bool) (n : Nat) (s : UartLink) : Prop :=
  ∃ p q x y, Pair c apart en1 en2 p q x y s ∧ Busy c x y ∧ togo c x y ≤ n

theorem togo_pos (h : Pair c apart en1 en2 p q x y s) (hne : s.rx.state ≠ .done) :
    0 < togo c x y := by
  have hlong := plan_long c
  cases y with
  | idle =>
      cases x with
      | idle => exact Nat.succ_pos _
      | sync => exact Nat.succ_pos _
      | sends t =>
          have hmost : t < most apart := h.tied
          have hthree := most_le apart
          show 0 < 16 * c.plan.length + 4 - t
          omega
      | done => exact Nat.succ_pos _
  | hears u => exact Nat.sub_pos_of_lt h.rx.1.lt
  | ends n =>
      cases x with
      | idle => exact h.tied.1
      | sync => exact h.tied.1
      | sends t => exact h.tied.2.symm ▸ Nat.zero_lt_one
      | done => exact h.tied.1
  | done => exact absurd h.rx.1 hne

/-- Without a character under way every character that was sent has been received. -/
theorem has_none (h : Pair c apart en1 en2 p q x y s) (hrest : ¬ Busy c x y) :
    rxHas q y ++ txHas p x = [] := by
  have hlong := plan_long c
  have hthree := most_le apart
  cases y with
  | idle =>
      cases x with
      | idle => rfl
      | sync => exact absurd (Nat.le_refl _) hrest
      | sends t =>
          refine absurd ?_ hrest
          show 16 * c.plan.length + 4 - t ≤ 16 * c.plan.length + 5
          omega
      | done => rfl
  | hears u =>
      refine absurd ?_ hrest
      show 16 * c.plan.length - u ≤ 16 * c.plan.length + 5
      omega
  | ends n =>
      refine absurd ?_ hrest
      show n ≤ 16 * c.plan.length + 5
      cases x with
      | idle =>
          have hmost := h.tied.2.1
          omega
      | sync =>
          have hmost := h.tied.2
          omega
      | sends t =>
          have hone := h.tied.2
          omega
      | done =>
          have hmost := h.tied.2
          omega
  | done => exact absurd (Nat.zero_le _) hrest

/-- One clock brings the next received character nearer. -/
theorem Near.next {i : In} {n : Nat} (h : Near c apart en1 en2 n s) (hi : Offers c i)
    (hspaced : Spaced apart en1 i.clken) (hne : s.rx.state ≠ .done) :
    Near c apart i.clken en1 (if i.clken = true then n - 1 else n) (s.next c i) := by
  obtain ⟨p, q, x, y, hpair, hbusy, hn⟩ := h
  obtain ⟨p', q', x', y', hpair', rfl | hnearer⟩ := hpair.next hi hspaced
  · exact absurd hpair.rx.1 hne
  · refine ⟨p', q', x', y', hpair', Nat.le_trans hnearer.le hbusy, ?_⟩
    split_ifs with hclken
    · have hlt := hnearer.lt hclken hbusy
      omega
    · exact Nat.le_trans hnearer.le hn

/-- A character that is under way comes. -/
theorem comes (hi : ∀ t, Offers c (i t)) (hagain : ∀ t, ∃ u, t ≤ u ∧ (i u).clken = true)
    (hspaced : ∀ t, Spaced apart (before apart i t) (i t).clken) (n : Nat) :
    ∀ t, (∃ en2, Near c apart (before apart i t) en2 n (run (next c) s₀ i t)) →
      ∃ u, t ≤ u ∧ (run (next c) s₀ i u).rx.state = .done := by
  induction n with
  | zero =>
      rintro t ⟨en2, p, q, x, y, hpair, -, hzero⟩
      by_cases hdone : (run (next c) s₀ i t).rx.state = .done
      · exact ⟨t, Nat.le_refl t, hdone⟩
      · have hpos := togo_pos hpair hdone
        omega
  | succ n ih =>
      intro t ht
      by_contra hnever
      have hne : ∀ u, t ≤ u → (run (next c) s₀ i u).rx.state ≠ .done :=
        fun u htu hdone => hnever ⟨u, htu, hdone⟩
      obtain ⟨e, hte, hen, hfirst⟩ : ∃ e, t ≤ e ∧ (i e).clken = true ∧
          ∀ u, t ≤ u → u < e → (i u).clken ≠ true := by
        obtain ⟨e, ⟨hte, hen⟩, hfirst⟩ := exists_first (hagain t)
        exact ⟨e, hte, hen, fun u htu hue hu => hfirst u hue ⟨htu, hu⟩⟩
      have hwait : ∃ en2, Near c apart (before apart i e) en2 (n + 1) (run (next c) s₀ i e) := by
        refine stays_until (P := fun u => ∃ en2, Near c apart (before apart i u) en2 (n + 1)
          (run (next c) s₀ i u)) (C := fun u => t ≤ u ∧ u < e) ?_ ht hte
          (fun u htu hue => ⟨htu, hue⟩)
        rintro u ⟨en2, hnear⟩ ⟨htu, hue⟩
        have hnext := hnear.next (hi u) (hspaced u) (hne u htu)
        rw [if_neg (hfirst u htu hue)] at hnext
        exact ⟨_, hnext⟩
      obtain ⟨en2, hnear⟩ := hwait
      have hnext := hnear.next (hi e) (hspaced e) (hne e hte)
      rw [if_pos hen] at hnext
      obtain ⟨u, hu, hdone⟩ := ih (e + 1) ⟨_, hnext⟩
      exact hne u (by omega) hdone

/-- What was sent is received in the end. -/
theorem all_received (h₀ : Start s₀) (hi : ∀ t, Offers c (i t))
    (hclken : BitRate fun t => (i t).clken) (n : Nat) :
    ∀ t, n ≤ (run (next c) s₀ i t).sent.length →
      ∃ u, t ≤ u ∧ n ≤ (run (next c) s₀ i u).received.length := by
  obtain ⟨apart, hspaced⟩ := spaced_of_bitRate hclken
  induction n with
  | zero => exact fun t _ => ⟨t, Nat.le_refl t, Nat.zero_le _⟩
  | succ n ih =>
      intro t ht
      obtain ⟨u, htu, hu⟩ := ih t (Nat.le_of_succ_le ht)
      by_cases hmore : n + 1 ≤ (run (next c) s₀ i u).received.length
      · exact ⟨u, htu, hmore⟩
      · obtain ⟨en2, p, q, x, y, hpair⟩ := run_inv h₀ hi hspaced u
        have hbusy : Busy c x y := by
          by_contra hrest
          obtain ⟨past, hsent, hreceived⟩ := hpair.lists
          have hlength := (sent_grows c s₀ i htu).length_le
          rw [has_none hpair hrest, List.append_nil] at hsent
          rw [hreceived, List.length_map, ← hsent] at hmore
          omega
        obtain ⟨v, huv, hdone⟩ := comes hi hclken.again hspaced _ u
          ⟨en2, p, q, x, y, hpair, hbusy, Nat.le_refl _⟩
        refine ⟨v + 1, by omega, ?_⟩
        have hle := received_le c s₀ i huv
        have hintr : (run (next c) s₀ i v).rx.intr = true := by
          unfold UartRx.intr
          rw [hdone]
          rfl
        rw [run_succ]
        show n + 1 ≤ (if (run (next c) s₀ i v).rx.intr then _ ++ _ else _ : List UartRx.Taken).length
        rw [if_pos hintr, List.length_append]
        exact Nat.succ_le_succ (Nat.le_trans hu hle)

/-! ## The characters that come through -/

/-- The UART receives the characters that it sends to itself, each right and in order, if and
only if there is no parity, or every character has an odd number of ones among the bits that
are above its length. -/
theorem loopback_iff (c : UartCfg) (s₀ : UartLink) (i : Nat → In) (h₀ : Start s₀)
    (hclken : BitRate fun t => (i t).clken) (hi : ∀ t, Offers c (i t)) :
    ((∀ t, Faithful c (run (next c) s₀ i t)) ∧
        ∀ t, ∃ u, t ≤ u ∧
          (run (next c) s₀ i t).sent.length ≤ (run (next c) s₀ i u).received.length) ↔
      ∀ t, ∀ p ∈ (run (next c) s₀ i t).sent,
        c.hasParity = true → Uart.xorOf (c.unsent p.data) = true := by
  obtain ⟨apart, hspaced⟩ := spaced_of_bitRate hclken
  have hlists : ∀ t, ∃ past rest, (run (next c) s₀ i t).sent = past ++ rest ∧
      (run (next c) s₀ i t).received = past.map (UartSent.heard c) := by
    intro t
    obtain ⟨en2, hinv⟩ := run_inv h₀ hi hspaced t
    exact hinv.lists
  constructor
  · rintro ⟨hfaithful, -⟩ t p hp
    obtain ⟨u, htu, hu⟩ := all_received h₀ hi hclken _ t (Nat.le_refl _)
    obtain ⟨past, rest, hsent, hreceived⟩ := hlists u
    have hpast : p ∈ past := by
      have hprefix := sent_grows c s₀ i htu
      rw [hsent] at hprefix
      rw [hreceived, List.length_map] at hu
      exact (List.prefix_of_prefix_length_le hprefix (List.prefix_append _ _) hu).subset hp
    have hright := (faithful_of_lists hsent hreceived).mp (hfaithful u) p hpast
    exact (UartSent.right_iff (sent_offered h₀ hi t p hp)).mp hright
  · intro hodd
    refine ⟨fun t => ?_, fun t => all_received h₀ hi hclken _ t (Nat.le_refl _)⟩
    obtain ⟨past, rest, hsent, hreceived⟩ := hlists t
    refine (faithful_of_lists hsent hreceived).mpr fun p hp => ?_
    have hmem : p ∈ (run (next c) s₀ i t).sent := by
      rw [hsent]
      exact List.mem_append_left rest hp
    exact (UartSent.right_iff (sent_offered h₀ hi t p hmem)).mpr (hodd t p hmem)

/-- Characters of seven bits with the eighth bit set. -/
theorem loopback_iff_seven :
    let c : UartCfg := ⟨0b10, UartCfg.parEven, false⟩
    let s₀ : UartLink := ⟨⟨.idle, 0, 0⟩, ⟨true, true, .idle, 0, ⟨0, false, false, false⟩, false⟩,
      none, [], []⟩
    let i : Nat → In := fun _ => ⟨true, true, 0xc1, none, false⟩
    ∀ t, Faithful c (run (next c) s₀ i t) := by
  intro c s₀ i
  have h₀ : Start s₀ := ⟨rfl, rfl, rfl, rfl, rfl, rfl⟩
  refine ((loopback_iff c s₀ i h₀ BitRate.always fun _ _ => nofun).mpr fun t p hp _ => ?_).1
  have hdata : p.data = 0xc1 := sent_offered (P := fun p => p.data = 0xc1) h₀ (fun _ _ => rfl) t p hp
  rw [hdata]
  decide

/-- An eight bit character with even parity comes with a parity error. -/
theorem loopback_fails :
    let c : UartCfg := ⟨0b11, UartCfg.parEven, false⟩
    let s₀ : UartLink := ⟨⟨.idle, 0, 0⟩, ⟨true, true, .idle, 0, ⟨0, false, false, false⟩, false⟩,
      none, [], []⟩
    let i : Nat → In := fun _ => ⟨true, true, 0x41, none, false⟩
    Start s₀ ∧ (BitRate fun t => (i t).clken) ∧ (∀ t, Offers c (i t)) ∧
      ¬ Faithful c (run (next c) s₀ i 182) := by
  intro c s₀ i
  refine ⟨⟨rfl, rfl, rfl, rfl, rfl, rfl⟩, BitRate.always, fun _ _ => nofun, fun hfaithful => ?_⟩
  have hreceived : (run (next c) s₀ i 182).received = [⟨0x41, true, false, false⟩] := by
    decide +kernel
  have hsent : (run (next c) s₀ i 182).sent.take 1 = [⟨0x41, none⟩] := by
    decide +kernel
  unfold Faithful at hfaithful
  rw [hreceived, List.length_singleton, hsent] at hfaithful
  cases hfaithful with
  | cons hright _ =>
      obtain ⟨-, hpare, -⟩ := hright.clean rfl
      cases hpare

end UartLink

end KS10
