import Mathlib.Data.Nat.Init
import Mathlib.Order.Basic

/-!
# Watchdogs of a request and acknowledge pair

A request is up on some clocks and the acknowledge on some.  A watchdog with time-out `T` is
exact if it fires once for each request that has no answer for `T` clocks, and for no other
(`Exact`).

Two counters are in use.  One loads the time-out at every clock of a request without its
acknowledge, and counts down after the request is gone (`Reloads`).  It times the clocks
since the request was last up, so it is exact for an initiator that gives the request up and
never fires for one that holds it (`Reloads.exact_iff`).  The other one counts the clocks of
the request itself (`Counts`), and is exact for an initiator that holds it
(`Counts.exact_iff`).
-/

namespace Clocked

namespace Watchdog

variable {req ack : Nat → Bool} {T : Nat}

/-! ## Requests -/

/-- The request is up, and not acknowledged. -/
def Unmet (req ack : Nat → Bool) (t : Nat) : Prop := req t = true ∧ ack t = false

/-- A request begins: it does not go on from the clock before. -/
def Starts (req ack : Nat → Bool) (t : Nat) : Prop :=
  req t = true ∧ ∀ p, p + 1 = t → ¬ Unmet req ack p

/-- Neither request nor acknowledge. -/
def Idle (req ack : Nat → Bool) (t : Nat) : Prop := req t = false ∧ ack t = false

/-- For `T` clocks the request has no acknowledge, and no other request begins. -/
def Unanswered (req ack : Nat → Bool) (T a : Nat) : Prop :=
  ∀ u, a ≤ u → u < a + T → ack u = false ∧ (a < u → ¬ Starts req ack u)

/-- After the request, and not after the beginning of another one. -/
def During (req ack : Nat → Bool) (a t : Nat) : Prop :=
  a < t ∧ ∀ u, a < u → u < t → ¬ Starts req ack u

/-- The watchdog fires once for each request without an answer for `T` clocks, and for
no other. -/
structure Exact (T : Nat) (req ack : Nat → Bool) (fires : Nat → Prop) : Prop where
  once : ∀ a, Starts req ack a → Unanswered req ack T a →
    ∃ t, During req ack a t ∧ fires t ∧ ∀ u, During req ack a u → fires u → u = t
  never : ∀ a, Starts req ack a → ¬ Unanswered req ack T a →
    ∀ t, During req ack a t → ¬ fires t
  only : ∀ t, fires t → ∃ a, Starts req ack a ∧ During req ack a t

/-- The initiator holds the request for `T` clocks without an acknowledge. -/
def Held (req ack : Nat → Bool) (T a : Nat) : Prop :=
  ∀ u, a ≤ u → u < a + T → Unmet req ack u

/-- The initiator holds the request until clock `e` without an acknowledge and gives it up,
and nothing follows for `T` clocks. -/
def GivenUpAt (req ack : Nat → Bool) (T a e : Nat) : Prop :=
  a ≤ e ∧ (∀ u, a ≤ u → u ≤ e → Unmet req ack u) ∧
    ∀ u, e < u → u < e + T → Idle req ack u

/-- The initiator gives the request up, and nothing follows for `T` clocks. -/
def GivenUp (req ack : Nat → Bool) (T a : Nat) : Prop := ∃ e, GivenUpAt req ack T a e

theorem Idle.not_unmet {t : Nat} (h : Idle req ack t) : ¬ Unmet req ack t := by
  rintro ⟨hreq, _⟩
  rw [h.1] at hreq
  cases hreq

theorem Idle.not_starts {t : Nat} (h : Idle req ack t) : ¬ Starts req ack t := by
  rintro ⟨hreq, _⟩
  rw [h.1] at hreq
  cases hreq

theorem Unmet.not_starts_succ {t : Nat} (h : Unmet req ack t) : ¬ Starts req ack (t + 1) :=
  fun hstart => hstart.2 t rfl h

/-- A clock of a request belongs to a beginning, from which the request is up. -/
theorem Unmet.exists_starts {t : Nat} (h : Unmet req ack t) :
    ∃ a, a ≤ t ∧ Starts req ack a ∧ ∀ u, a ≤ u → u ≤ t → Unmet req ack u := by
  induction t with
  | zero =>
      refine ⟨0, Nat.le_refl 0, ⟨h.1, fun p hp => by omega⟩, fun u _ hu => ?_⟩
      obtain rfl : u = 0 := by omega
      exact h
  | succ t ih =>
      by_cases hbefore : Unmet req ack t
      · obtain ⟨a, hat, hstart, hup⟩ := ih hbefore
        refine ⟨a, Nat.le_succ_of_le hat, hstart, fun u hau hut => ?_⟩
        by_cases hu : u = t + 1
        · exact hu ▸ h
        · exact hup u hau (by omega)
      · refine ⟨t + 1, Nat.le_refl _, ⟨h.1, fun p hp => ?_⟩, fun u hau hut => ?_⟩
        · obtain rfl : p = t := by omega
          exact hbefore
        · obtain rfl : u = t + 1 := by omega
          exact h

/-- While the request is up no other one begins. -/
theorem not_starts_of_unmet {a t u : Nat} (hup : ∀ v, a ≤ v → v ≤ t → Unmet req ack v)
    (hau : a < u) (hut : u ≤ t) : ¬ Starts req ack u := by
  obtain ⟨p, rfl⟩ : ∃ p, u = p + 1 := ⟨u - 1, by omega⟩
  exact (hup p (by omega) (by omega)).not_starts_succ

/-- The beginning that a clock belongs to is the last one. -/
theorem During.eq {a b t : Nat} (ha : During req ack a t) (hb : During req ack b t)
    (hsa : Starts req ack a) (hsb : Starts req ack b) : a = b := by
  rcases Nat.lt_trichotomy a b with hlt | heq | hlt
  · exact absurd hsb (ha.2 b hlt hb.1)
  · exact heq
  · exact absurd hsa (hb.2 a hlt ha.1)

/-! ## The watchdog that loads -/

/-- On an idle clock the request was last up when it was before. -/
theorem unmet_last_succ {t : Nat} {p : Nat → Prop} (h : Idle req ack t) :
    (∃ e, e < t + 1 ∧ p e ∧ Unmet req ack e ∧ ∀ u, e < u → u < t + 1 → Idle req ack u) ↔
      ∃ e, e < t ∧ p e ∧ Unmet req ack e ∧ ∀ u, e < u → u < t → Idle req ack u := by
  constructor
  · rintro ⟨e, he, hp, hup, hidle⟩
    have het : e ≠ t := fun het => h.not_unmet (het ▸ hup)
    exact ⟨e, by omega, hp, hup, fun u heu hu => hidle u heu (by omega)⟩
  · rintro ⟨e, he, hp, hup, hidle⟩
    refine ⟨e, Nat.lt_succ_of_lt he, hp, hup, fun u heu hu => ?_⟩
    by_cases hut : u = t
    · exact hut ▸ h
    · exact hidle u heu (by omega)

/-- The counter loads at a clock of the request and counts down without it. -/
structure Reloads (T : Nat) (req ack : Nat → Bool) (count : Nat → Nat) : Prop where
  zero : count 0 = 0
  succ : ∀ t, count (t + 1) =
    if req t && !ack t then T else if ack t then 0 else count t - 1

namespace Reloads

variable {count : Nat → Nat} (h : Reloads T req ack count)

include h

/-- The count is that of the clocks since the request was last up. -/
theorem count_eq_iff {t c : Nat} (hc : 0 < c) : count t = c ↔
    ∃ e, e < t ∧ t + c = e + 1 + T ∧ Unmet req ack e ∧
      ∀ u, e < u → u < t → Idle req ack u := by
  induction t generalizing c with
  | zero =>
      rw [h.zero]
      constructor
      · intro heq
        omega
      · rintro ⟨e, he, _⟩
        omega
  | succ t ih =>
      rw [h.succ]
      by_cases hunmet : Unmet req ack t
      · have hcond : (req t && !ack t) = true := by rw [hunmet.1, hunmet.2]; rfl
        rw [if_pos hcond]
        constructor
        · intro heq
          exact ⟨t, Nat.lt_succ_self t, by omega, hunmet, fun u _ _ => by omega⟩
        · rintro ⟨e, he, heq, -, hidle⟩
          have het : e = t := by
            by_contra hne
            exact (hidle t (by omega) (Nat.lt_succ_self t)).not_unmet hunmet
          omega
      · have hcond : ¬ (req t && !ack t) = true := by
          intro hcond
          rw [Bool.and_eq_true, Bool.not_eq_true'] at hcond
          exact hunmet hcond
        rw [if_neg hcond]
        cases hack : ack t with
        | true =>
            rw [if_pos rfl]
            constructor
            · intro heq
              omega
            · rintro ⟨e, he, -, hup, hidle⟩
              by_cases het : e = t
              · exact absurd (het ▸ hup) hunmet
              · have hoff := (hidle t (by omega) (Nat.lt_succ_self t)).2
                rw [hack] at hoff
                cases hoff
        | false =>
            have hreq : req t = false := by
              cases hreq : req t with
              | true => exact absurd ⟨hreq, hack⟩ hunmet
              | false => rfl
            rw [if_neg Bool.false_ne_true]
            have hstep : count t - 1 = c ↔ count t = c + 1 := by omega
            have hlate (e : Nat) : t + (c + 1) = e + 1 + T ↔ t + 1 + c = e + 1 + T := by omega
            rw [hstep, ih (Nat.succ_pos c), unmet_last_succ ⟨hreq, hack⟩]
            simp only [hlate]

/-- The watchdog fires `T` clocks after a request that was given up. -/
theorem fires_iff (hT : 0 < T) {t : Nat} : count t = 1 ↔
    ∃ a e, Starts req ack a ∧ GivenUpAt req ack T a e ∧ t = e + T := by
  rw [h.count_eq_iff Nat.one_pos]
  constructor
  · rintro ⟨e, he, heq, hunmet, hidle⟩
    obtain ⟨a, hae, hstart, hup⟩ := hunmet.exists_starts
    exact ⟨a, e, hstart, ⟨hae, hup, fun u heu hu => hidle u heu (by omega)⟩, by omega⟩
  · rintro ⟨a, e, -, ⟨hae, hup, hidle⟩, rfl⟩
    exact ⟨e, by omega, by omega, hup e hae (Nat.le_refl e), hidle⟩

end Reloads

/-- A request that is given up has no answer, and the clock `T` clocks later is its own. -/
theorem GivenUpAt.unanswered {a e : Nat} (h : GivenUpAt req ack T a e) :
    Unanswered req ack T a ∧ (0 < T → During req ack a (e + T)) := by
  obtain ⟨hae, hup, hidle⟩ := h
  constructor
  · intro u hau hu
    by_cases hue : u ≤ e
    · exact ⟨(hup u hau hue).2, fun hlt => not_starts_of_unmet hup hlt hue⟩
    · have hoff := hidle u (by omega) (by omega)
      exact ⟨hoff.2, fun _ => hoff.not_starts⟩
  · intro hT
    refine ⟨by omega, fun u hau hu => ?_⟩
    by_cases hue : u ≤ e
    · exact not_starts_of_unmet hup hau hue
    · exact (hidle u (by omega) hu).not_starts

theorem GivenUpAt.unique {a e f : Nat} (he : GivenUpAt req ack T a e)
    (hf : GivenUpAt req ack T a f) (hT : 1 < T) : e = f := by
  obtain ⟨hae, hupe, hidle⟩ := he
  obtain ⟨haf, hupf, hidlf⟩ := hf
  rcases Nat.lt_trichotomy e f with hlt | heq | hlt
  · exact absurd (hupf (e + 1) (by omega) hlt) (hidle (e + 1) (by omega) (by omega)).not_unmet
  · exact heq
  · exact absurd (hupe (f + 1) (by omega) hlt) (hidlf (f + 1) (by omega) (by omega)).not_unmet

/-- The watchdog that loads is exact for those initiators that give every request up that
is not answered in time. -/
theorem Reloads.exact_iff {count : Nat → Nat} (h : Reloads T req ack count) (hT : 1 < T) :
    Exact T req ack (fun t => count t = 1) ↔
      ∀ a, Starts req ack a → ¬ Unanswered req ack T a ∨ GivenUp req ack T a := by
  have hpos : 0 < T := by omega
  constructor
  · intro hexact a hstart
    by_cases hun : Unanswered req ack T a
    · obtain ⟨t, hduring, hfires, -⟩ := hexact.once a hstart hun
      obtain ⟨b, e, hb, hgiven, rfl⟩ := (h.fires_iff hpos).mp hfires
      have heq := hduring.eq (hgiven.unanswered.2 hpos) hstart hb
      exact Or.inr ⟨e, heq ▸ hgiven⟩
    · exact Or.inl hun
  · intro hmeets
    refine ⟨fun a hstart hun => ?_, fun a hstart hun t hduring hfires => ?_,
      fun t hfires => ?_⟩
    · obtain hno | ⟨e, hgiven⟩ := hmeets a hstart
      · exact absurd hun hno
      · refine ⟨e + T, hgiven.unanswered.2 hpos,
          (h.fires_iff hpos).mpr ⟨a, e, hstart, hgiven, rfl⟩, fun u hduring hfires => ?_⟩
        obtain ⟨b, f, hb, hgiven', rfl⟩ := (h.fires_iff hpos).mp hfires
        have heq := hduring.eq (hgiven'.unanswered.2 hpos) hstart hb
        rw [hgiven.unique (heq ▸ hgiven') hT]
    · obtain ⟨b, e, hb, hgiven, rfl⟩ := (h.fires_iff hpos).mp hfires
      have heq := hduring.eq (hgiven.unanswered.2 hpos) hstart hb
      exact hun (heq ▸ hgiven.unanswered.1)
    · obtain ⟨a, e, hstart, hgiven, rfl⟩ := (h.fires_iff hpos).mp hfires
      exact ⟨a, hstart, hgiven.unanswered.2 hpos⟩

/-! ## The watchdog that counts -/

/-- The counter counts down at every clock of the request, and loads without it. -/
structure Counts (T : Nat) (req ack : Nat → Bool) (count : Nat → Nat) : Prop where
  zero : count 0 = T + 1
  succ : ∀ t, count (t + 1) = if req t && !ack t then count t - 1 else T + 1

namespace Counts

variable {count : Nat → Nat} (h : Counts T req ack count)

include h

/-- The count is that of the clocks that the request has been up. -/
theorem exists_since (t : Nat) : ∃ a, a ≤ t ∧ count t = T + 1 - (t - a) ∧
    (∀ u, a ≤ u → u < t → Unmet req ack u) ∧ ∀ p, p + 1 = a → ¬ Unmet req ack p := by
  induction t with
  | zero =>
      exact ⟨0, Nat.le_refl 0, h.zero, fun u _ hu => absurd hu (Nat.not_lt_zero u),
        fun p hp => by omega⟩
  | succ t ih =>
      rw [h.succ]
      by_cases hunmet : Unmet req ack t
      · have hcond : (req t && !ack t) = true := by rw [hunmet.1, hunmet.2]; rfl
        obtain ⟨a, hat, hcount, hup, hfirst⟩ := ih
        rw [if_pos hcond, hcount]
        refine ⟨a, Nat.le_succ_of_le hat, by omega, fun u hau hu => ?_, hfirst⟩
        by_cases hut : u = t
        · exact hut ▸ hunmet
        · exact hup u hau (by omega)
      · have hcond : ¬ (req t && !ack t) = true := by
          intro hcond
          rw [Bool.and_eq_true, Bool.not_eq_true'] at hcond
          exact hunmet hcond
        rw [if_neg hcond]
        refine ⟨t + 1, Nat.le_refl _, by omega, fun u hau hu => by omega, fun p hp => ?_⟩
        obtain rfl : p = t := by omega
        exact hunmet

/-- The watchdog fires after `T` clocks of one request. -/
theorem fires_iff (hT : 0 < T) {t : Nat} : count t = 1 ↔
    ∃ a, Starts req ack a ∧ Held req ack T a ∧ t = a + T := by
  obtain ⟨b, hbt, hcount, hup, hfirst⟩ := h.exists_since t
  constructor
  · intro hone
    have hb : b < t := by omega
    exact ⟨b, ⟨(hup b (Nat.le_refl b) hb).1, hfirst⟩, fun u hbu hu => hup u hbu (by omega),
      by omega⟩
  · rintro ⟨a, hstart, hheld, rfl⟩
    have hab : a = b := by
      rcases Nat.lt_trichotomy a b with hlt | heq | hlt
      · exact absurd (hheld (b - 1) (by omega) (by omega)) (hfirst (b - 1) (by omega))
      · exact heq
      · exact absurd (hup (a - 1) (by omega) (by omega)) (hstart.2 (a - 1) (by omega))
    omega

end Counts

/-- A request that is held has no answer, and the clock `T` clocks later is its own. -/
theorem Held.unanswered {a : Nat} (h : Held req ack T a) :
    Unanswered req ack T a ∧ (0 < T → During req ack a (a + T)) := by
  have hnone (u : Nat) (hau : a < u) (hu : u < a + T) : ¬ Starts req ack u :=
    not_starts_of_unmet (t := u) (fun v hav hvu => h v hav (by omega)) hau (Nat.le_refl u)
  exact ⟨fun u hau hu => ⟨(h u hau hu).2, fun hlt => hnone u hlt hu⟩,
    fun hT => ⟨by omega, fun u hau hu => hnone u hau hu⟩⟩

/-- The watchdog that counts is exact for those initiators that hold every request that is
not answered in time. -/
theorem Counts.exact_iff {count : Nat → Nat} (h : Counts T req ack count) (hT : 0 < T) :
    Exact T req ack (fun t => count t = 1) ↔
      ∀ a, Starts req ack a → ¬ Unanswered req ack T a ∨ Held req ack T a := by
  constructor
  · intro hexact a hstart
    by_cases hun : Unanswered req ack T a
    · obtain ⟨t, hduring, hfires, -⟩ := hexact.once a hstart hun
      obtain ⟨b, hb, hheld, rfl⟩ := (h.fires_iff hT).mp hfires
      have heq := hduring.eq (hheld.unanswered.2 hT) hstart hb
      exact Or.inr (heq ▸ hheld)
    · exact Or.inl hun
  · intro hmeets
    refine ⟨fun a hstart hun => ?_, fun a hstart hun t hduring hfires => ?_,
      fun t hfires => ?_⟩
    · obtain hno | hheld := hmeets a hstart
      · exact absurd hun hno
      · refine ⟨a + T, hheld.unanswered.2 hT, (h.fires_iff hT).mpr ⟨a, hstart, hheld, rfl⟩,
          fun u hduring hfires => ?_⟩
        obtain ⟨b, hb, hheld', rfl⟩ := (h.fires_iff hT).mp hfires
        rw [hduring.eq (hheld'.unanswered.2 hT) hstart hb]
    · obtain ⟨b, hb, hheld, rfl⟩ := (h.fires_iff hT).mp hfires
      have heq := hduring.eq (hheld.unanswered.2 hT) hstart hb
      exact hun (heq ▸ hheld.unanswered.1)
    · obtain ⟨a, hstart, hheld, rfl⟩ := (h.fires_iff hT).mp hfires
      exact ⟨a, hstart, hheld.unanswered.2 hT⟩

/-- An initiator that holds its request until the acknowledge holds every one that is not
answered in time. -/
theorem held_of_keeps (hkeeps : ∀ t, Unmet req ack t → req (t + 1) = true) {a : Nat}
    (hstart : Starts req ack a) (hun : Unanswered req ack T a) : Held req ack T a := by
  intro u hau
  induction u, hau using Nat.le_induction with
  | base => exact fun hu => ⟨hstart.1, (hun a (Nat.le_refl a) hu).1⟩
  | succ u hau ih =>
      intro hu
      exact ⟨hkeeps u (ih (by omega)), (hun (u + 1) (by omega) hu).1⟩

/-- Under such an initiator a request that is given up does not exist. -/
theorem not_givenUp_of_keeps (hkeeps : ∀ t, Unmet req ack t → req (t + 1) = true) {a : Nat}
    (hT : 1 < T) : ¬ GivenUp req ack T a := by
  rintro ⟨e, hae, hup, hidle⟩
  have hnext := hkeeps e (hup e hae (Nat.le_refl e))
  have hoff := (hidle (e + 1) (by omega) (by omega)).1
  rw [hnext] at hoff
  cases hoff

end Watchdog

end Clocked
