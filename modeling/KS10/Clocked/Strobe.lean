import KS10.Clocked.Enable

/-!
# A flag behind a clock enable, set by a level

While a strobe is asserted, every enabled clock without a clear loads the flag with
the value `v` of the strobe, and every enabled clock with a clear clears it
(`Driven`).  The strobe acts once if the flag goes as if a single clock had
taken the value (`ActsOnce`).

A strobe that writes `false` acts once as soon as one of its clocks is enabled.  A
strobe that writes `true` needs an enabled clock without a clear, and must not find
the flag cleared again after it has set it (`actsOnce_true_iff`).
-/

namespace Clocked

variable {f en clr : Nat → Bool} {v : Bool} {s e : Nat}

/-- The flag from clock `s` up to clock `e`, under a strobe that writes `v`. -/
def Driven (f en clr : Nat → Bool) (v : Bool) (s e : Nat) : Prop :=
  ∀ t, s ≤ t → t < e →
    f (t + 1) = if en t then if clr t then false else v else f t

/-- The strobe acts at one enabled clock, and at the others only the clears do. -/
def ActsOnce (f en clr : Nat → Bool) (v : Bool) (s e : Nat) : Prop :=
  ∃ c, s ≤ c ∧ c < e ∧ en c = true ∧ ∀ t, s ≤ t → t < e →
    f (t + 1) = if t = c then v else if en t && clr t then false else f t

/-- An enabled clock of the strobe. -/
def EnabledIn (en : Nat → Bool) (s e t : Nat) : Prop := s ≤ t ∧ t < e ∧ en t = true

/-- The strobe sets the flag, the flag is cleared, and the strobe sets it again. -/
def SetsAgain (f en clr : Nat → Bool) (s e : Nat) : Prop :=
  ∃ n k m, n < k ∧ k < m ∧ EnabledIn en s e n ∧ EnabledIn en s e k ∧ EnabledIn en s e m ∧
    clr n = false ∧ clr k = true ∧ clr m = false ∧
    (f s = false ∨ ∃ j, EnabledIn en s e j ∧ j < n ∧ clr j = true)

theorem actsOnce_false_iff (h : Driven f en clr false s e) :
    ActsOnce f en clr false s e ↔ ∃ c, EnabledIn en s e c := by
  constructor
  · rintro ⟨c, hsc, hce, hen, -⟩
    exact ⟨c, hsc, hce, hen⟩
  · intro hsome
    obtain ⟨c, ⟨hsc, hce, hen⟩, hfirst⟩ := exists_first hsome
    refine ⟨c, hsc, hce, hen, fun t hst hte => ?_⟩
    rw [h t hst hte]
    -- The first enabled clock clears the flag, and nothing sets it after.
    have hlow : ∀ t, c < t → t < e → f t = false := by
      intro t hct hte
      refine stays_until (P := fun t => f t = false) (C := fun t => s ≤ t ∧ t < e)
        (fun t ht hC => ?_) (t := c + 1) ?_ hct fun v hv hvt => ⟨by omega, by omega⟩
      · rw [h t hC.1 hC.2, ht]
        simp
      · rw [h c hsc hce, hen]
        simp
    rcases Nat.lt_trichotomy t c with hlt | heq | hgt
    · have hdis : en t = false := by
        rw [← Bool.not_eq_true]
        exact fun hen' => hfirst t hlt ⟨hst, hte, hen'⟩
      simp [hdis, Nat.ne_of_lt hlt]
    · subst heq
      simp [hen]
    · have hft : f t = false := hlow t hgt hte
      simp [hft, Nat.ne_of_gt hgt]

/-- A flag that the strobe writes `true` falls at a clear only. -/
theorem exists_clear (h : Driven f en clr true s e) {a b : Nat} (hsa : s ≤ a) (hab : a ≤ b)
    (hbe : b ≤ e) (hset : f a = true) (hlow : f b = false) :
    ∃ k, EnabledIn en s e k ∧ a ≤ k ∧ k < b ∧ clr k = true := by
  by_contra hnone
  have hstay : f b = true := by
    refine stays_until (P := fun t => f t = true) (C := fun t => a ≤ t ∧ t < b)
      (fun t ht hC => ?_) hset hab fun v hv hvb => ⟨hv, hvb⟩
    obtain ⟨hat, htb⟩ := hC
    rw [h t (by omega) (by omega), ht]
    cases hen : en t with
    | false => rfl
    | true =>
        cases hclr : clr t with
        | false => rfl
        | true => exact absurd ⟨t, ⟨by omega, by omega, hen⟩, hat, htb, hclr⟩ hnone
  rw [hlow] at hstay
  cases hstay

/-- A flag that goes as if the strobe acted at clock `c` rises at that clock only. -/
theorem acts_between {c : Nat} (hacts : ∀ t, s ≤ t → t < e →
      f (t + 1) = if t = c then v else if en t && clr t then false else f t)
    {a b : Nat} (hsa : s ≤ a) (hab : a ≤ b) (hbe : b ≤ e) (hlow : f a = false)
    (hset : f b = true) : a ≤ c ∧ c < b := by
  by_contra hout
  have hstay : f b = false := by
    refine stays_until (P := fun t => f t = false) (C := fun t => a ≤ t ∧ t < b)
      (fun t ht hC => ?_) hlow hab fun v hv hvb => ⟨hv, hvb⟩
    obtain ⟨hat, htb⟩ := hC
    have hne : t ≠ c := by omega
    rw [hacts t (by omega) (by omega), if_neg hne, ht]
    simp
  rw [hset] at hstay
  cases hstay

/-- What an enabled clock leaves of a flag that the strobe writes `true`. -/
theorem succ_of_enabled (h : Driven f en clr true s e) {t : Nat} (ht : EnabledIn en s e t) :
    f (t + 1) = !clr t := by
  rw [h t ht.1 ht.2.1, ht.2.2, if_pos rfl]
  cases clr t with
  | true => rfl
  | false => rfl

/-- Between two rises the flag is cleared. -/
theorem setsAgain_of_rises (h : Driven f en clr true s e) {a b : Nat} (ha : EnabledIn en s e a)
    (hb : EnabledIn en s e b) (hca : clr a = false) (hcb : clr b = false) (hfa : f a = false)
    (hfb : f b = false) (hab : a < b) : SetsAgain f en clr s e := by
  have hset : f (a + 1) = true := by
    rw [succ_of_enabled h ha, hca]
    rfl
  obtain ⟨hsa, hae, -⟩ := id ha
  obtain ⟨-, hbe, -⟩ := id hb
  obtain ⟨k, hk, hak, hkb, hck⟩ := exists_clear h (by omega) hab (by omega) hset hfb
  refine ⟨a, k, b, hak, hkb, ha, hk, hb, hca, hck, hcb, ?_⟩
  cases hfs : f s with
  | false => exact Or.inl rfl
  | true =>
      obtain ⟨j, hj, -, hja, hcj⟩ := exists_clear h (Nat.le_refl s) hsa (by omega) hfs hfa
      exact Or.inr ⟨j, hj, hja, hcj⟩

/-- A flag that goes as if the strobe acted at one clock is not set again. -/
theorem not_setsAgain (h : Driven f en clr true s e) {c : Nat}
    (hacts : ∀ t, s ≤ t → t < e →
      f (t + 1) = if t = c then true else if en t && clr t then false else f t) :
    ¬ SetsAgain f en clr s e := by
  rintro ⟨n, k, m, hnk, hkm, hn, hk, hm, hcn, hck, hcm, hbefore⟩
  have hn1 : f (n + 1) = true := by rw [succ_of_enabled h hn, hcn]; rfl
  have hk1 : f (k + 1) = false := by rw [succ_of_enabled h hk, hck]; rfl
  have hm1 : f (m + 1) = true := by rw [succ_of_enabled h hm, hcm]; rfl
  obtain ⟨hsn, hne, -⟩ := hn
  obtain ⟨hsm, hme, -⟩ := hm
  have hsecond : k + 1 ≤ c ∧ c < m + 1 :=
    acts_between hacts (by omega) (by omega) (by omega) hk1 hm1
  have hfirst : c < n + 1 := by
    rcases hbefore with hlow | ⟨j, hj, hjn, hcj⟩
    · exact (acts_between hacts (Nat.le_refl s) (by omega) (by omega) hlow hn1).2
    · have hj1 : f (j + 1) = false := by rw [succ_of_enabled h hj, hcj]; rfl
      obtain ⟨hsj, -, -⟩ := hj
      exact (acts_between hacts (by omega) (by omega) (by omega) hj1 hn1).2
  omega

theorem actsOnce_true_iff (h : Driven f en clr true s e) :
    ActsOnce f en clr true s e ↔
      (∃ c, EnabledIn en s e c ∧ clr c = false) ∧ ¬ SetsAgain f en clr s e := by
  constructor
  · rintro ⟨c, hsc, hce, hen, hacts⟩
    refine ⟨⟨c, ⟨hsc, hce, hen⟩, ?_⟩, not_setsAgain h hacts⟩
    have hset : f (c + 1) = true := by rw [hacts c hsc hce, if_pos rfl]
    rw [succ_of_enabled h ⟨hsc, hce, hen⟩] at hset
    simpa using hset
  · rintro ⟨⟨c₀, hc₀, hcc₀⟩, hnot⟩
    -- The strobe acts where it raises the flag, or anywhere if it never does.
    obtain ⟨c, hc, hcc, hrise⟩ : ∃ c, EnabledIn en s e c ∧ clr c = false ∧
        ((∃ r, EnabledIn en s e r ∧ clr r = false ∧ f r = false) → f c = false) := by
      by_cases hrise : ∃ r, EnabledIn en s e r ∧ clr r = false ∧ f r = false
      · obtain ⟨r, hr, hcr, hfr⟩ := hrise
        exact ⟨r, hr, hcr, fun _ => hfr⟩
      · exact ⟨c₀, hc₀, hcc₀, fun hr => absurd hr hrise⟩
    refine ⟨c, hc.1, hc.2.1, hc.2.2, fun t hst hte => ?_⟩
    by_cases htc : t = c
    · subst htc
      rw [succ_of_enabled h hc, hcc, if_pos rfl]
      rfl
    · rw [if_neg htc, h t hst hte]
      cases hen : en t with
      | false => rfl
      | true =>
          cases hclr : clr t with
          | true => rfl
          | false =>
              have ht : EnabledIn en s e t := ⟨hst, hte, hen⟩
              cases hft : f t with
              | true => rfl
              | false =>
                  have hfc : f c = false := hrise ⟨t, ht, hclr, hft⟩
                  rcases Nat.lt_or_gt_of_ne htc with hlt | hgt
                  · exact absurd (setsAgain_of_rises h ht hc hclr hcc hft hfc hlt) hnot
                  · exact absurd (setsAgain_of_rises h hc ht hcc hclr hfc hft hgt) hnot

end Clocked
