import KS10.Uba.Bridge

/-!
# Whose vector is read

In a vector cycle the adapter puts the data of one of its devices on the bus.  Sixteen
requests, of four devices on four lines, are looked at in the order of the lines and, on a
line, of the devices.  The choice has to fit twice: with the order itself, in which the last
device of BR7 is given the data of its neighbour, and with the line that the WRU cycle before
has acknowledged, which is not looked at.
-/

namespace KS10

open Clocked

namespace UbaIntr

/-! ## The order of the requests -/

/-- The lowest-numbered device that requests on the line `k`, line 0 being BR7. -/
def firstAt (intr : Fin 4 → Level) (k : Fin 4) : Option (Fin 4) :=
  (List.finRange 4).find? fun n => bit (intr n) k

/-- The lowest-numbered device on the first of the lines on which anyone requests. -/
def firstOf (intr : Fin 4 → Level) (lines : List (Fin 4)) : Option (Fin 4) :=
  lines.findSome? (firstAt intr)

/-- The lowest-numbered device that requests on the highest line with a request. -/
def firstHighest (intr : Fin 4 → Level) : Option (Fin 4) := firstOf intr [0, 1, 2, 3]

/-- The lowest-numbered device that requests on the acknowledged line. -/
def acked (inta : Level) (intr : Fin 4 → Level) : Option (Fin 4) :=
  (List.finRange 4).find? fun n => (intr n &&& inta) != 0

/-- A vector cycle returns the data of the first device on the highest line, and that is the
device whose line the WRU cycle acknowledges. -/
structure Selects (d : Devices) (vect wru : BitVec 36) (statPih statPil : BitVec 3) : Prop where
  data : ∀ n, firstHighest d.devIntr = some n → Uba.devData d true vect = d.devDataI n
  acked : ∀ n, acked (nextInta wru statPih statPil (anyIntr d.devIntr)) d.devIntr = some n →
    firstHighest d.devIntr = some n

/-- The fourth device is not alone on BR7 with data of its own, and a WRU cycle that reaches
the lower lines only finds no other device on the upper ones. -/
structure Fits (d : Devices) (wru : BitVec 36) (statPih statPil : BitVec 3) : Prop where
  fourth : firstAt d.devIntr 0 = some 3 → d.devDataI 2 = d.devDataI 3
  lower : Uba.wruRead wru = true → Bus.busPi wru ≠ statPih → Bus.busPi wru = statPil →
    ∀ n m, firstOf d.devIntr [0, 1] = some n → firstOf d.devIntr [2, 3] = some m → n = m

variable {intr : Fin 4 → Level}

/-! ## The data -/

/-- The data of the first device of a line, or else what the lower lines choose. -/
theorem chain (k : Fin 4) (data : Fin 4 → BitVec 36) (rest : BitVec 36) :
    (if bit (intr 0) k then data 0
      else if bit (intr 1) k then data 1
      else if bit (intr 2) k then data 2
      else if bit (intr 3) k then data 3
      else rest) = (firstAt intr k).elim rest data := by
  have hrange : List.finRange 4 = [0, 1, 2, 3] := by decide
  unfold firstAt
  rw [hrange]
  cases h0 : bit (intr 0) k <;> cases h1 : bit (intr 1) k <;> cases h2 : bit (intr 2) k <;>
    cases h3 : bit (intr 3) k <;> simp [List.find?, h0, h1, h2, h3]

/-- The data on BR7, with the data of the third device for those of the fourth. -/
def dataOfBr7 (data : Fin 4 → BitVec 36) (n : Fin 4) : BitVec 36 :=
  if n = 3 then data 2 else data n

theorem vectorData_eq (intr : Fin 4 → Level) (data : Fin 4 → BitVec 36) :
    vectorData intr data =
      (firstAt intr 0).elim ((firstOf intr [1, 2, 3]).elim 0 data) (dataOfBr7 data) := by
  have hlower : (firstOf intr [1, 2, 3]).elim 0 data =
      (firstAt intr 1).elim ((firstAt intr 2).elim ((firstAt intr 3).elim 0 data) data) data := by
    unfold firstOf
    simp only [List.findSome?_cons, List.findSome?_nil]
    cases firstAt intr 1 <;> cases firstAt intr 2 <;> cases firstAt intr 3 <;> rfl
  unfold vectorData
  rw [hlower, ← chain 3 data 0, ← chain 2 data _, ← chain 1 data _,
    ← chain 0 (dataOfBr7 data) _]
  rfl

theorem firstHighest_eq (intr : Fin 4 → Level) :
    firstHighest intr = (firstAt intr 0).or (firstOf intr [1, 2, 3]) := by
  unfold firstHighest firstOf
  rw [List.findSome?_cons]
  cases firstAt intr 0 <;> rfl

/-- The data are those of the chosen device unless it is the fourth one on BR7. -/
theorem data_iff (d : Devices) {vect : BitVec 36} (hvect : Bus.busVect vect = true) :
    (∀ n, firstHighest d.devIntr = some n → Uba.devData d true vect = d.devDataI n) ↔
      (firstAt d.devIntr 0 = some 3 → d.devDataI 2 = d.devDataI 3) := by
  have hdata : Uba.devData d true vect = vectorData d.devIntr d.devDataI := by
    unfold Uba.devData
    rw [hvect]
    rfl
  rw [hdata, vectorData_eq, firstHighest_eq]
  cases hbr7 : firstAt d.devIntr 0 with
  | none =>
      rw [Option.none_or]
      constructor
      · exact fun _ h => nomatch h
      · intro _ n hn
        rw [hn]
        rfl
  | some k =>
      rw [Option.some_or]
      show (∀ n, some k = some n → dataOfBr7 d.devDataI k = _) ↔ _
      unfold dataOfBr7
      constructor
      · intro h hthree
        have hk : k = 3 := Option.some.inj hthree
        subst hk
        simpa using h 3 rfl
      · intro h n hn
        have hk : k = n := Option.some.inj hn
        subst hk
        by_cases hthree : k = 3
        · subst hthree
          simpa using h rfl
        · rw [if_neg hthree]

/-! ## The acknowledge -/

theorem bit_anyIntr (intr : Fin 4 → Level) (k : Fin 4) :
    bit (anyIntr intr) k = (firstAt intr k).isSome := by
  have hrange : List.finRange 4 = [0, 1, 2, 3] := by decide
  unfold anyIntr firstAt bit
  rw [hrange]
  simp only [BitVec.getMsbD_or, List.find?]
  cases (intr 0).getMsbD k <;> cases (intr 1).getMsbD k <;> cases (intr 2).getMsbD k <;>
    cases (intr 3).getMsbD k <;> rfl

/-- The acknowledge of a line. -/
def lineOf (k : Fin 4) : Level := 0b1000#4 >>> k.val

/-- An acknowledged line selects its first device. -/
theorem acked_lineOf (intr : Fin 4 → Level) (k : Fin 4) : acked (lineOf k) intr = firstAt intr k := by
  have hline : ∀ (k : Fin 4) (l : Level), ((l &&& lineOf k) != 0) = bit l k := by decide
  unfold acked firstAt
  congr 1
  funext n
  exact hline k (intr n)

theorem acked_intrNul (intr : Fin 4 → Level) : acked Level.intrNul intr = none := by
  unfold acked Level.intrNul
  rw [List.find?_eq_none]
  intro n _
  simp

theorem firstOf_pair (intr : Fin 4 → Level) (j k : Fin 4) :
    firstOf intr [j, k] = (firstAt intr j).or (firstAt intr k) := by
  unfold firstOf
  simp only [List.findSome?_cons, List.findSome?_nil]
  cases firstAt intr j <;> cases firstAt intr k <;> rfl

/-- The acknowledge of a pair of lines selects its first device. -/
theorem acked_pair (intr : Fin 4 → Level) (j k : Fin 4) :
    acked (if bit (anyIntr intr) j then lineOf j
      else if bit (anyIntr intr) k then lineOf k else Level.intrNul) intr =
      firstOf intr [j, k] := by
  rw [bit_anyIntr, bit_anyIntr, firstOf_pair]
  cases hj : firstAt intr j with
  | some n =>
      show acked (lineOf j) intr = some n
      rw [acked_lineOf, hj]
  | none =>
      cases hk : firstAt intr k with
      | some n =>
          show acked (lineOf k) intr = some n
          rw [acked_lineOf, hk]
      | none => exact acked_intrNul intr

theorem firstHighest_pairs (intr : Fin 4 → Level) :
    firstHighest intr = (firstOf intr [0, 1]).or (firstOf intr [2, 3]) := by
  unfold firstHighest firstOf
  simp only [List.findSome?_cons, List.findSome?_nil]
  cases firstAt intr 0 <;> cases firstAt intr 1 <;> cases firstAt intr 2 <;>
    cases firstAt intr 3 <;> rfl

/-- The acknowledged device is the chosen one unless only the lower lines are acknowledged
while another device requests on the upper ones. -/
theorem acked_iff (intr : Fin 4 → Level) (wru : BitVec 36) (statPih statPil : BitVec 3) :
    (∀ n, acked (nextInta wru statPih statPil (anyIntr intr)) intr = some n →
        firstHighest intr = some n) ↔
      (Uba.wruRead wru = true → Bus.busPi wru ≠ statPih → Bus.busPi wru = statPil →
        ∀ n m, firstOf intr [0, 1] = some n → firstOf intr [2, 3] = some m → n = m) := by
  have hupper := acked_pair intr 0 1
  have hlower := acked_pair intr 2 3
  rw [firstHighest_pairs]
  unfold nextInta
  cases hread : Uba.wruRead wru with
  | false =>
      rw [Bool.false_and, Bool.false_and, if_neg Bool.false_ne_true, if_neg Bool.false_ne_true,
        acked_intrNul]
      exact ⟨fun _ h => absurd h Bool.false_ne_true, fun _ _ h => nomatch h⟩
  | true =>
      rw [Bool.true_and, Bool.true_and]
      by_cases hpih : Bus.busPi wru = statPih
      · rw [if_pos (beq_iff_eq.mpr hpih)]
        refine ⟨fun _ _ h => absurd hpih h, fun _ n hn => ?_⟩
        have hfirst : firstOf intr [0, 1] = some n := hupper.symm.trans hn
        rw [hfirst, Option.some_or]
      · rw [if_neg (by rwa [beq_iff_eq])]
        by_cases hpil : Bus.busPi wru = statPil
        · rw [if_pos (beq_iff_eq.mpr hpil)]
          constructor
          · intro h _ _ _ n m hn hm
            have hor := h m (hlower.trans hm)
            rw [hn, Option.some_or] at hor
            exact Option.some.inj hor
          · intro h n hn
            have hm : firstOf intr [2, 3] = some n := hlower.symm.trans hn
            cases hfirst : firstOf intr [0, 1] with
            | none => rw [Option.none_or, hm]
            | some k => rw [Option.some_or, h rfl hpih hpil k n hfirst hm]
        · rw [if_neg (by rwa [beq_iff_eq]), acked_intrNul]
          exact ⟨fun _ _ _ h => absurd h hpil, fun _ _ h => nomatch h⟩

/-- A vector cycle selects as it should if and only if the requests fit. -/
theorem selects_iff (d : Devices) {vect : BitVec 36} (hvect : Bus.busVect vect = true)
    (wru : BitVec 36) (statPih statPil : BitVec 3) :
    Selects d vect wru statPih statPil ↔ Fits d wru statPih statPil := by
  constructor
  · rintro ⟨hdata, hacked⟩
    exact ⟨(data_iff d hvect).mp hdata, (acked_iff d.devIntr wru statPih statPil).mp hacked⟩
  · rintro ⟨hfourth, hlower⟩
    exact ⟨(data_iff d hvect).mpr hfourth, (acked_iff d.devIntr wru statPih statPil).mpr hlower⟩

/-! ## The fourth device -/

/-- A vector cycle. -/
def vectCycle : BitVec 36 := 0o041240000000

/-- Devices with their own numbers as data, of which one requests the line BR7. -/
def onBr7 (n : Fin 4) : Devices where
  devReqI := fun _ => false
  devAckI := fun _ => false
  devIntr := fun k => if k = n then Level.intr7 else Level.intrNul
  devAddrI := fun _ => 0
  devDataI := fun k => BitVec.ofNat 36 (k + 1)

theorem selects_iff_third :
    Selects (onBr7 2) vectCycle 0o041305000000 5 6 ↔ Fits (onBr7 2) 0o041305000000 5 6 :=
  selects_iff (onBr7 2) (by decide) 0o041305000000 5 6

/-- The fourth device alone on BR7 gets the data of the third. -/
theorem selects_fails :
    ¬ ∀ (d : Devices) (vect wru : BitVec 36) (statPih statPil : BitVec 3),
      Bus.busVect vect = true → Selects d vect wru statPih statPil := by
  intro h
  have hdata := (h (onBr7 3) vectCycle 0o041305000000 5 6 (by decide)).data 3 (by decide)
  exact absurd hdata (by decide)

end UbaIntr

end KS10
