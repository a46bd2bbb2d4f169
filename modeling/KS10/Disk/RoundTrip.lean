import KS10.Disk.Write
import Mathlib.Data.BitVec

/-!
# Writing and reading back

A write of some words followed by a read of as many from the same sector gives the words
back, as long as the drive keeps its request up to the end of the last sector
(`round_trips`).  The drive takes its request back early when the transfer runs off the
end of the disk, and then the words after the end are neither written nor read
(`round_trip_fails`).
-/

namespace KS10

open Clocked
open Sd (ff)

namespace Xfer

variable {env : Env} {s : Xfer} {a : BitVec 32} {n r m j k : Nat}

/-! ## What is to be shown -/

/-- The half sectors of a transfer of `n` words: whole sectors of 128 words. -/
def halves (n : Nat) : Nat := 2 * ((n + 127) / 128)

/-- The word number `k` of a transfer of `n` words: zero after the words in memory. -/
def sentWord (env : Env) (s : Xfer) (n k : Nat) : BitVec 36 :=
  if k < n then env.mem (s.ba.word + BitVec.ofNat 16 k) else 0

/-- The write that began with `s` has written exactly the half sectors of the transfer, with
the words of the memory and zeros after them. -/
structure Written (env : Env) (s : Xfer) (a : BitVec 32) (n : Nat) (c : Card) : Prop where
  blocks : c.written = s.card.written ++
    (List.range (halves n)).map fun j => a + BitVec.ofNat 32 j
  others : ∀ b, (∀ j, j < halves n → b ≠ a + BitVec.ofNat 32 j) → c.data b = s.card.data b
  bytes : ∀ k i, k < 64 * halves n → i < 8 →
    c.data (a + BitVec.ofNat 32 (k / 64)) (8 * (k % 64) + i) = Sd.encode (sentWord env s n k) i

/-- The memory after a read that began with `s` holds the words. -/
def StoresBack (env : Env) (s : Xfer) (n : Nat) (word : Nat → BitVec 36) : Prop :=
  ∃ t, Finishes env s t ∧ ∀ k, k < n →
    store env.mem ((step env)^[t] s).writes (s.ba.word + BitVec.ofNat 16 k) = word k

/-- A write that begins with `s` comes to its end, and a read of the card that begins with
`s'` gives the words back. -/
def RoundTrips (write read : Env) (s s' : Xfer) (a : BitVec 32) (n : Nat) : Prop :=
  ∃ t, Finishes write s t ∧ Written write s a n ((step write)^[t] s).card ∧
    (s'.card.data = ((step write)^[t] s).card.data → StoresBack read s' n (sentWord write s n))

/-! ## Where a transfer ends -/

/-- The drive requests every half sector of the transfer. -/
def Requests (env : Env) (a : BitVec 32) (n : Nat) : Prop :=
  ∀ j, 1 ≤ j → j < halves n → env.request (a + BitVec.ofNat 32 j) = true

theorem Requests.stops (hn : 1 ≤ n) (hbound : n < 2 ^ 15) (h : Requests env a n) :
    ∃ last, halves n = last + 1 ∧ stops env a (n % 2 ^ 15) last ∧
      ∀ j, j < last → ¬ stops env a (n % 2 ^ 15) j := by
  have hr : n % 2 ^ 15 = n := Nat.mod_eq_of_lt hbound
  obtain ⟨last, hlast⟩ : ∃ last, halves n = last + 1 := ⟨halves n - 1, by unfold halves; omega⟩
  refine ⟨last, hlast, ?_, fun j hj hstop => ?_⟩
  · rw [hr]
    unfold halves at hlast
    exact Or.inl ⟨by omega, by omega⟩
  · rw [hr] at hstop
    rcases hstop with ⟨hodd, hle⟩ | hno
    · unfold halves at hlast
      omega
    · rw [h (j + 1) (by omega) (by omega)] at hno
      cases hno

/-! ## The card after a write -/

theorem add_ofNat_inj {w : Nat} {x : BitVec w} {i j : Nat} (hi : i < 2 ^ w) (hj : j < 2 ^ w)
    (h : x + BitVec.ofNat w i = x + BitVec.ofNat w j) : i = j := by
  have hnat := congrArg BitVec.toNat ((BitVec.add_right_inj x).mp h)
  rwa [BitVec.toNat_ofNat, BitVec.toNat_ofNat, Nat.mod_eq_of_lt hi, Nat.mod_eq_of_lt hj] at hnat

theorem dataAfter_other {b : BitVec 32} (h : ∀ j, j < m → b ≠ a + BitVec.ofNat 32 j) :
    dataAfter env s a r m b = s.card.data b := by
  induction m with
  | zero => rfl
  | succ m ih =>
      rw [dataAfter, Function.update_of_ne (h m (Nat.lt_succ_self m))]
      exact ih fun j hj => h j (Nat.lt_succ_of_lt hj)

theorem dataAfter_half (hj : j < m) (hm : m ≤ 2 ^ 32) :
    dataAfter env s a r m (a + BitVec.ofNat 32 j) = fun i =>
      ((List.range 512).map (halfByte env s r j) ++ [ff, ff]).getD i 0 := by
  induction m with
  | zero => exact absurd hj (Nat.not_lt_zero j)
  | succ m ih =>
      rw [dataAfter]
      rcases Nat.lt_succ_iff_lt_or_eq.mp hj with hlt | rfl
      · have hne : a + BitVec.ofNat 32 j ≠ a + BitVec.ofNat 32 m :=
          fun h => absurd (add_ofNat_inj (by omega) (by omega) h) (Nat.ne_of_lt hlt)
        rw [Function.update_of_ne hne]
        exact ih hlt (by omega)
      · exact Function.update_self _ _ _

/-- The bytes of the word number `k` on the card. -/
theorem dataAfter_byte {i : Nat} (hk : k < 64 * m) (hm : m ≤ 2 ^ 32) (hi : i < 8) :
    dataAfter env s a r m (a + BitVec.ofNat 32 (k / 64)) (8 * (k % 64) + i) =
      Sd.encode (memWord env s r k) i := by
  rw [dataAfter_half (by omega) hm]
  change ((List.range 512).map (halfByte env s r (k / 64)) ++ [ff, ff]).getD _ 0 = _
  have hlt : 8 * (k % 64) + i < 512 := by omega
  rw [List.getD_eq_getElem?_getD, List.getElem?_append_left (by simpa using hlt)]
  simp only [List.getElem?_map, List.getElem?_range hlt, Option.map_some, Option.getD_some]
  rw [halfByte, show 64 * (k / 64) + (8 * (k % 64) + i) / 8 = k by omega,
    show (8 * (k % 64) + i) % 8 = i by omega]

/-- A write whose half sectors the drive requests writes them. -/
theorem write_written (hn : 1 ≤ n) (hbound : n < 2 ^ 15) (hbai : env.rhBAI = false)
    (hreq : Requests env a n) (h : Starts .write00 false a n s) :
    ∃ t, Finishes env s t ∧ Written env s a n ((step env)^[t] s).card := by
  have hr : n % 2 ^ 15 = n := Nat.mod_eq_of_lt hbound
  obtain ⟨last, hlast, hstop, hfirst⟩ := hreq.stops hn hbound
  obtain ⟨t, ht, hcard, -⟩ := write_finishes h hstop hfirst
  rw [hr, ← hlast] at hcard
  have hmax : halves n ≤ 2 ^ 32 := by
    unfold halves
    omega
  have hword (k : Nat) : memWord env s n k = sentWord env s n k := by
    rw [memWord, hbai, RhBa.word_plus, sentWord]
  refine ⟨t, ht, hcard.written, fun b hb => ?_, fun k i hk hi => ?_⟩
  · rw [hcard.data]
    exact dataAfter_other hb
  · rw [hcard.data, ← hword]
    exact dataAfter_byte hk hmax hi

/-! ## Reading it back -/

theorem Written.cardWord {c : Card} (h : Written env s a n c) (hk : k < 64 * halves n) :
    cardWord c.data a k = sentWord env s n k := by
  rw [← Sd.decode_encode (sentWord env s n k)]
  exact Sd.decode_congr fun i hi => h.bytes k i hk (by omega)

theorem store_concat {mem : BitVec 16 → BitVec 36} {l : List (BitVec 16 × BitVec 36)}
    {w : BitVec 16 × BitVec 36} :
    store mem (l ++ [w]) = Function.update (store mem l) w.1 w.2 := by
  rw [store, List.foldl_append]
  rfl

/-- The memory after words are written to successive addresses. -/
theorem store_range {mem : BitVec 16 → BitVec 36} {b : BitVec 16} {f : Nat → BitVec 36}
    (hk : k < m) (hm : m ≤ 2 ^ 16) :
    store mem ((List.range m).map fun j => (b + BitVec.ofNat 16 j, f j))
      (b + BitVec.ofNat 16 k) = f k := by
  induction m with
  | zero => exact absurd hk (Nat.not_lt_zero k)
  | succ m ih =>
      rw [List.range_succ, List.map_append, List.map_singleton, store_concat]
      rcases Nat.lt_succ_iff_lt_or_eq.mp hk with hlt | rfl
      · have hne : b + BitVec.ofNat 16 k ≠ b + BitVec.ofNat 16 m :=
          fun h => absurd (add_ofNat_inj (by omega) (by omega) h) (Nat.ne_of_lt hlt)
        rw [Function.update_of_ne hne]
        exact ih hlt (by omega)
      · exact Function.update_self _ _ _

/-- A read whose half sectors the drive requests stores the words of the card. -/
theorem read_stores (hn : 1 ≤ n) (hbound : n < 2 ^ 15) (hbai : env.rhBAI = false)
    (hreq : Requests env a n) (h : Starts .read00 true a n s) :
    StoresBack env s n (cardWord s.card.data a) := by
  have hr : n % 2 ^ 15 = n := Nat.mod_eq_of_lt hbound
  obtain ⟨last, hlast, hstop, hfirst⟩ := hreq.stops hn hbound
  obtain ⟨t, ht, hwrites, -⟩ := read_finishes h hstop hfirst
  rw [hr, ← hlast] at hwrites
  have hlt : n ≤ 64 * halves n := by
    unfold halves
    omega
  have hmax : 64 * halves n ≤ 2 ^ 16 := by
    unfold halves
    omega
  have hlist : readWrites env s a n (64 * halves n) =
      (List.range (64 * halves n)).map fun k => (s.ba.word + BitVec.ofNat 16 k,
        if k < n then Xfer.cardWord s.card.data a k else 0) := by
    simp only [readWrites, hbai, RhBa.word_plus]
  refine ⟨t, ht, fun k hk => ?_⟩
  rw [hwrites, hlist, store_range (by omega) hmax, if_pos hk]

/-- A write of at most 32767 words, the most that the word count register counts, followed
by a read of as many gives the words back, without the bus address increment inhibit and
while the drive requests the half sectors. -/
theorem round_trips (write read : Env) (s s' : Xfer) (a : BitVec 32) (n : Nat) (hn : 1 ≤ n)
    (hbound : n < 2 ^ 15) (hbai : write.rhBAI = false) (hbai' : read.rhBAI = false)
    (hreq : Requests write a n) (hreq' : Requests read a n) (hw : Starts .write00 false a n s)
    (hr : Starts .read00 true a n s') : RoundTrips write read s s' a n := by
  obtain ⟨t, ht, hwritten⟩ := write_written hn hbound hbai hreq hw
  refine ⟨t, ht, hwritten, fun hdata => ?_⟩
  obtain ⟨u, hu, hstored⟩ := read_stores hn hbound hbai' hreq' hr
  refine ⟨u, hu, fun k hk => (hstored k hk).trans ?_⟩
  rw [hdata]
  refine hwritten.cardWord ?_
  unfold halves
  omega

/-- One word to sector 0 and back. -/
theorem round_trips_one : RoundTrips (.prompt fun _ => 1) (.prompt 0)
    (accepted .write00 false 0 1 { addr := 0 } 0) (accepted .read00 true 0 1 { addr := 0 } 0) 0 1 :=
  round_trips _ _ _ _ 0 1 (by decide) (by decide) rfl rfl (fun _ _ _ => rfl) (fun _ _ _ => rfl)
    accepted_starts accepted_starts

/-! ## Off the end of the disk

The last sector of an RP06 is cylinder 814, track 18, sector 19.  After it, at the half
sector 619400, the drive reports an address overflow and takes its request back. -/

def atTheEnd : Env := { Env.prompt 0 with request := fun x => x != 619400 }

theorem round_trip_fails : ¬ ∀ (write read : Env) (s s' : Xfer) (a : BitVec 32) (n : Nat), 1 ≤ n →
    n < 2 ^ 15 → write.rhBAI = false → read.rhBAI = false → Starts .write00 false a n s →
    Starts .read00 true a n s' → RoundTrips write read s s' a n := by
  intro h
  have hstart : Starts .write00 false 619398 256
      (accepted .write00 false 619398 256 { addr := 0 } 0) := accepted_starts
  obtain ⟨t, ht, hwritten, -⟩ := h atTheEnd atTheEnd _
    (accepted .read00 true 619398 256 { addr := 0 } 0) 619398 256 (by decide) (by decide) rfl rfl
    hstart accepted_starts
  have hstop : stops atTheEnd 619398 (256 % 2 ^ 15) 1 := Or.inr (by decide)
  have hfirst : ∀ j, j < 1 → ¬ stops atTheEnd 619398 (256 % 2 ^ 15) j := by
    intro j hj
    obtain rfl : j = 0 := by omega
    rintro (⟨hodd, -⟩ | hno)
    · cases hodd
    · revert hno
      decide
  obtain ⟨u, hu, hcard, -⟩ := write_finishes hstart hstop hfirst
  obtain rfl := ht.unique hu
  have hlength := congrArg List.length (hwritten.blocks.symm.trans hcard.written)
  simp [halves] at hlength

end Xfer

end KS10
