import KS10.Lp.Ramd
import Mathlib.Data.Finset.Card

/-!
# The table that a transfer leaves in the translation RAM

Each byte of a transfer writes its half-word to the entry that the address register selects, so
the table is that of the last writes (`table`).  With the address register at zero when the
transfer begins it is the table of the memory; `inPlace_of_loaded` says when else it is.
-/

namespace KS10

open Clocked

namespace LpRamLoad

/-! ## The bytes of a transfer -/

/-- The write of byte `m`, when the address register began at `k`. -/
def byteWrite (k : BitVec 9) (word : Nat → BitVec 13) (m : Nat) :
    Write (BitVec 8) (BitVec 13) where
  enable := true
  addr := (k + BitVec.ofNat 9 m).extractLsb' 1 8
  data := stored (word m)

/-- The entries after the writes of a number of bytes. -/
def table (k : BitVec 9) (word : Nat → BitVec 13) (old : BitVec 8 → BitVec 13) :
    Nat → BitVec 8 → BitVec 13
  | 0 => old
  | m + 1 => (byteWrite k word m).apply (table k word old m)

/-- The half-word that byte `m` of a transfer belongs to. -/
def wordOf (mem : BitVec 16 → BitVec 36) (a : BitVec 18) (m : Nat) : BitVec 13 :=
  halfAt mem (a + BitVec.ofNat 18 m)

variable {old : BitVec 8 → BitVec 13}

/-! ## The table of a whole transfer -/

theorem byteWrite_addr (k : BitVec 9) (word : Nat → BitVec 13) (m : Nat) :
    (byteWrite k word m).addr.toNat = (k.toNat + m) % 512 / 2 := by
  have hlt : (k.toNat + m) % 512 / 2 < 256 := by omega
  show ((k + BitVec.ofNat 9 m).extractLsb' 1 8).toNat = _
  rw [BitVec.extractLsb'_toNat, BitVec.toNat_add, BitVec.toNat_ofNat, Nat.add_mod_mod,
    Nat.shiftRight_eq_div_pow]
  exact Nat.mod_eq_of_lt hlt

theorem writes_iff {k : BitVec 9} {word : Nat → BitVec 13} {m : Nat} {b : BitVec 8} :
    (byteWrite k word m).Writes b ↔ (k.toNat + m) % 512 / 2 = b.toNat := by
  rw [← byteWrite_addr k word m]
  exact ⟨fun h => congrArg BitVec.toNat h.2, fun h => ⟨rfl, BitVec.eq_of_toNat_eq h⟩⟩

/-- An entry has the half-word of the last byte that was written to it. -/
theorem table_of_last {k : BitVec 9} {word : Nat → BitVec 13} {bytes u : Nat} {b : BitVec 8}
    (hu : u < bytes) (hb : (k.toNat + u) % 512 / 2 = b.toNat)
    (hlast : ∀ v, u < v → v < bytes → (k.toNat + v) % 512 / 2 ≠ b.toNat) :
    table k word old bytes b = stored (word u) := by
  have hwrite : Write.LastWrite (byteWrite k word) bytes b (stored (word u)) :=
    ⟨u, hu, writes_iff.mpr hb, rfl, fun v huv hv h => hlast v huv hv (writes_iff.mp h)⟩
  exact hwrite.eq (m := table k word old) fun _ => rfl

theorem table_of_none {k : BitVec 9} {word : Nat → BitVec 13} {bytes : Nat} {b : BitVec 8}
    (h : ∀ v, v < bytes → (k.toNat + v) % 512 / 2 ≠ b.toNat) :
    table k word old bytes b = old b :=
  Write.eq_of_not_writes (w := byteWrite k word) (m := table k word old) (fun _ => rfl)
    fun v hv hw => h v hv (writes_iff.mp hw)

/-! ### The half-words of a memory -/

theorem toNat_of_even {a : BitVec 18} (h : a.getLsbD 0 = false) : a.toNat % 2 = 0 := by
  have hbit : a.toNat.testBit 0 = false := h
  rw [Nat.testBit_zero, decide_eq_false_iff_not] at hbit
  omega

theorem half_toNat (a : BitVec 18) (m : Nat) :
    ((a + BitVec.ofNat 18 m).extractLsb' 1 17).toNat = (a.toNat + m) % 262144 / 2 := by
  have hlt : (a.toNat + m) % 262144 / 2 < 131072 := by omega
  rw [BitVec.extractLsb'_toNat, BitVec.toNat_add, BitVec.toNat_ofNat, Nat.add_mod_mod,
    Nat.shiftRight_eq_div_pow]
  exact Nat.mod_eq_of_lt hlt

/-- The half-word is one of the memory of half-words. -/
theorem halfAt_congr {mem : BitVec 16 → BitVec 36} {a b : BitVec 18}
    (h : a.extractLsb' 1 17 = b.extractLsb' 1 17) : halfAt mem a = halfAt mem b := by
  have hbit : a.getLsbD 1 = b.getLsbD 1 := by
    have hget := congrArg (fun d => d.getLsbD 0) h
    simpa [BitVec.getLsbD_extractLsb'] using hget
  have hword : a.extractLsb' 2 16 = b.extractLsb' 2 16 := by
    have hnat := congrArg BitVec.toNat h
    apply BitVec.eq_of_toNat_eq
    rw [BitVec.extractLsb'_toNat, BitVec.extractLsb'_toNat, Nat.shiftRight_eq_div_pow,
      Nat.shiftRight_eq_div_pow] at hnat ⊢
    omega
  unfold halfAt
  rw [hbit, hword]

/-- Both bytes of a half-word write the same. -/
theorem wordOf_odd {mem : BitVec 16 → BitVec 36} {a : BitVec 18} (h : a.getLsbD 0 = false)
    (m : Nat) : wordOf mem a (2 * m + 1) = wordOf mem a (2 * m) := by
  have heven := toNat_of_even h
  apply halfAt_congr
  apply BitVec.eq_of_toNat_eq
  rw [half_toNat, half_toNat]
  omega

/-- A memory that is made of half-words. -/
def ofHalves (half : BitVec 17 → BitVec 13) (q : BitVec 16) : BitVec 36 :=
  0#5 ++ (half (q ++ 0#1) ++ (0#5 ++ half (q ++ 1#1)))

theorem halfAt_ofHalves (half : BitVec 17 → BitVec 13) (a : BitVec 18) :
    halfAt (ofHalves half) a = half (a.extractLsb' 1 17) := by
  have hjoin : a.extractLsb' 2 16 ++ a.extractLsb' 1 1 = a.extractLsb' 1 17 :=
    BitVec.extractLsb'_append_extractLsb'_eq_extractLsb' rfl
  have heven : ∀ e o : BitVec 13, (0#5 ++ (e ++ (0#5 ++ o))).extractLsb' 18 13 = e := by
    intro e o
    rw [BitVec.extractLsb'_append_eq_of_add_le (by decide)]
    exact BitVec.extractLsb'_append_eq_left
  have hodd : ∀ e o : BitVec 13, (0#5 ++ (e ++ (0#5 ++ o))).extractLsb' 0 13 = o := by
    intro e o
    rw [BitVec.extractLsb'_append_eq_of_add_le (by decide),
      BitVec.extractLsb'_append_eq_of_add_le (by decide)]
    exact BitVec.extractLsb'_append_eq_right
  have hone : a.extractLsb' 1 1 = BitVec.ofBool (a.getLsbD 1) := by
    apply BitVec.eq_of_getLsbD_eq
    intro k hk
    have hk0 : k = 0 := by omega
    rw [hk0, BitVec.getLsbD_extractLsb', BitVec.getLsbD_ofBool]
    rfl
  unfold halfAt ofHalves
  cases hbit : a.getLsbD 1 with
  | false =>
      have hlow : a.extractLsb' 1 1 = 0#1 := hone.trans (congrArg BitVec.ofBool hbit)
      rw [if_neg Bool.false_ne_true, heven, ← hjoin, hlow]
  | true =>
      have hlow : a.extractLsb' 1 1 = 1#1 := hone.trans (congrArg BitVec.ofBool hbit)
      rw [if_pos rfl, hodd, ← hjoin, hlow]

/-- A memory with one half-word at an address, and another one everywhere else. -/
theorem exists_memory {a : BitVec 18} (h : a.getLsbD 0 = false) (d e : BitVec 13) :
    ∃ mem : BitVec 16 → BitVec 36, ∀ m, m < 512 → wordOf mem a m = if m < 2 then d else e := by
  have heven := toNat_of_even h
  refine ⟨ofHalves fun q => if q = a.extractLsb' 1 17 then d else e, fun m hm => ?_⟩
  unfold wordOf
  rw [halfAt_ofHalves]
  have hiff : (a + BitVec.ofNat 18 m).extractLsb' 1 17 = a.extractLsb' 1 17 ↔ m < 2 := by
    have hzero : a.extractLsb' 1 17 = (a + BitVec.ofNat 18 0).extractLsb' 1 17 := by
      rw [BitVec.add_zero]
    have hlt := a.isLt
    rw [hzero]
    constructor
    · intro heq
      have hnat := congrArg BitVec.toNat heq
      rw [half_toNat, half_toNat] at hnat
      omega
    · intro hlt
      apply BitVec.eq_of_toNat_eq
      rw [half_toNat, half_toNat]
      omega
  by_cases hlt : m < 2
  · rw [if_pos hlt, if_pos (hiff.mpr hlt)]
  · rw [if_neg hlt, if_neg fun heq => hlt (hiff.mp heq)]

/-- There are more entries to store than three. -/
theorem exists_stored (l : Finset (BitVec 13)) (h : l.card ≤ 3) : ∃ d, stored d ∉ l := by
  have hcard : (Finset.image stored {0, 1, 2, 3}).card = 4 := by decide
  obtain ⟨e, he, hl⟩ := Finset.exists_mem_notMem_of_card_lt_card
    (show l.card < (Finset.image stored {0, 1, 2, 3}).card by omega)
  obtain ⟨d, _, rfl⟩ := Finset.mem_image.mp he
  exact ⟨d, hl⟩

/-! ### When the table is loaded -/

/-- The address register begins at zero, or at one with an odd number of bytes. -/
def InPlace (k : BitVec 9) (bytes : Nat) : Prop := k = 0 ∨ (k = 1 ∧ bytes % 2 = 1)

theorem InPlace.toNat {k : BitVec 9} {bytes : Nat} (h : InPlace k bytes) :
    k.toNat = 0 ∨ (k.toNat = 1 ∧ bytes % 2 = 1) := by
  rcases h with rfl | ⟨rfl, hodd⟩
  · exact .inl rfl
  · exact .inr ⟨rfl, hodd⟩

theorem loaded_of_inPlace {mem : BitVec 16 → BitVec 36} {a : BitVec 18} {k : BitVec 9}
    {bytes : Nat} (heven : a.getLsbD 0 = false) (hle : bytes ≤ 512) (h : InPlace k bytes) :
    Loaded mem a bytes old (table k (wordOf mem a) old bytes) where
  loaded b hb := by
    have hk := h.toNat
    have hlt := b.isLt
    by_cases hodd : k.toNat = 0 ∧ 2 * b.toNat + 1 < bytes
    · have hlast : table k (wordOf mem a) old bytes b =
          stored (wordOf mem a (2 * b.toNat + 1)) :=
        table_of_last hodd.2 (by omega) fun v _ _ => by omega
      rw [hlast, wordOf_odd heven]
      rfl
    · exact table_of_last hb (by omega) fun v _ _ => by omega
  kept b hb := by
    have hk := h.toNat
    have hlt := b.isLt
    exact table_of_none fun v _ => by omega

/-- The first half-word is told from the old entries that could stand in its place, and from all
later half-words. -/
structure Tells (old : BitVec 8 → BitVec 13) (bytes : Nat) (word : Nat → BitVec 13) : Prop where
  zero : stored (word 0) ≠ old 0
  last : stored (word 0) ≠ old 255
  past : ∀ m, m < 512 → stored (word m) ≠ old (BitVec.ofNat 8 (bytes / 2))
  later : ∀ m, 2 ≤ m → m < 512 → stored (word m) ≠ stored (word 0)

/-- Some memory tells the first half-word. -/
theorem exists_tells {a : BitVec 18} (heven : a.getLsbD 0 = false) (old : BitVec 8 → BitVec 13)
    (bytes : Nat) : ∃ mem, Tells old bytes (wordOf mem a) := by
  obtain ⟨d, hd⟩ := exists_stored {old 0, old 255, old (BitVec.ofNat 8 (bytes / 2))}
    Finset.card_le_three
  obtain ⟨e, he⟩ := exists_stored {stored d, old (BitVec.ofNat 8 (bytes / 2))}
    (Nat.le_trans Finset.card_le_two (by decide))
  simp only [Finset.mem_insert, Finset.mem_singleton, not_or] at hd he
  obtain ⟨mem, hword⟩ := exists_memory heven d e
  have hfirst : wordOf mem a 0 = d := by rw [hword 0 (by decide), if_pos (by decide)]
  refine ⟨mem, ?_, ?_, fun m hm => ?_, fun m hlater hm => ?_⟩
  · rw [hfirst]
    exact hd.1
  · rw [hfirst]
    exact hd.2.1
  · rw [hword m hm]
    split
    · exact hd.2.2
    · exact he.2
  · rw [hfirst, hword m hm, if_neg (Nat.not_lt.mpr hlater)]
    exact he.1

section Tells

variable {a : BitVec 18} {k : BitVec 9} {bytes : Nat} {word : Nat → BitVec 13}

/-- With the address register at one the last byte of an even number goes to the entry after the
table. -/
theorem Tells.odd_of_one (h : Tells old bytes word) (hpos : 0 < bytes) (hle : bytes ≤ 512)
    (hk : k.toNat = 1) (hzero : table k word old bytes 0 = stored (word 0))
    (hkept : ∀ b : BitVec 8, bytes ≤ 2 * b.toNat → table k word old bytes b = old b) :
    bytes % 2 = 1 := by
  by_contra heven
  by_cases hfull : bytes = 512
  · have hlast : table k word old bytes 0 = stored (word 511) :=
      table_of_last (by omega) (by rw [hk]; rfl) fun v _ _ => by omega
    exact h.later 511 (by decide) (by decide) (hlast.symm.trans hzero)
  · have hb : (BitVec.ofNat 8 (bytes / 2)).toNat = bytes / 2 := by
      rw [BitVec.toNat_ofNat]
      exact Nat.mod_eq_of_lt (by omega)
    have hlast : table k word old bytes (BitVec.ofNat 8 (bytes / 2)) =
        stored (word (bytes - 1)) :=
      table_of_last (by omega) (by rw [hb]; omega) fun v _ _ => by omega
    exact h.past (bytes - 1) (by omega) (hlast.symm.trans (hkept _ (by rw [hb]; omega)))

/-- With the address register further on, entry zero does not keep the first half-word. -/
theorem Tells.lt_two (h : Tells old bytes word) (hpos : 0 < bytes)
    (hle : bytes ≤ 512) (hzero : table k word old bytes 0 = stored (word 0))
    (hkept : ∀ b : BitVec 8, bytes ≤ 2 * b.toNat → table k word old bytes b = old b) :
    k.toNat < 2 := by
  by_contra hk
  have hlt := k.isLt
  by_cases hshort : bytes ≤ 512 - k.toNat
  · -- Entry zero is not written.
    have hnone : table k word old bytes 0 = old 0 :=
      table_of_none fun v _ => show _ ≠ 0 by omega
    exact h.zero (hzero.symm.trans hnone)
  · by_cases hlong : 513 - k.toNat < bytes
    · -- Entry zero has a later half-word.
      have hlast : table k word old bytes 0 = stored (word (513 - k.toNat)) :=
        table_of_last hlong (show _ = 0 by omega) fun v _ _ => show _ ≠ 0 by omega
      exact h.later (513 - k.toNat) (by omega) (by omega) (hlast.symm.trans hzero)
    · -- The last byte goes to entry zero.
      have hlast : table k word old bytes 0 = stored (word (512 - k.toNat)) :=
        table_of_last (by omega) (show _ = 0 by omega) fun v _ _ => show _ ≠ 0 by omega
      by_cases htwo : 2 ≤ 512 - k.toNat
      · exact h.later _ htwo (by omega) (hlast.symm.trans hzero)
      · have hend : table k word old bytes 255 = stored (word 0) :=
          table_of_last hpos (show _ = 255 by omega) fun v _ _ => show _ ≠ 255 by omega
        exact h.last (hend.symm.trans (hkept 255 (show bytes ≤ 2 * 255 by omega)))

/-- If the table is loaded from every memory, the address register was in place. -/
theorem inPlace_of_loaded (heven : a.getLsbD 0 = false) (hpos : 0 < bytes) (hle : bytes ≤ 512)
    (h : ∀ mem, Loaded mem a bytes old (table k (wordOf mem a) old bytes)) :
    InPlace k bytes := by
  obtain ⟨mem, htells⟩ := exists_tells heven old bytes
  have hzero : table k (wordOf mem a) old bytes 0 = stored (wordOf mem a 0) :=
    (h mem).loaded 0 hpos
  have hlt := htells.lt_two hpos hle hzero (h mem).kept
  by_cases hk : k.toNat = 0
  · exact .inl (BitVec.eq_of_toNat_eq hk)
  · have hone : k.toNat = 1 := by omega
    exact .inr ⟨BitVec.eq_of_toNat_eq hone,
      htells.odd_of_one hpos hle hone hzero (h mem).kept⟩

end Tells

end LpRamLoad

end KS10
