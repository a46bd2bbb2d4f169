import KS10.Dup.Receiver
import KS10.Dup.Transmitter

/-!
# The check characters

The transmitter sends its CRC register after the message, transposed and in SDLC mode
complemented, in two characters with the least significant bit first.  On the line that is
the register with its most significant bit first (`DupTx.checkBits_eq`).  The receiver, which
takes the check characters into its own register, compares with what they leave there.
-/

namespace KS10

open Clocked

namespace DupTx

/-- The two check characters on the line. -/
def checkBits (decmd : Bool) (crcReg : BitVec 16) : List Bool :=
  UsrtTx.lowBits (crcHi decmd crcReg) 8 ++ UsrtTx.lowBits (crcLo decmd crcReg) 8

/-- What is sent of the register: in SDLC mode its complement. -/
def sentCrc (decmd : Bool) (crcReg : BitVec 16) : BitVec 16 :=
  if decmd then crcReg else ~~~crcReg

theorem getLsbD_crcHi (decmd : Bool) (crcReg : BitVec 16) (k : Nat) (hk : k < 8) :
    (crcHi decmd crcReg).getLsbD k = (sentCrc decmd crcReg).getMsbD k := by
  unfold crcHi sentCrc crc
  have hlt : k < 16 := by omega
  have hin : 15 - k < 16 := by omega
  cases decmd <;> simp [BitVec.getElem_reverse, BitVec.getMsbD_eq_getLsbD, hk, hlt, hin]

theorem getLsbD_crcLo (decmd : Bool) (crcReg : BitVec 16) (k : Nat) (hk : k < 8) :
    (crcLo decmd crcReg).getLsbD k = (sentCrc decmd crcReg).getMsbD (8 + k) := by
  unfold crcLo sentCrc crc
  have hlt : 8 + k < 16 := by omega
  have hin : 15 - (8 + k) < 16 := by omega
  cases decmd <;> simp [BitVec.getElem_reverse, BitVec.getMsbD_eq_getLsbD, hk, hlt, hin]

/-- The check characters put the register on the line with its most significant bit first. -/
theorem checkBits_eq (decmd : Bool) (crcReg : BitVec 16) :
    checkBits decmd crcReg = Remainder.check (sentCrc decmd crcReg) := by
  have hrange : List.range 16 = List.range 8 ++ (List.range 8).map (8 + ·) := by decide
  unfold checkBits Remainder.check UsrtTx.lowBits
  rw [hrange, List.map_append, List.map_map]
  congr 1
  · refine List.map_congr_left fun k hk => ?_
    exact getLsbD_crcHi decmd crcReg k (List.mem_range.mp hk)
  · refine List.map_congr_left fun k hk => ?_
    exact getLsbD_crcLo decmd crcReg k (List.mem_range.mp hk)

end DupTx

namespace DupRx

/-- What the check compares with. -/
def residue (decmd : Bool) : BitVec 16 := if decmd then decCrc else sdlcCrc

/-- The check characters meet the register they were made from. -/
theorem feed_checkBits (decmd : Bool) (crcReg : BitVec 16) :
    Crc16.feed decmd crcReg (DupTx.checkBits decmd crcReg) = residue decmd := by
  have hmeets : crcReg ^^^ DupTx.sentCrc decmd crcReg = if decmd then 0 else BitVec.allOnes 16 := by
    unfold DupTx.sentCrc
    cases decmd with
    | false =>
        show crcReg ^^^ ~~~crcReg = BitVec.allOnes 16
        apply BitVec.eq_of_getLsbD_eq
        intro k hk
        rw [BitVec.getLsbD_xor, BitVec.getLsbD_not, BitVec.getLsbD_allOnes, decide_eq_true hk]
        cases crcReg.getLsbD k <;> rfl
    | true => exact BitVec.xor_self
  have hfeed := Remainder.foldl_check (by decide) (Crc16.poly decmd) crcReg
    (DupTx.sentCrc decmd crcReg)
  rw [DupTx.checkBits_eq]
  refine hfeed.trans ?_
  rw [hmeets]
  cases decmd <;> decide

/-- A message with its check characters leaves the register that the check compares with. -/
theorem feed_message (decmd : Bool) (message : List Bool) :
    Crc16.feed decmd (Crc16.start decmd)
        (message ++ DupTx.checkBits decmd (Crc16.feed decmd (Crc16.start decmd) message)) =
      residue decmd := by
  rw [Crc16.feed_append, feed_checkBits]

/-- The two sides agree.  Over the message the register of the transmitter holds the
remainder; the message and the check characters that are made of it leave the receiver the
register it compares with; and after an error in any of these bits the receiver has that
register only if the polynomial divides the error. -/
theorem crc_agrees {decmd : Bool} {message : List Bool} {first : Crc16.In}
    {clocks : List Crc16.In} (hsent : Crc16.Brings decmd message first clocks)
    (old old' : BitVec 16) :
    let sent := (first :: clocks).foldl Crc16.next old
    let line := message ++ DupTx.checkBits decmd sent
    Remainder.ofWord sent =
        Polynomial.modByMonic
          (Remainder.ofWord (Crc16.start decmd) * Polynomial.X ^ message.length +
            Remainder.ofBits message * Polynomial.X ^ 16)
          (Remainder.generator (Crc16.poly decmd)) ∧
      (∀ first' clocks', Crc16.Brings decmd line first' clocks' →
        (first' :: clocks').foldl Crc16.next old' = residue decmd) ∧
      ∀ error first' clocks', error.length = line.length →
        Crc16.Brings decmd (List.zipWith xor line error) first' clocks' →
        ((first' :: clocks').foldl Crc16.next old' = residue decmd ↔
          Remainder.generator (Crc16.poly decmd) ∣ Remainder.ofBits error) := by
  intro sent line
  have hsum : sent = Crc16.feed decmd (Crc16.start decmd) message := hsent.foldl old
  have hline : Crc16.feed decmd (Crc16.start decmd) line = residue decmd := by
    show Crc16.feed decmd _ (message ++ DupTx.checkBits decmd sent) = _
    rw [hsum]
    exact feed_message decmd message
  refine ⟨?_, fun first' clocks' h => ?_, fun error first' clocks' hlen h => ?_⟩
  · rw [hsum]
    exact Crc16.remainder decmd message
  · rw [h.foldl, hline]
  · rw [h.foldl, ← hline]
    exact Crc16.feed_error_iff _ line hlen

/-- One bit in every second clock, in SDLC mode. -/
def everySecond (bits : List Bool) : List Crc16.In :=
  bits.flatMap fun b =>
    [{ rst := false, clken := false, init := false, decmode := false, din := !b },
     { rst := false, clken := true, init := false, decmode := false, din := b }]

def firstClock : Crc16.In :=
  { rst := false, clken := false, init := true, decmode := false, din := false }

/-- The message of one character, and the check characters the receiver takes. -/
theorem crc_agrees_char :
    let message := UsrtTx.lowBits 0x41 8
    let sent := (firstClock :: everySecond message).foldl Crc16.next 0
    (firstClock :: everySecond (message ++ DupTx.checkBits false sent)).foldl Crc16.next 0 =
      residue false := by
  intro message sent
  have hsent : Crc16.Brings false message firstClock (everySecond message) :=
    ⟨by decide, by decide, by decide⟩
  have hline : Crc16.Brings false (message ++ DupTx.checkBits false sent) firstClock
      (everySecond (message ++ DupTx.checkBits false sent)) :=
    ⟨by decide, by decide, by decide⟩
  exact (crc_agrees hsent 0 0).2.1 _ _ hline

end DupRx

end KS10
