import KS10.Clocked.Remainder

/-!
# The CRC register

CRC16 is a shift register with feedback that serves the transmitter and the receiver of the
DUP11, in two modes: SDLC with the CCITT polynomial and a register that starts with ones, and
DEC mode with the polynomial of DDCMP and a register that starts with zeros.

Fed with a message it holds the remainder of the message (`Crc16.remainder`).
-/

namespace KS10

open Clocked

namespace Crc16

/-- The inputs of CRC16 at one clock. -/
structure In where
  rst : Bool
  clken : Bool
  init : Bool
  decmode : Bool
  din : Bool

def sdlcPoly : BitVec 16 := 0x1021
def ddcmpPoly : BitVec 16 := 0x8005

def poly (decmode : Bool) : BitVec 16 := if decmode then ddcmpPoly else sdlcPoly

/-- The register after an initialization. -/
def start (decmode : Bool) : BitVec 16 := if decmode then 0x0000 else 0xffff

/-- Feedback. -/
def fb (crc : BitVec 16) (din : Bool) : Bool := din ^^ crc.getLsbD 15

/-- Every bit takes the bit below it, with the feedback where the polynomial has one. -/
def shift (decmode : Bool) (crc : BitVec 16) (din : Bool) : BitVec 16 :=
  (crc <<< 1) ^^^ (if fb crc din then poly decmode else 0)

/-- One clock of CRC16. -/
def next (crc : BitVec 16) (i : In) : BitVec 16 :=
  if i.rst then start i.decmode
  else if i.init then start i.decmode
  else if i.clken then shift i.decmode crc i.din
  else crc

variable {decmode : Bool} {crc : BitVec 16} {i : In}

theorem shift_eq_feed (decmode : Bool) (crc : BitVec 16) (din : Bool) :
    shift decmode crc din = Remainder.feed (poly decmode) crc din := rfl

/-- The bits as they stand in the source. -/
theorem getLsbD_shift (k : Nat) (hk : k + 1 < 16) (din : Bool) :
    (shift decmode crc din).getLsbD (k + 1) =
      (crc.getLsbD k ^^ ((poly decmode).getLsbD (k + 1) && fb crc din)) := by
  unfold shift
  rw [BitVec.getLsbD_xor, BitVec.getLsbD_shiftLeft]
  cases fb crc din <;> simp [hk]

theorem getLsbD_shift_zero (din : Bool) :
    (shift decmode crc din).getLsbD 0 = ((poly decmode).getLsbD 0 && fb crc din) := by
  unfold shift
  rw [BitVec.getLsbD_xor, BitVec.getLsbD_shiftLeft]
  cases fb crc din <;> simp

/-! ## Messages -/

/-- The register after the bits of a message. -/
def feed (decmode : Bool) (crc : BitVec 16) (bits : List Bool) : BitVec 16 :=
  bits.foldl (shift decmode) crc

/-- The clocks bring the register a message, after an initialization and in whatever number
of clocks: the bits are those at the enabled clocks. -/
structure Brings (decmode : Bool) (bits : List Bool) (first : In) (clocks : List In) : Prop where
  init : first.init = true ∧ first.decmode = decmode
  goesOn : ∀ i ∈ clocks, i.rst = false ∧ i.init = false ∧ i.decmode = decmode
  bits : (clocks.filter In.clken).map In.din = bits

theorem foldl_next (clocks : List In)
    (h : ∀ i ∈ clocks, i.rst = false ∧ i.init = false ∧ i.decmode = decmode) (crc : BitVec 16) :
    clocks.foldl next crc = feed decmode crc ((clocks.filter In.clken).map In.din) := by
  induction clocks generalizing crc with
  | nil => rfl
  | cons i clocks ih =>
      obtain ⟨hrst, hinit, hmode⟩ := h i List.mem_cons_self
      have hrest := ih (fun j hj => h j (List.mem_cons_of_mem i hj)) (next crc i)
      rw [List.foldl_cons, hrest]
      unfold next
      rw [hrst, hinit, hmode]
      cases hen : i.clken with
      | false => rw [List.filter_cons_of_neg (by rw [hen]; decide)]; rfl
      | true => rw [List.filter_cons_of_pos hen]; rfl

/-- What was in the register before the initialization is lost. -/
theorem Brings.foldl {bits : List Bool} {first : In} {clocks : List In}
    (h : Brings decmode bits first clocks) (crc : BitVec 16) :
    (first :: clocks).foldl next crc = feed decmode (start decmode) bits := by
  have hfirst : next crc first = start decmode := by
    unfold next
    rw [h.init.1, h.init.2]
    split <;> rfl
  rw [List.foldl_cons, hfirst, foldl_next clocks h.goesOn, h.bits]

/-- The register holds the remainder of the message, which starts with the word the mode
asks for. -/
theorem remainder (decmode : Bool) (bits : List Bool) :
    Remainder.ofWord (feed decmode (start decmode) bits) =
      Polynomial.modByMonic
        (Remainder.ofWord (start decmode) * Polynomial.X ^ bits.length +
          Remainder.ofBits bits * Polynomial.X ^ 16)
        (Remainder.generator (poly decmode)) :=
  Remainder.ofWord_foldl (by decide) (poly decmode) (start decmode) bits

theorem feed_append (crc : BitVec 16) (l l' : List Bool) :
    feed decmode crc (l ++ l') = feed decmode (feed decmode crc l) l' :=
  List.foldl_append

/-- Both polynomials have the lowest coefficient. -/
theorem poly_zero (decmode : Bool) : (poly decmode).getLsbD 0 = true := by
  cases decmode <;> decide

/-- An error that the polynomial does not divide changes the register. -/
theorem feed_error_iff (crc : BitVec 16) (l : List Bool) {e : List Bool}
    (he : e.length = l.length) :
    feed decmode crc (List.zipWith xor l e) = feed decmode crc l ↔
      Remainder.generator (poly decmode) ∣ Remainder.ofBits e :=
  Remainder.foldl_eq_iff (by decide) (poly_zero decmode) crc l he

end Crc16

end KS10
