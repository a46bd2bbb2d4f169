import Mathlib.Algebra.Group.Nat.Defs
import Mathlib.Data.List.Basic
import Mathlib.Data.Nat.Init
import Mathlib.Logic.Function.Iterate

/-!
# Loading a .SAV file

A .SAV file holds 36-bit words in five bytes each: records, each with a header `-n,,a-1` and `n`
words for the addresses from `a` on, and then a word that is no header, which gives the start
of the program.  `loadCode` reads five bytes at a time and does not look at how many of them
came from the file.  Past the end of the file it takes what the buffer holds for words of the
file.  So it loads a file as it should if and only if the file has that last word
(`Loader.loadCode_iff`).
-/

namespace KS10

/-! ## What a file says -/

namespace SavFile

/-- Seven bits of a word in each of the five bytes, and the last bit on the left of the fifth. -/
def word (b : Nat → BitVec 8) : BitVec 36 :=
  (b 0).extractLsb' 0 7 ++ (b 1).extractLsb' 0 7 ++ (b 2).extractLsb' 0 7 ++
    (b 3).extractLsb' 0 7 ++ (b 4).extractLsb' 0 7 ++ (b 4).extractLsb' 7 1

def lh (w : BitVec 36) : BitVec 18 := w.extractLsb' 18 18

def rh (w : BitVec 36) : BitVec 18 := w.extractLsb' 0 18

/-- The words of a file.  Bytes behind the last five are in none of them. -/
def words (content : List (BitVec 8)) : List (BitVec 36) :=
  (List.range (content.length / 5)).map fun k => word fun j => content.getD (5 * k + j) 0

/-- The words of a record and their addresses, from `addr` on. -/
def place (addr : BitVec 18) : List (BitVec 36) → List (BitVec 18 × BitVec 36)
  | [] => []
  | w :: ws => (addr, w) :: place (addr + 1) ws

structure Contents where
  writes : List (BitVec 18 × BitVec 36)
  start : Option (BitVec 36)

/-- The complete records, and the word behind them that is no header. -/
def contents : List (BitVec 36) → Contents
  | [] => ⟨[], none⟩
  | w :: ws =>
      if (lh w).msb then
        let n := (-lh w).toNat
        if n ≤ ws.length then
          let rest := contents (ws.drop n)
          { rest with writes := place (rh w + 1) (ws.take n) ++ rest.writes }
        else ⟨[], none⟩
      else ⟨[], some w⟩
termination_by ws => ws.length
decreasing_by
  rw [List.length_drop, List.length_cons]
  exact Nat.lt_succ_of_le (Nat.sub_le _ _)

theorem contents_nil : contents [] = ⟨[], none⟩ := by
  rw [contents]

/-- A word that is no header ends the file. -/
theorem contents_start {w : BitVec 36} (ws : List (BitVec 36)) (h : (lh w).msb = false) :
    contents (w :: ws) = ⟨[], some w⟩ := by
  rw [contents, h]
  rfl

theorem contents_record {w : BitVec 36} {ws : List (BitVec 36)} (h : (lh w).msb = true)
    (hn : (-lh w).toNat ≤ ws.length) : contents (w :: ws) =
      { writes := place (rh w + 1) (ws.take (-lh w).toNat) ++
          (contents (ws.drop (-lh w).toNat)).writes
        start := (contents (ws.drop (-lh w).toNat)).start } := by
  rw [contents, if_pos h]
  dsimp only
  rw [if_pos hn]

theorem contents_truncated {w : BitVec 36} {ws : List (BitVec 36)} (h : (lh w).msb = true)
    (hn : ¬ (-lh w).toNat ≤ ws.length) : contents (w :: ws) = ⟨[], none⟩ := by
  rw [contents, if_pos h]
  dsimp only
  rw [if_neg hn]

theorem length_words (content : List (BitVec 8)) : (words content).length = content.length / 5 := by
  unfold words
  rw [List.length_map, List.length_range]

theorem getElem_words {content : List (BitVec 8)} {c : Nat} (hc : c < (words content).length) :
    (words content)[c] = word fun j => content.getD (5 * c + j) 0 := by
  simp only [words, List.getElem_map, List.getElem_range]

end SavFile

/-! ## The words that are read -/

/-- A file that is open. -/
structure Fil where
  content : List (BitVec 8)
  fptr : Nat

namespace Loader

/-- `f_read` puts at most `btr` bytes into the buffer and leaves the rest of it. -/
def fRead (fp : Fil) (buff : Nat → BitVec 8) (btr : Nat) : Fil × (Nat → BitVec 8) × Nat :=
  let br := min btr (fp.content.length - fp.fptr)
  ({ fp with fptr := fp.fptr + br },
    fun j => if j < br then fp.content.getD (fp.fptr + j) 0 else buff j, br)

def rdword (b : Nat → BitVec 8) : BitVec 64 :=
  (b 0 &&& 0x7f).setWidth 64 <<< 29 |||
    (b 1 &&& 0x7f).setWidth 64 <<< 22 |||
    (b 2 &&& 0x7f).setWidth 64 <<< 15 |||
    (b 3 &&& 0x7f).setWidth 64 <<< 8 |||
    (b 4 &&& 0x7f).setWidth 64 <<< 1 |||
    (b 4 &&& 0x80).setWidth 64 >>> 7

/-- The number of bytes is not looked at. -/
def getdata (fp : Fil) (buffer : Nat → BitVec 8) : Fil × BitVec 64 :=
  let (fp, buffer, _) := fRead fp buffer 5
  (fp, rdword buffer)

def lh (data : BitVec 64) : BitVec 32 := (data >>> 18 &&& 0o777777).setWidth 32

def rh (data : BitVec 64) : BitVec 32 := (data &&& 0o777777).setWidth 32

/-! ## loadCode -/

/-- What `loadCode` does to the KS10. -/
inductive Effect where
  | writeMem (addr data : BitVec 64)
  | writeRegCIR (data : BitVec 64)
  deriving DecidableEq

/-- The next thing to do: read a header, read a word of a record, or nothing any more. -/
inductive Stage where
  | header
  | record (words addr : BitVec 32)
  | done (success : Bool)
  deriving DecidableEq

end Loader

structure Loader where
  fp : Fil
  /-- How often `getdata` was called. -/
  calls : Nat
  stage : Loader.Stage
  effects : List Loader.Effect

namespace Loader

open SavFile (words contents place word)

def opJRST : BitVec 32 := 0o254000

/-- The loops, one call of `getdata` at a time.  `stack n` is what the buffer of call number `n`
holds before the read. -/
def step (stack : Nat → Nat → BitVec 8) (s : Loader) : Loader :=
  let (fp, data36) := getdata s.fp (stack s.calls)
  match s.stage with
  | .done _ => s
  | .header =>
      if lh data36 &&& 0o400000 = 0 then
        { fp := fp
          calls := s.calls + 1
          stage := .done true
          effects :=
            s.effects ++ if lh data36 = opJRST then [.writeRegCIR data36] else [] }
      else { s with fp := fp, calls := s.calls + 1, stage := .record (lh data36) (rh data36) }
  | .record words addr =>
      let addr := (addr + 1) &&& 0o777777
      let words := (words + 1) &&& 0o777777
      { fp := fp
        calls := s.calls + 1
        stage := if words &&& 0o400000 ≠ 0 then .record words addr else .header
        effects := s.effects ++ [.writeMem (addr.setWidth 64) data36] }

/-- `loadCode`, with the content of the file if it can be opened. -/
def start (file : Option (List (BitVec 8))) : Loader :=
  match file with
  | none => ⟨⟨[], 0⟩, 0, .done false, []⟩
  | some content => ⟨⟨content, 0⟩, 0, .header, []⟩

def loadCode (stack : Nat → Nat → BitVec 8) (file : Option (List (BitVec 8))) (n : Nat) : Loader :=
  (step stack)^[n] (start file)

/-! ## Words of 36 bits in 64 -/

theorem setWidth_append {m n : Nat} (x : BitVec m) (y : BitVec n) :
    (x ++ y).setWidth 64 = x.setWidth 64 <<< n ||| y.setWidth 64 := by
  apply BitVec.eq_of_getLsbD_eq
  intro i hi
  rw [BitVec.getLsbD_setWidth, BitVec.getLsbD_append, BitVec.getLsbD_or, BitVec.getLsbD_shiftLeft,
    BitVec.getLsbD_setWidth, BitVec.getLsbD_setWidth]
  by_cases hn : i < n
  · simp [hi, hn]
  · have hy : y.getLsbD i = false := BitVec.getLsbD_of_ge _ _ (Nat.le_of_not_lt hn)
    have hlt : i - n < 64 := Nat.lt_of_le_of_lt (Nat.sub_le i n) hi
    simp [hi, hn, hy, hlt]

theorem and_low (b : BitVec 8) : (b &&& 0x7f).setWidth 64 = (b.extractLsb' 0 7).setWidth 64 := by
  have hmask : (b &&& 0x7f).toNat = b.toNat % 128 := by
    rw [BitVec.toNat_and]
    exact Nat.and_two_pow_sub_one_eq_mod _ 7
  apply BitVec.eq_of_toNat_eq
  rw [BitVec.toNat_setWidth, BitVec.toNat_setWidth, hmask, BitVec.extractLsb'_toNat]
  rfl

theorem and_high (b : BitVec 8) :
    (b &&& 0x80).setWidth 64 >>> 7 = (b.extractLsb' 7 1).setWidth 64 := by
  revert b
  decide +kernel

theorem rdword_eq (b : Nat → BitVec 8) : rdword b = (word b).setWidth 64 := by
  unfold rdword word
  rw [and_high, and_low, and_low, and_low, and_low, and_low, setWidth_append, setWidth_append,
    setWidth_append, setWidth_append, setWidth_append]
  simp only [BitVec.shiftLeft_or_distrib, ← BitVec.shiftLeft_add]

/-- The mask of the halves. -/
theorem and_mask {w : Nat} (x : BitVec w) (hw : 18 ≤ w) :
    (x &&& BitVec.ofNat w 0o777777).toNat = x.toNat % 2 ^ 18 := by
  have hpow : 2 ^ 18 ≤ 2 ^ w := Nat.pow_le_pow_right (by decide) hw
  rw [BitVec.toNat_and, BitVec.toNat_ofNat, Nat.mod_eq_of_lt (by omega)]
  exact Nat.and_two_pow_sub_one_eq_mod _ 18

theorem lh_setWidth (w : BitVec 36) : lh (w.setWidth 64) = (SavFile.lh w).setWidth 32 := by
  have hw := w.isLt
  have hsmall : w.toNat % 2 ^ 64 = w.toNat := Nat.mod_eq_of_lt (by omega)
  unfold lh SavFile.lh
  apply BitVec.eq_of_toNat_eq
  rw [BitVec.toNat_setWidth, BitVec.toNat_setWidth, BitVec.extractLsb'_toNat]
  refine congrArg (· % 2 ^ 32) ((and_mask _ (by decide)).trans ?_)
  rw [BitVec.toNat_ushiftRight, BitVec.toNat_setWidth, hsmall]

theorem rh_setWidth (w : BitVec 36) : rh (w.setWidth 64) = (SavFile.rh w).setWidth 32 := by
  have hw := w.isLt
  have hsmall : w.toNat % 2 ^ 64 = w.toNat := Nat.mod_eq_of_lt (by omega)
  unfold rh SavFile.rh
  apply BitVec.eq_of_toNat_eq
  rw [BitVec.toNat_setWidth, BitVec.toNat_setWidth, BitVec.extractLsb'_toNat]
  refine congrArg (· % 2 ^ 32) ((and_mask _ (by decide)).trans ?_)
  rw [BitVec.toNat_setWidth, hsmall]
  rfl

theorem succ_and_mask (x : BitVec 18) :
    (x.setWidth 32 + 1) &&& 0o777777 = (x + 1).setWidth 32 := by
  have hx := x.isLt
  apply BitVec.eq_of_toNat_eq
  refine (and_mask _ (by decide)).trans ?_
  simp [BitVec.toNat_add]
  omega

/-- The sign of a left half. -/
theorem and_sign (x : BitVec 18) : x.setWidth 32 &&& 0o400000 = 0 ↔ x.msb = false := by
  have hsign : (0o400000 : BitVec 32) = BitVec.twoPow 32 17 := rfl
  have hbit : (x.setWidth 32).getLsbD 17 = x.msb := by
    rw [BitVec.getLsbD_setWidth, BitVec.msb_eq_getLsbD_last]
    rfl
  rw [hsign, BitVec.and_twoPow, hbit]
  cases x.msb with
  | false => simp
  | true => exact ⟨fun h => absurd h (by decide), nofun⟩

/-! ## One call -/

variable {stack : Nat → Nat → BitVec 8} {content : List (BitVec 8)} {c : Nat}
  {effects : List Effect}

/-- Within the words of the file a call reads the next one. -/
theorem getdata_words (hc : c < (words content).length) (buffer : Nat → BitVec 8) :
    getdata ⟨content, 5 * c⟩ buffer = (⟨content, 5 * (c + 1)⟩, (words content)[c].setWidth 64) := by
  have hlen := SavFile.length_words content
  have hmin : min 5 (content.length - 5 * c) = 5 := by omega
  have hread : rdword (fun j => if j < 5 then content.getD (5 * c + j) 0 else buffer j) =
      rdword fun j => content.getD (5 * c + j) 0 := rfl
  unfold getdata fRead
  dsimp only
  rw [hmin, hread, rdword_eq, SavFile.getElem_words hc]
  rfl

/-- A word of a record as it is written. -/
def memEffect (p : BitVec 18 × BitVec 36) : Effect :=
  .writeMem (p.1.setWidth 64) (p.2.setWidth 64)

/-- The word behind the records goes into the console instruction register if it is a `JRST`. -/
def startEffects : Option (BitVec 36) → List Effect
  | some w => if SavFile.lh w = 0o254000 then [.writeRegCIR (w.setWidth 64)] else []
  | none => []

theorem step_start (hc : c < (words content).length)
    (hsign : (SavFile.lh (words content)[c]).msb = false) :
    step stack ⟨⟨content, 5 * c⟩, c, .header, effects⟩ =
      ⟨⟨content, 5 * (c + 1)⟩, c + 1, .done true,
        effects ++ startEffects (some (words content)[c])⟩ := by
  have hjrst : (SavFile.lh (words content)[c]).setWidth 32 = opJRST ↔
      SavFile.lh (words content)[c] = 0o254000 := by
    rw [BitVec.toNat_eq, BitVec.toNat_eq, BitVec.toNat_setWidth,
      Nat.mod_eq_of_lt (Nat.lt_of_lt_of_le (BitVec.isLt _) (by decide))]
    rfl
  unfold step startEffects
  rw [getdata_words hc]
  dsimp only
  rw [lh_setWidth, if_pos ((and_sign _).mpr hsign)]
  simp only [hjrst]

theorem step_record (hc : c < (words content).length)
    (hsign : (SavFile.lh (words content)[c]).msb = true) :
    step stack ⟨⟨content, 5 * c⟩, c, .header, effects⟩ =
      ⟨⟨content, 5 * (c + 1)⟩, c + 1,
        .record ((SavFile.lh (words content)[c]).setWidth 32)
          ((SavFile.rh (words content)[c]).setWidth 32), effects⟩ := by
  have hne : ¬ (SavFile.lh (words content)[c]).setWidth 32 &&& 0o400000 = 0 := by
    rw [and_sign, hsign]
    exact nofun
  unfold step
  rw [getdata_words hc]
  dsimp only
  rw [lh_setWidth, rh_setWidth, if_neg hne]

theorem step_word (hc : c < (words content).length) (x a : BitVec 18) :
    step stack ⟨⟨content, 5 * c⟩, c, .record (x.setWidth 32) (a.setWidth 32), effects⟩ =
      ⟨⟨content, 5 * (c + 1)⟩, c + 1,
        if (x + 1).msb then .record ((x + 1).setWidth 32) ((a + 1).setWidth 32) else .header,
        effects ++ [memEffect (a + 1, (words content)[c])]⟩ := by
  have haddr : ((a + 1).setWidth 32).setWidth 64 = (a + 1).setWidth 64 := by
    have hlt := (a + 1).isLt
    apply BitVec.eq_of_toNat_eq
    rw [BitVec.toNat_setWidth, BitVec.toNat_setWidth, BitVec.toNat_setWidth,
      Nat.mod_eq_of_lt (a := (a + 1).toNat) (b := 2 ^ 32) (by omega)]
  unfold step memEffect
  rw [getdata_words hc]
  dsimp only
  rw [succ_and_mask, succ_and_mask, haddr]
  congr 1
  cases hmsb : (x + 1).msb with
  | false => rw [if_neg (not_not_intro ((and_sign _).mpr hmsb)), if_neg Bool.false_ne_true]
  | true =>
      have hne : (x + 1).setWidth 32 &&& 0o400000 ≠ 0 := by
        rw [Ne, and_sign, hmsb]
        exact nofun
      rw [if_pos hne, if_pos rfl]

/-! ## Whole records -/

/-- The words of a record, of which `n` are left. -/
theorem run_words {n : Nat} {x a : BitVec 18} (hx : x.toNat + n = 2 ^ 18) (hpos : 0 < n)
    (hsmall : n ≤ 2 ^ 17) (hn : c + n ≤ (words content).length) :
    (step stack)^[n]
        ⟨⟨content, 5 * c⟩, c, .record (x.setWidth 32) (a.setWidth 32), effects⟩ =
      ⟨⟨content, 5 * (c + n)⟩, c + n, .header,
        effects ++ (place (a + 1) (((words content).drop c).take n)).map memEffect⟩ := by
  induction n generalizing c x a effects with
  | zero => exact absurd hpos (Nat.lt_irrefl 0)
  | succ n ih =>
      have hc : c < (words content).length := by omega
      have hsucc : (x + 1).toNat = (x.toNat + 1) % 2 ^ 18 := BitVec.toNat_add x 1
      rw [Function.iterate_succ_apply, step_word hc, List.drop_eq_getElem_cons hc,
        List.take_succ_cons]
      show _ = (⟨_, _, _,
        effects ++ (memEffect (a + 1, _) :: (place (a + 1 + 1) _).map memEffect)⟩ : Loader)
      rcases Nat.eq_zero_or_pos n with rfl | hmore
      · have hzero : (x + 1).msb = false := by
          rw [BitVec.msb_eq_decide]
          exact decide_eq_false (by omega)
        rw [hzero, if_neg Bool.false_ne_true]
        rfl
      · have hmsb : (x + 1).msb = true := by
          rw [BitVec.msb_eq_decide]
          exact decide_eq_true (by omega)
        rw [hmsb, if_pos rfl, ih (by omega) hmore (by omega) (by omega), Nat.add_right_comm,
          List.append_assoc]
        rfl

/-- The number of words of a record. -/
theorem toNat_neg {x : BitVec 18} (h : x.msb = true) :
    x.toNat + (-x).toNat = 2 ^ 18 ∧ 0 < (-x).toNat ∧ (-x).toNat ≤ 2 ^ 17 := by
  have hlt := x.isLt
  rw [BitVec.msb_eq_decide, decide_eq_true_eq] at h
  rw [BitVec.toNat_neg]
  omega

/-- From a header on the records are loaded, if the file has a word behind them. -/
theorem run_contents {w : BitVec 36}
    (hstart : (contents ((words content).drop c)).start = some w) :
    ∃ n c', (step stack)^[n] ⟨⟨content, 5 * c⟩, c, .header, effects⟩ =
      ⟨⟨content, 5 * c'⟩, c', .done true,
        effects ++ (contents ((words content).drop c)).writes.map memEffect ++
          startEffects (some w)⟩ := by
  induction hleft : (words content).length - c using Nat.strong_induction_on generalizing c effects
    with
  | _ left ih =>
      rcases Nat.lt_or_ge c (words content).length with hc | hge
      · have hdrop := List.drop_eq_getElem_cons hc
        have hlen : ((words content).drop (c + 1)).length = (words content).length - (c + 1) :=
          List.length_drop
        rw [hdrop] at hstart ⊢
        cases hsign : (SavFile.lh (words content)[c]).msb with
        | false =>
            rw [SavFile.contents_start _ hsign] at hstart ⊢
            refine ⟨1, c + 1, ?_⟩
            rw [Function.iterate_one, step_start hc hsign, ← hstart]
            simp
        | true =>
            obtain ⟨hsum, hpos, hsmall⟩ := toNat_neg hsign
            by_cases hn : (-SavFile.lh (words content)[c]).toNat ≤
                ((words content).drop (c + 1)).length
            · rw [SavFile.contents_record hsign hn, List.drop_drop] at hstart ⊢
              obtain ⟨m, c', hrun⟩ := ih _ (by omega) hstart rfl
              refine ⟨m + ((-SavFile.lh (words content)[c]).toNat + 1), c', ?_⟩
              rw [Function.iterate_add_apply, Function.iterate_succ_apply, step_record hc hsign,
                run_words hsum hpos hsmall (by omega), hrun]
              simp only [List.map_append, List.append_assoc]
            · rw [SavFile.contents_truncated hsign hn] at hstart
              cases hstart
      · rw [List.drop_eq_nil_of_le hge, SavFile.contents_nil] at hstart
        cases hstart

/-! ## The files that are loaded -/

/-- `loadCode` ends.  It writes the words of the complete records and nothing else, but for the
instruction that starts the program, and it succeeds only if the file has a start word. -/
def Loads (isStart : BitVec 36 → Prop) (stack : Nat → Nat → BitVec 8)
    (content : List (BitVec 8)) : Prop :=
  ∃ n success, (loadCode stack (some content) n).stage = .done success ∧
    (loadCode stack (some content) n).effects =
      (contents (words content)).writes.map memEffect ++
        startEffects (contents (words content)).start ∧
    (success = true → ∃ w, (contents (words content)).start = some w ∧ isStart w)

theorem stage_step {s : Loader} (h : s.stage ≠ .done false) :
    (step stack s).stage ≠ .done false := by
  obtain ⟨fp, calls, stage, effects⟩ := s
  unfold step
  cases stage with
  | done success => exact h
  | header =>
      dsimp only
      split <;> exact nofun
  | record words addr =>
      dsimp only
      split <;> exact nofun

/-- A file that was opened is always loaded with success, if the loading ends. -/
theorem stage_ne (stack : Nat → Nat → BitVec 8) (content : List (BitVec 8)) (n : Nat) :
    (loadCode stack (some content) n).stage ≠ .done false := by
  unfold loadCode
  induction n with
  | zero => exact nofun
  | succ n ih =>
      rw [Function.iterate_succ_apply']
      exact stage_step ih

/-- A file is loaded as it should if and only if there is a start word behind its complete
records, whatever the buffers hold before they are read into. -/
theorem loadCode_iff (isStart : BitVec 36 → Prop) (stack : Nat → Nat → BitVec 8)
    (content : List (BitVec 8)) : Loads isStart stack content ↔
      ∃ w, (contents (words content)).start = some w ∧ isStart w := by
  constructor
  · rintro ⟨n, success, hdone, -, hsuccess⟩
    cases success with
    | false => exact absurd hdone (stage_ne stack content n)
    | true => exact hsuccess rfl
  · rintro ⟨w, hstart, hw⟩
    obtain ⟨n, c', hrun⟩ := @run_contents stack content 0 [] w hstart
    have hload : loadCode stack (some content) n = _ := hrun
    refine ⟨n, true, ?_, ?_, fun _ => ⟨w, hstart, hw⟩⟩
    · rw [hload]
    · rw [hload, hstart]
      rfl

/-! ## A file that ends too early -/

/-- The header of a record of one word, for address 1, and nothing behind it. -/
def headerOnly : List (BitVec 8) := [0x7f, 0x7f, 0x78, 0, 0]

/-- Buffers that hold the header when the file is at its end. -/
def staleHeader (_ j : Nat) : BitVec 8 := headerOnly.getD j 0

/-- With these buffers every word is the header. -/
theorem getdata_staleHeader {fp : Fil} (h : fp = ⟨headerOnly, 0⟩ ∨ fp = ⟨headerOnly, 5⟩) (k : Nat) :
    getdata fp (staleHeader k) = (⟨headerOnly, 5⟩, 0o777777000000) := by
  have hword : rdword (staleHeader k) = 0o777777000000 := by
    show rdword (staleHeader 0) = _
    decide
  rw [← hword]
  rcases h with rfl | rfl <;> rfl

/-- The loops read the header again and again. -/
theorem stage_staleHeader (n : Nat) :
    ((loadCode staleHeader (some headerOnly) n).fp = ⟨headerOnly, 0⟩ ∨
      (loadCode staleHeader (some headerOnly) n).fp = ⟨headerOnly, 5⟩) ∧
    ((loadCode staleHeader (some headerOnly) n).stage = .header ∨
      (loadCode staleHeader (some headerOnly) n).stage = .record 0o777777 0) := by
  unfold loadCode
  induction n with
  | zero => exact ⟨.inl rfl, .inl rfl⟩
  | succ n ih =>
      obtain ⟨hfp, hstage⟩ := ih
      rw [Function.iterate_succ_apply']
      generalize (step staleHeader)^[n] (start (some headerOnly)) = s at hfp hstage
      obtain ⟨fp, calls, stage, effects⟩ := s
      unfold step
      dsimp only at hfp hstage ⊢
      rw [getdata_staleHeader hfp]
      rcases hstage with rfl | rfl
      · exact ⟨.inr rfl, .inr rfl⟩
      · exact ⟨.inr rfl, .inl rfl⟩

/-- With zeros in the buffers, `loadCode` writes a word that is not in the file and succeeds.
With the header in the buffers it never ends. -/
theorem loadCode_fails :
    ¬ Loads (fun _ => True) (fun _ _ => 0) headerOnly ∧
      (loadCode (fun _ _ => 0) (some headerOnly) 3).stage = .done true ∧
      (loadCode (fun _ _ => 0) (some headerOnly) 3).effects = [.writeMem 1 0] ∧
      ¬ ∃ n success, (loadCode staleHeader (some headerOnly) n).stage = .done success := by
  refine ⟨?_, rfl, rfl, ?_⟩
  · rintro ⟨n, success, hdone, -, hsuccess⟩
    cases success with
    | false => exact stage_ne _ _ n hdone
    | true =>
        obtain ⟨w, hw, -⟩ := hsuccess rfl
        have hwords : words headerOnly = [0o777777000000] := rfl
        rw [hwords, SavFile.contents_truncated (by decide) (by decide)] at hw
        cases hw
  · rintro ⟨n, success, hdone⟩
    rcases (stage_staleHeader n).2 with hheader | hrecord
    · rw [hheader] at hdone
      cases hdone
    · rw [hrecord] at hdone
      cases hdone

end Loader

end KS10
