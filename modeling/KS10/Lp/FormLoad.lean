import KS10.Lp.Feeds

/-!
# The load of a vertical format

The program loads a vertical format with characters: a start code, two bytes for each line of
the form, and a stop code.  A start code at any time begins again.  A stop code in the middle
of a line or before the first one makes the format not ready, and so does a line too many.

What has been taken of the characters says what the last load has come to (`Load`).  The
memory, the length, the ready bit and the line counter follow it in every run
(`LpForm.load_run`).
-/

namespace KS10

open Clocked

/-! ## Loads -/

/-- A character with the signal for paper instructions. -/
structure LpChar where
  lpPi : Bool
  lpData : BitVec 8
  deriving DecidableEq

/-- What the last load has come to. -/
inductive Load where
  | never
  /-- The lines so far, and the first byte of the next line. -/
  | filling (pairs : List (BitVec 12)) (half : Option (BitVec 6))
  /-- Nothing but the load has come since it began. -/
  | complete (pairs : List (BitVec 12))
  | later (pairs : List (BitVec 12))
  | failed
  deriving DecidableEq

namespace Load

open Lp26 (isStart charStop)

/-- The format has no more lines than this. -/
def most : Nat := 143

def low (d : BitVec 8) : BitVec 6 := d.extractLsb' 0 6

/-- A byte of a line. -/
def fill (pairs : List (BitVec 12)) (d : BitVec 8) : Option (BitVec 6) → Load
  | .none => filling pairs (some (low d))
  | some first => if pairs.length = most then failed else filling (pairs ++ [low d ++ first]) .none

/-- A stop code. -/
def stop (pairs : List (BitVec 12)) : Option (BitVec 6) → Load
  | .none => if pairs = [] then failed else complete pairs
  | some _ => failed

/-- A character is taken. -/
def take (l : Load) (c : LpChar) : Load :=
  if c.lpPi && isStart c.lpData then filling [] .none
  else
    match l with
    | filling pairs half =>
        if c.lpPi && c.lpData == charStop then stop pairs half else fill pairs c.lpData half
    | complete pairs => later pairs
    | l => l

/-- A character that is not a start or a stop code can be a byte of a line. -/
def isByte (c : LpChar) : Bool := !(c.lpPi && (isStart c.lpData || c.lpData == charStop))

/-- The characters of a load: a start code, the bytes of the lines and a stop code. -/
def chars (start : BitVec 8) (bytes : List (LpChar × LpChar)) : List LpChar :=
  ⟨true, start⟩ :: bytes.flatMap (fun b => [b.1, b.2]) ++ [⟨true, charStop⟩]

/-- The marks of a line. -/
def marks (b : LpChar × LpChar) : BitVec 12 := low b.2.lpData ++ low b.1.lpData

variable {l : Load} {start : BitVec 8} {bytes : List (LpChar × LpChar)}

theorem take_start (hstart : isStart start = true) :
    l.take ⟨true, start⟩ = filling [] .none := by
  unfold take
  rw [hstart]
  rfl

theorem take_byte {c : LpChar} {pairs : List (BitVec 12)} {half : Option (BitVec 6)}
    (h : isByte c = true) : (filling pairs half).take c = fill pairs c.lpData half := by
  unfold isByte at h
  unfold take
  rw [Bool.not_eq_true', Bool.and_or_distrib_left, Bool.or_eq_false_iff] at h
  rw [h.1]
  dsimp only
  rw [h.2, if_neg Bool.false_ne_true, if_neg Bool.false_ne_true]

/-- A character that is not a start code does not begin a load. -/
theorem take_of_not {c : LpChar} (h : (c.lpPi && isStart c.lpData) = false)
    (hl : ∀ pairs half, l ≠ filling pairs half) :
    l.take c = match l with
      | complete pairs => later pairs
      | l => l := by
  unfold take
  rw [h, if_neg Bool.false_ne_true]
  cases l with
  | filling pairs half => exact absurd rfl (hl pairs half)
  | _ => rfl

/-- The bytes of lines that have room. -/
theorem foldl_fill (pairs : List (BitVec 12))
    (hbytes : ∀ b ∈ bytes, isByte b.1 = true ∧ isByte b.2 = true)
    (hroom : pairs.length + bytes.length ≤ most) :
    (bytes.flatMap fun b => [b.1, b.2]).foldl take (filling pairs .none) =
      filling (pairs ++ bytes.map marks) .none := by
  induction bytes generalizing pairs with
  | nil =>
      rw [List.map_nil, List.append_nil]
      rfl
  | cons b bytes ih =>
      rw [List.length_cons] at hroom
      obtain ⟨hfirst, hsecond⟩ := hbytes b List.mem_cons_self
      have hline : ((filling pairs .none).take b.1).take b.2 =
          filling (pairs ++ [marks b]) .none := by
        rw [take_byte hfirst]
        show (filling pairs (some (low b.1.lpData))).take b.2 = _
        rw [take_byte hsecond]
        exact if_neg (by omega)
      rw [List.flatMap_cons, List.foldl_append, List.map_cons, List.append_cons]
      show List.foldl take (((filling pairs .none).take b.1).take b.2) _ = _
      rw [hline]
      refine ih _ (fun c hc => hbytes c (List.mem_cons_of_mem b hc)) ?_
      rw [List.length_append, List.length_singleton]
      omega

/-- After the characters of a load it is complete. -/
theorem foldl_chars (hstart : isStart start = true)
    (hbytes : ∀ b ∈ bytes, isByte b.1 = true ∧ isByte b.2 = true) (hpos : bytes ≠ [])
    (hmost : bytes.length ≤ most) :
    (chars start bytes).foldl take l = complete (bytes.map marks) := by
  unfold chars
  rw [List.cons_append, List.foldl_cons, take_start hstart, List.foldl_append,
    foldl_fill [] hbytes (by simpa using hmost), List.nil_append]
  show stop (bytes.map marks) .none = _
  unfold stop
  rw [if_neg fun h => hpos (List.map_eq_nil_iff.mp h)]

end Load

/-! ## The printer -/

/-- The printer with the characters it has taken since the last reset. -/
structure LpForm where
  lp26 : Lp26
  chars : List LpChar
  /-- The format was ready when the last load began. -/
  before : Bool
  /-- The optical format has been selected since then. -/
  optical : Bool

namespace LpForm

open Lp26 (In isStart charStop)

def takes (x : LpForm) (i : In) : Bool := x.lp26.fsm.accepts && i.lpStrobe

/-- One clock. -/
def next (x : LpForm) (i : In) : LpForm where
  lp26 := x.lp26.next i
  chars :=
    if i.rst then []
    else if x.takes i then x.chars ++ [⟨i.lpPi, i.lpData⟩]
    else x.chars
  before := if x.takes i && i.lpPi && isStart i.lpData then x.lp26.lpVfuRdy else x.before
  optical := if i.rst then false else x.optical || i.lpOvfu

/-- What the last load has come to. -/
def load (x : LpForm) : Load := x.chars.foldl Load.take .never

/-- The printer after a reset; the memories hold anything. -/
structure AfterReset (x : LpForm) : Prop where
  fsm : x.lp26.fsm = x.lp26.fsm.reset
  lpVfuRdy : x.lp26.lpVfuRdy = false
  chars : x.chars = []

/-- The memory begins with these lines. -/
def Filled (f : Lp26.Fsm) (pairs : List (BitVec 12)) : Prop :=
  ∀ k, k < pairs.length → pairs[k]? = some (f.lpVfuDat (BitVec.ofNat 8 k))

/-- The printer is past the clocks in which it makes the format ready or not ready. -/
def settled (x : LpForm) : Bool :=
  x.lp26.fsm.state != .vfuRdy && x.lp26.fsm.state != .vfuOffln && x.lp26.fsm.state != .vfuNotRdy

/-- A complete load is in the memory. -/
structure InForce (x : LpForm) (pairs : List (BitVec 12)) : Prop where
  filled : Filled x.lp26.fsm pairs
  length : x.lp26.fsm.lpDvfuLen.toNat + 1 = pairs.length

/-- Right after it is complete the printer is ready at line 0. -/
structure Ready (x : LpForm) (pairs : List (BitVec 12)) : Prop extends InForce x pairs where
  lpVfuRdy : x.lp26.lpVfuRdy = true
  lpLctr : x.lp26.fsm.lpLctr = 0

/-- After the characters of a load its lines are in the memory, the format has their number,
it is ready, and the line counter is at line 0; the lines and their number stay until the next
load begins.  The format is not ready if the last load that came to an end was not complete;
while a load goes on the ready bit is as it was before.  The optical format makes the printer
ready at any time. -/
structure Sound (x : LpForm) : Prop where
  complete : ∀ old start bytes, isStart start = true →
    (∀ b ∈ bytes, Load.isByte b.1 = true ∧ Load.isByte b.2 = true) → bytes ≠ [] →
    bytes.length ≤ Load.most → x.chars = old ++ Load.chars start bytes → x.settled = true →
      x.Ready (bytes.map Load.marks)
  later : ∀ pairs, x.load = .later pairs → x.InForce pairs
  failed : x.load = .never ∨ x.load = .failed → x.settled = true → x.optical = false →
    x.lp26.lpVfuRdy = false
  filling : ∀ pairs half, x.load = .filling pairs half → x.optical = false →
    x.lp26.lpVfuRdy = x.before

/-! ## What every clock keeps -/

/-- The registers while the lines of a load are coming. -/
structure Filling (x : LpForm) (pairs : List (BitVec 12)) : Prop where
  filled : Filled x.lp26.fsm pairs
  length : x.lp26.fsm.lpDvfuLen.toNat = pairs.length
  most : pairs.length ≤ Load.most

/-- The registers against the characters. -/
def Fits (x : LpForm) : Prop :=
  match x.load with
  | .never => x.lp26.fsm.loads = false ∧ (x.optical = false → x.lp26.lpVfuRdy = false)
  | .filling pairs .none =>
      x.lp26.fsm.state = .vfuEven ∧ x.Filling pairs ∧
        (x.optical = false → x.lp26.lpVfuRdy = x.before)
  | .filling pairs (some first) =>
      x.lp26.fsm.state = .vfuOdd ∧ x.lp26.fsm.lpTemp = first ∧ x.Filling pairs ∧
        (x.optical = false → x.lp26.lpVfuRdy = x.before)
  | .complete pairs =>
      x.lp26.fsm.state = .vfuRdy ∧ x.Filling pairs ∧ pairs ≠ [] ∨
        x.lp26.fsm.state ∈ [.wait, .done, .idle] ∧ x.Ready pairs
  | .later pairs => x.lp26.fsm.loads = false ∧ x.InForce pairs
  | .failed =>
      x.lp26.fsm.loads = false ∧ (x.optical = false →
        x.lp26.lpVfuRdy = false ∨ x.lp26.fsm.state ∈ [.vfuOffln, .vfuNotRdy])

variable {x : LpForm} {i : In}

/-- The state machine with the strobe of the serial line down. -/
def low (x : LpForm) : Lp26.Fsm := { x.lp26.fsm with lpTxStb := false }

theorem fsm_next (h : i.rst = false) : (x.next i).lp26.fsm = x.low.step i x.lp26.lpXon := by
  show x.lp26.fsm.next i x.lp26.lpXon = _
  unfold Lp26.Fsm.next low
  rw [h, if_neg Bool.false_ne_true]

theorem lpVfuRdy_next (h : i.rst = false) : (x.next i).lp26.lpVfuRdy =
    if i.lpOvfu then true
    else if x.lp26.fsm.state = .vfuNotRdy then false
    else if x.lp26.fsm.state = .vfuRdy then true
    else x.lp26.lpVfuRdy := by
  show x.lp26.nextVfuRdy i = _
  unfold Lp26.nextVfuRdy
  rw [h, if_neg Bool.false_ne_true]

theorem load_next (h : i.rst = false) : (x.next i).load =
    if x.takes i then x.load.take ⟨i.lpPi, i.lpData⟩ else x.load := by
  unfold load next
  dsimp only
  rw [h, if_neg Bool.false_ne_true]
  cases x.takes i with
  | false => rfl
  | true =>
      rw [if_pos rfl, if_pos rfl, List.foldl_append]
      rfl

/-! ## The steps of a load -/

variable {s : Lp26.Fsm} {lpXon : Bool} {pairs : List (BitVec 12)}

/-- A start code begins a load in every state that takes characters. -/
theorem step_start (haccepts : s.accepts = true) (hstrobe : i.lpStrobe = true)
    (hpi : i.lpPi = true) (hstart : isStart i.lpData = true) :
    s.step i lpXon = { s with lpDvfuLen := 0, state := .vfuEven } := by
  have hcode : (i.lpPi && isStart i.lpData) = true := by rw [hpi, hstart]; rfl
  unfold Lp26.Fsm.accepts at haccepts
  unfold Lp26.Fsm.step
  cases hs : s.state with
  | idle =>
      dsimp only
      rw [if_pos hstrobe, if_pos hpi]
      exact if_pos hstart
  | vfuEven =>
      dsimp only
      rw [if_pos hstrobe]
      exact if_pos hcode
  | vfuOdd =>
      dsimp only
      rw [if_pos hstrobe]
      exact if_pos hcode
  | _ => simp [hs] at haccepts

/-- Outside of a load the memory and the length stay, until a start code comes. -/
theorem step_outside (lpXon : Bool) (hloads : s.loads = false)
    (hstart : ¬ (s.state = .idle ∧ i.lpStrobe = true ∧ i.lpPi = true ∧ isStart i.lpData = true)) :
    (s.step i lpXon).loads = false ∧ (s.step i lpXon).lpVfuDat = s.lpVfuDat ∧
      (s.step i lpXon).lpDvfuLen = s.lpDvfuLen := by
  refine ⟨?_, ?_, ?_⟩
  · refine Bool.eq_false_iff.mpr fun h => ?_
    rcases Lp26.Fsm.loads_step h with hold | hnew
    · rw [hloads] at hold
      cases hold
    · exact hstart hnew
  · clear hstart
    unfold Lp26.Fsm.loads at hloads
    unfold Lp26.Fsm.step
    cases hs : s.state with
    | idle =>
        unfold Lp26.Fsm.paper Lp26.Fsm.motion Lp26.Fsm.character
        dsimp only
        repeat' split
        all_goals rfl
    | vfuOdd =>
        rw [hs] at hloads
        cases hloads
    | _ =>
        unfold Lp26.Fsm.sendLine Lp26.Fsm.search Lp26.Fsm.slew Lp26.Fsm.move Lp26.Fsm.even
        dsimp only
        repeat' split
        all_goals rfl
  · exact (Lp26.Fsm.dvfuLen_step lpXon hloads).resolve_right hstart

/-- From its last states the printer comes to rest, and it rests until a character comes. -/
theorem step_rest (lpXon : Bool) (h : s.state ∈ [Lp26.State.wait, .done, .idle])
    (hnot : ¬ (s.state = .idle ∧ i.lpStrobe = true)) :
    (s.step i lpXon).state ∈ [Lp26.State.wait, .done, .idle] ∧
      (s.step i lpXon).lpLctr = s.lpLctr := by
  unfold Lp26.Fsm.step
  simp only [List.mem_cons, List.not_mem_nil, or_false] at h ⊢
  rcases h with hs | hs | hs
  · rw [hs]
    dsimp only
    split
    · exact ⟨.inr (.inl rfl), rfl⟩
    · exact ⟨.inl hs, rfl⟩
  · rw [hs]
    exact ⟨.inr (.inr rfl), rfl⟩
  · rw [hs]
    dsimp only
    rw [if_neg fun hstrobe => hnot ⟨hs, hstrobe⟩]
    exact ⟨.inr (.inr hs), rfl⟩

/-! ## Every clock -/

theorem Filled.congr {f f' : Lp26.Fsm} (h : Filled f pairs) (hdat : f'.lpVfuDat = f.lpVfuDat) :
    Filled f' pairs := by
  unfold Filled
  rw [hdat]
  exact h

theorem InForce.congr {y : LpForm} (h : x.InForce pairs)
    (hdat : y.lp26.fsm.lpVfuDat = x.lp26.fsm.lpVfuDat)
    (hlen : y.lp26.fsm.lpDvfuLen = x.lp26.fsm.lpDvfuLen) : y.InForce pairs :=
  ⟨h.filled.congr hdat, by rw [hlen]; exact h.length⟩

theorem Filling.congr {y : LpForm} (h : x.Filling pairs)
    (hdat : y.lp26.fsm.lpVfuDat = x.lp26.fsm.lpVfuDat)
    (hlen : y.lp26.fsm.lpDvfuLen = x.lp26.fsm.lpDvfuLen) : y.Filling pairs :=
  ⟨h.filled.congr hdat, by rw [hlen]; exact h.length, h.most⟩

/-- One more line. -/
theorem Filled.append {f f' : Lp26.Fsm} {line : BitVec 12} (h : Filled f pairs)
    (hlen : f.lpDvfuLen.toNat = pairs.length) (hroom : pairs.length < 256)
    (hdat : f'.lpVfuDat = fun k => if k = f.lpDvfuLen then line else f.lpVfuDat k) :
    Filled f' (pairs ++ [line]) := by
  intro k hk
  rw [List.length_append, List.length_singleton] at hk
  rw [hdat]
  dsimp only
  by_cases hlast : k = pairs.length
  · have hkey : BitVec.ofNat 8 k = f.lpDvfuLen := by
      refine BitVec.eq_of_toNat_eq ?_
      rw [BitVec.toNat_ofNat, hlen, hlast, Nat.mod_eq_of_lt hroom]
    rw [if_pos hkey, hlast, List.getElem?_concat_length]
  · have hkey : BitVec.ofNat 8 k ≠ f.lpDvfuLen := by
      intro heq
      have hnat := congrArg BitVec.toNat heq
      rw [BitVec.toNat_ofNat, hlen, Nat.mod_eq_of_lt (by omega)] at hnat
      exact hlast hnat
    rw [if_neg hkey, List.getElem?_append_left (by omega)]
    exact h k (by omega)

/-- One more line, and the length of the form with it. -/
theorem Filling.line {y : LpForm} {line : BitVec 12} (h : x.Filling pairs)
    (hroom : pairs.length ≠ Load.most)
    (hdat : y.lp26.fsm.lpVfuDat =
      fun k => if k = x.lp26.fsm.lpDvfuLen then line else x.lp26.fsm.lpVfuDat k)
    (hlen : y.lp26.fsm.lpDvfuLen = x.lp26.fsm.lpDvfuLen + 1) : y.Filling (pairs ++ [line]) := by
  have hle := h.most
  have hold := h.length
  unfold Load.most at hle hroom
  have hsum : (x.lp26.fsm.lpDvfuLen + 1).toNat = (x.lp26.fsm.lpDvfuLen.toNat + 1) % 256 :=
    BitVec.toNat_add _ _
  refine ⟨h.filled.append hold (by omega) hdat, ?_, ?_⟩
  · rw [hlen, hsum, List.length_append, List.length_singleton]
    omega
  · rw [List.length_append, List.length_singleton]
    unfold Load.most
    omega

theorem optical_next (h : i.rst = false) (hopt : (x.next i).optical = false) :
    x.optical = false ∧ i.lpOvfu = false := by
  unfold next at hopt
  dsimp only at hopt
  rw [h, if_neg Bool.false_ne_true] at hopt
  exact Bool.or_eq_false_iff.mp hopt

/-- The ready bit stays where neither the states nor the optical format set it. -/
theorem ready_stays (h : i.rst = false) (hopt : (x.next i).optical = false)
    (hnot : x.lp26.fsm.state ≠ .vfuNotRdy) (hrdy : x.lp26.fsm.state ≠ .vfuRdy) :
    x.optical = false ∧ (x.next i).lp26.lpVfuRdy = x.lp26.lpVfuRdy := by
  obtain ⟨hold, hovfu⟩ := optical_next h hopt
  refine ⟨hold, ?_⟩
  rw [lpVfuRdy_next h, hovfu, if_neg Bool.false_ne_true, if_neg hnot, if_neg hrdy]

/-- The ready bit stays as it was before the load. -/
theorem ready_keeps (h : i.rst = false) (hnot : x.lp26.fsm.state ≠ .vfuNotRdy)
    (hrdy : x.lp26.fsm.state ≠ .vfuRdy)
    (hbefore : x.optical = false → x.lp26.lpVfuRdy = x.before) :
    (x.next i).optical = false → (x.next i).lp26.lpVfuRdy = x.before := by
  intro hopt
  obtain ⟨hold, heq⟩ := ready_stays h hopt hnot hrdy
  rw [heq, hbefore hold]

theorem before_next (hnew : (x.takes i && i.lpPi && isStart i.lpData) = false) :
    (x.next i).before = x.before := by
  show (if _ then _ else _) = _
  rw [hnew]
  rfl

theorem ready_outside (h : i.rst = false) (hloads : x.lp26.fsm.loads = false)
    (hopt : (x.next i).optical = false) :
    x.optical = false ∧ (x.next i).lp26.lpVfuRdy =
      if x.lp26.fsm.state = .vfuNotRdy then false else x.lp26.lpVfuRdy := by
  obtain ⟨hold, hovfu⟩ := optical_next h hopt
  refine ⟨hold, ?_⟩
  rw [lpVfuRdy_next h, hovfu, if_neg Bool.false_ne_true]
  have hrdy : x.lp26.fsm.state ≠ .vfuRdy := by
    intro hs
    unfold Lp26.Fsm.loads at hloads
    rw [hs] at hloads
    cases hloads
  rw [if_neg hrdy]

/-- A start code is taken. -/
theorem fits_start (h : i.rst = false) (htakes : x.takes i = true) (hpi : i.lpPi = true)
    (hstart : isStart i.lpData = true) : (x.next i).Fits := by
  obtain ⟨haccepts, hstrobe⟩ := Bool.and_eq_true_iff.mp htakes
  have hload : (x.next i).load = .filling [] .none := by
    rw [load_next h, if_pos htakes, hpi]
    exact Load.take_start hstart
  have hfsm : (x.next i).lp26.fsm = { x.low with lpDvfuLen := 0, state := .vfuEven } := by
    rw [fsm_next h]
    exact step_start haccepts hstrobe hpi hstart
  have hbefore : (x.next i).before = x.lp26.lpVfuRdy := by
    show (if _ then _ else _) = _
    rw [htakes, hpi, hstart]
    rfl
  unfold Fits
  rw [hload, hbefore]
  dsimp only
  rw [hfsm]
  refine ⟨rfl, ⟨fun k hk => absurd hk (Nat.not_lt_zero k), ?_, Nat.zero_le _⟩, fun hopt => ?_⟩
  · rw [hfsm]
    rfl
  · refine (ready_stays h hopt ?_ ?_).2 <;>
    · intro hs
      unfold Lp26.Fsm.accepts at haccepts
      rw [hs] at haccepts
      cases haccepts

/-- Outside of a load the memory and the length stay. -/
theorem loads_of_not (h : i.rst = false) (hloads : x.lp26.fsm.loads = false)
    (hnew : (x.takes i && i.lpPi && isStart i.lpData) = false) :
    (x.next i).lp26.fsm.loads = false ∧ (x.next i).lp26.fsm.lpVfuDat = x.lp26.fsm.lpVfuDat ∧
      (x.next i).lp26.fsm.lpDvfuLen = x.lp26.fsm.lpDvfuLen := by
  rw [fsm_next h]
  refine step_outside x.lp26.lpXon hloads ?_
  rintro ⟨hs, hstrobe, hpi, hstart⟩
  unfold takes Lp26.Fsm.accepts at hnew
  rw [show x.lp26.fsm.state = .idle from hs, hstrobe, hpi, hstart] at hnew
  cases hnew

/-- The first byte of a line, or a stop code after the last line. -/
theorem Fits.even (h : i.rst = false) (hfits : x.Fits) (hload : x.load = .filling pairs .none)
    (hnew : (x.takes i && i.lpPi && isStart i.lpData) = false) : (x.next i).Fits := by
  unfold Fits at hfits
  rw [hload] at hfits
  obtain ⟨hs, hfill, hrdy⟩ := hfits
  have hkeep := ready_keeps h (by rw [hs]; nofun) (by rw [hs]; nofun) hrdy
  have hbefore := before_next hnew
  have hlow : x.low.state = .vfuEven := hs
  have hfsm : (x.next i).lp26.fsm = if i.lpStrobe then x.low.even i else x.low := by
    rw [fsm_next h]
    unfold Lp26.Fsm.step
    rw [hlow]
  have htakes : x.takes i = i.lpStrobe := by
    unfold takes Lp26.Fsm.accepts
    rw [hs]
    rfl
  unfold Fits
  rw [load_next h, htakes, hload, hbefore]
  cases hstrobe : i.lpStrobe with
  | false =>
      rw [hstrobe] at hfsm
      have hsame : (x.next i).lp26.fsm = x.low := hfsm
      rw [if_neg Bool.false_ne_true]
      exact ⟨by rw [hsame]; exact hs, hfill.congr (by rw [hsame]; rfl) (by rw [hsame]; rfl), hkeep⟩
  | true =>
      rw [htakes, hstrobe] at hnew
      have hstart : (i.lpPi && isStart i.lpData) = false := hnew
      rw [hstrobe, if_pos rfl] at hfsm
      unfold Lp26.Fsm.even at hfsm
      rw [hstart, if_neg Bool.false_ne_true] at hfsm
      rw [if_pos rfl]
      unfold Load.take
      rw [hstart, if_neg Bool.false_ne_true]
      dsimp only
      cases hstop : i.lpPi && i.lpData == charStop with
      | true =>
          have hcode : (i.lpPi && decide (i.lpData = charStop)) = true := hstop
          rw [if_pos hcode] at hfsm
          have hzero : x.low.lpDvfuLen = 0 ↔ pairs = [] := by
            rw [← List.length_eq_zero_iff, ← hfill.length]
            exact ⟨fun heq => congrArg BitVec.toNat heq, fun heq => BitVec.eq_of_toNat_eq heq⟩
          rw [if_pos rfl]
          unfold Load.stop
          by_cases hempty : pairs = []
          · rw [if_pos (hzero.mpr hempty)] at hfsm
            rw [if_pos hempty, hfsm]
            exact ⟨rfl, fun _ => .inr (.tail _ (.head _))⟩
          · rw [if_neg fun heq => hempty (hzero.mp heq)] at hfsm
            rw [if_neg hempty]
            exact .inl ⟨by rw [hfsm], hfill.congr (by rw [hfsm]; rfl) (by rw [hfsm]; rfl), hempty⟩
      | false =>
          have hcode : ¬ (i.lpPi && decide (i.lpData = charStop)) = true :=
            Bool.eq_false_iff.mp hstop
          rw [if_neg hcode] at hfsm
          rw [if_neg Bool.false_ne_true]
          refine ⟨by rw [hfsm], by rw [hfsm]; rfl, ?_, hkeep⟩
          exact hfill.congr (by rw [hfsm]; rfl) (by rw [hfsm]; rfl)

/-- The second byte of a line, or a stop code in the middle of it. -/
theorem Fits.odd (h : i.rst = false) {first : BitVec 6} (hfits : x.Fits)
    (hload : x.load = .filling pairs (some first))
    (hnew : (x.takes i && i.lpPi && isStart i.lpData) = false) : (x.next i).Fits := by
  unfold Fits at hfits
  rw [hload] at hfits
  obtain ⟨hs, rfl, hfill, hrdy⟩ := hfits
  have hkeep := ready_keeps h (by rw [hs]; nofun) (by rw [hs]; nofun) hrdy
  have hbefore := before_next hnew
  have hlow : x.low.state = .vfuOdd := hs
  have hfsm : (x.next i).lp26.fsm = if i.lpStrobe then x.low.odd i else x.low := by
    rw [fsm_next h]
    unfold Lp26.Fsm.step
    rw [hlow]
  have htakes : x.takes i = i.lpStrobe := by
    unfold takes Lp26.Fsm.accepts
    rw [hs]
    rfl
  unfold Fits
  rw [load_next h, htakes, hload, hbefore]
  cases hstrobe : i.lpStrobe with
  | false =>
      rw [hstrobe] at hfsm
      have hsame : (x.next i).lp26.fsm = x.low := hfsm
      rw [if_neg Bool.false_ne_true]
      exact ⟨by rw [hsame]; exact hs, by rw [hsame]; rfl,
        hfill.congr (by rw [hsame]; rfl) (by rw [hsame]; rfl), hkeep⟩
  | true =>
      rw [htakes, hstrobe] at hnew
      have hstart : (i.lpPi && isStart i.lpData) = false := hnew
      rw [hstrobe, if_pos rfl] at hfsm
      unfold Lp26.Fsm.odd at hfsm
      rw [hstart, if_neg Bool.false_ne_true] at hfsm
      rw [if_pos rfl]
      unfold Load.take
      rw [hstart, if_neg Bool.false_ne_true]
      dsimp only
      cases hstop : i.lpPi && i.lpData == charStop with
      | true =>
          have hcode : (i.lpPi && decide (i.lpData = charStop)) = true := hstop
          rw [if_pos hcode] at hfsm
          rw [if_pos rfl]
          unfold Load.stop
          rw [hfsm]
          exact ⟨rfl, fun _ => .inr (.head _)⟩
      | false =>
          have hcode : ¬ (i.lpPi && decide (i.lpData = charStop)) = true :=
            Bool.eq_false_iff.mp hstop
          rw [if_neg hcode] at hfsm
          rw [if_neg Bool.false_ne_true]
          unfold Load.fill
          have hfull : x.low.lpDvfuLen = 143 ↔ pairs.length = Load.most := by
            rw [← hfill.length]
            exact ⟨fun heq => congrArg BitVec.toNat heq, fun heq => BitVec.eq_of_toNat_eq heq⟩
          by_cases hroom : pairs.length = Load.most
          · rw [if_pos (hfull.mpr hroom)] at hfsm
            dsimp only
            rw [if_pos hroom, hfsm]
            exact ⟨rfl, fun _ => .inr (.head _)⟩
          · rw [if_neg fun heq => hroom (hfull.mp heq)] at hfsm
            dsimp only
            rw [if_neg hroom]
            refine ⟨by rw [hfsm], hfill.line hroom ?_ ?_, hkeep⟩
            · rw [hfsm]
              rfl
            · rw [hfsm]
              rfl

/-- A complete load is made ready, and stays so until a character comes. -/
theorem Fits.complete (h : i.rst = false) (hfits : x.Fits) (hload : x.load = .complete pairs)
    (hnew : (x.takes i && i.lpPi && isStart i.lpData) = false) : (x.next i).Fits := by
  unfold Fits at hfits
  rw [hload] at hfits
  rcases hfits with ⟨hs, hfill, hne⟩ | ⟨hs, hready⟩
  · have hnot : x.takes i = false := by
      unfold takes Lp26.Fsm.accepts
      rw [hs]
      rfl
    have hfsm : (x.next i).lp26.fsm =
        { x.low with lpLctr := 0, lpDvfuLen := x.low.lpDvfuLen - 1, state := .wait } := by
      rw [fsm_next h]
      unfold Lp26.Fsm.step
      rw [show x.low.state = .vfuRdy from hs]
    unfold Fits
    rw [load_next h, hnot, hload, if_neg Bool.false_ne_true]
    refine .inr ⟨by rw [hfsm]; exact .head _, ⟨hfill.filled.congr (by rw [hfsm]; rfl), ?_⟩, ?_, ?_⟩
    · have hpos : 0 < pairs.length := List.length_pos_iff.mpr hne
      have hlen : x.low.lpDvfuLen.toNat = pairs.length := hfill.length
      have hlt := hfill.most
      unfold Load.most at hlt
      rw [hfsm]
      show (x.low.lpDvfuLen - 1).toNat + 1 = _
      rw [BitVec.toNat_sub_of_le (by rw [BitVec.le_def, hlen]; exact hpos), hlen]
      exact Nat.sub_add_cancel hpos
    · rw [lpVfuRdy_next h, hs]
      cases i.lpOvfu <;> rfl
    · rw [hfsm]
  · have houtside : x.lp26.fsm.loads = false := by
      unfold Lp26.Fsm.loads
      simp only [List.mem_cons, List.not_mem_nil, or_false] at hs
      rcases hs with hs | hs | hs <;> rw [hs] <;> rfl
    obtain ⟨hloads, hdat, hlen⟩ := loads_of_not h houtside hnew
    have hforce : (x.next i).InForce pairs := hready.toInForce.congr hdat hlen
    unfold Fits
    rw [load_next h, hload]
    cases htakes : x.takes i with
    | true =>
        rw [htakes] at hnew
        rw [if_pos rfl, Load.take_of_not hnew fun _ _ heq => Load.noConfusion heq]
        exact ⟨hloads, hforce⟩
    | false =>
        rw [if_neg Bool.false_ne_true]
        obtain ⟨hrest, hlctr⟩ := step_rest (s := x.low) (i := i) x.lp26.lpXon hs
          (fun hidle => by
            unfold takes Lp26.Fsm.accepts at htakes
            rw [show x.lp26.fsm.state = .idle from hidle.1, hidle.2] at htakes
            cases htakes)
        rw [← fsm_next h] at hrest hlctr
        refine .inr ⟨hrest, hforce, ?_, hlctr.trans hready.lpLctr⟩
        rw [lpVfuRdy_next h, hready.lpVfuRdy]
        simp only [List.mem_cons, List.not_mem_nil, or_false] at hs
        cases i.lpOvfu <;> rcases hs with hs | hs | hs <;> rw [hs] <;> rfl

/-- Before the first load, and after one that failed, the format is not ready. -/
theorem Fits.empty (h : i.rst = false) (hfits : x.Fits)
    (hload : x.load = .never ∨ x.load = .failed)
    (hnew : (x.takes i && i.lpPi && isStart i.lpData) = false) : (x.next i).Fits := by
  have hsame : (x.next i).load = x.load := by
    rw [load_next h]
    cases htakes : x.takes i with
    | false => rfl
    | true =>
        rw [htakes] at hnew
        rcases hload with hl | hl <;>
          rw [hl, if_pos rfl, Load.take_of_not hnew fun _ _ heq => Load.noConfusion heq]
  unfold Fits at hfits
  rcases hload with hl | hl
  · rw [hl] at hfits
    obtain ⟨hloads, hrdy⟩ := hfits
    unfold Fits
    rw [hsame, hl]
    refine ⟨(loads_of_not h hloads hnew).1, fun hopt => ?_⟩
    obtain ⟨hold, heq⟩ := ready_outside h hloads hopt
    rw [heq, hrdy hold, ite_self]
  · rw [hl] at hfits
    obtain ⟨hloads, hrdy⟩ := hfits
    unfold Fits
    rw [hsame, hl]
    refine ⟨(loads_of_not h hloads hnew).1, fun hopt => ?_⟩
    obtain ⟨hold, heq⟩ := ready_outside h hloads hopt
    rw [heq]
    rcases hrdy hold with hfalse | hs
    · rw [hfalse, ite_self]
      exact .inl rfl
    · rcases List.mem_cons.mp hs with hs | hs
      · refine .inr ?_
        rw [fsm_next h]
        unfold Lp26.Fsm.step
        rw [show x.low.state = .vfuOffln from hs]
        exact .tail _ (.head _)
      · rw [if_pos (List.mem_singleton.mp hs)]
        exact .inl rfl

theorem AfterReset.fits (h : x.AfterReset) : x.Fits := by
  unfold Fits load
  rw [h.chars]
  refine ⟨?_, fun _ => h.lpVfuRdy⟩
  rw [h.fsm]
  rfl

theorem afterReset_of_rst (h : i.rst = true) : (x.next i).AfterReset := by
  have hfsm : (x.next i).lp26.fsm = x.lp26.fsm.reset := by
    show (if i.rst then _ else _) = _
    rw [if_pos h]
  refine ⟨?_, ?_, ?_⟩
  · rw [hfsm]
    rfl
  · show (if i.rst then _ else _) = _
    rw [if_pos h]
  · show (if i.rst then _ else _) = _
    rw [if_pos h]

theorem Fits.clock (h : i.rst = false) (hfits : x.Fits) : (x.next i).Fits := by
  cases hnew : x.takes i && i.lpPi && isStart i.lpData with
  | true =>
      obtain ⟨htakes, hstart⟩ := Bool.and_eq_true_iff.mp hnew
      obtain ⟨htakes, hpi⟩ := Bool.and_eq_true_iff.mp htakes
      exact fits_start h htakes hpi hstart
  | false =>
      cases hload : x.load with
      | never => exact hfits.empty h (.inl hload) hnew
      | failed => exact hfits.empty h (.inr hload) hnew
      | complete pairs => exact hfits.complete h hload hnew
      | filling pairs half =>
          cases half with
          | none => exact hfits.even h hload hnew
          | some first => exact hfits.odd h hload hnew
      | later pairs =>
          unfold Fits at hfits
          rw [hload] at hfits
          obtain ⟨hloads, hdat, hlen⟩ := loads_of_not h hfits.1 hnew
          unfold Fits
          rw [load_next h, hload]
          cases htakes : x.takes i with
          | false => exact ⟨hloads, hfits.2.congr hdat hlen⟩
          | true =>
              rw [htakes] at hnew
              rw [if_pos rfl, Load.take_of_not hnew fun _ _ heq => Load.noConfusion heq]
              exact ⟨hloads, hfits.2.congr hdat hlen⟩

/-! ## Runs -/

theorem Fits.next (hfits : x.Fits) : (x.next i).Fits := by
  cases h : i.rst with
  | true => exact (afterReset_of_rst h).fits
  | false => exact hfits.clock h

theorem Fits.sound (h : x.Fits) : x.Sound where
  complete := by
    intro old start bytes hstart hbytes hpos hmost hchars hsettled
    have hload : x.load = .complete (bytes.map Load.marks) := by
      unfold load
      rw [hchars, List.foldl_append]
      exact Load.foldl_chars hstart hbytes hpos hmost
    unfold Fits at h
    rw [hload] at h
    rcases h with ⟨hs, -⟩ | ⟨-, hready⟩
    · unfold settled at hsettled
      rw [hs] at hsettled
      cases hsettled
    · exact hready
  later := by
    intro pairs hload
    unfold Fits at h
    rw [hload] at h
    exact h.2
  failed := by
    intro hload hsettled hopt
    unfold Fits at h
    rcases hload with hl | hl
    · rw [hl] at h
      exact h.2 hopt
    · rw [hl] at h
      refine (h.2 hopt).resolve_right fun hs => ?_
      unfold settled at hsettled
      simp only [List.mem_cons, List.not_mem_nil, or_false] at hs
      rcases hs with hs | hs <;>
      · rw [hs] at hsettled
        cases hsettled
  filling := by
    intro pairs half hload hopt
    unfold Fits at h
    rw [hload] at h
    cases half with
    | none => exact h.2.2 hopt
    | some first => exact h.2.2.2 hopt

theorem load_run (i : Nat → In) (hreset : x.AfterReset) (t : Nat) : (run next x i t).Sound :=
  (run_invariant hreset.fits (fun _ _ hfits => hfits.next) i t).sound

/-! ## Runs on given characters -/

def afterReset : LpForm where
  lp26 := Lp26.afterReset
  chars := []
  before := false
  optical := false

/-- One character each clock, and the serial line is free. -/
def sends (chars : Nat → Option LpChar) (t : Nat) : In where
  rst := false
  lpInit := false
  lpSetOnln := false
  lpSetOffln := false
  lpOvfu := false
  lpStrobe := (chars t).isSome
  lpData := ((chars t).map LpChar.lpData).getD 0
  lpPi := ((chars t).map LpChar.lpPi).getD false
  lpTxEmpty := true
  lpRxFull := false
  lpRxDat := 0

/-- A form of one line, and a start code some clocks after it. -/
def oneLine (t : Nat) : Option LpChar :=
  (Load.chars Lp26.charStart1 [(⟨true, 1⟩, ⟨true, 2⟩)])[t]? <|>
    if t = 9 then some ⟨true, Lp26.charStart1⟩ else .none

theorem load_run_oneLine : (run next afterReset (sends oneLine) 5).load = .complete [0o0201] ∧
    (run next afterReset (sends oneLine) 5).Sound :=
  ⟨by decide +kernel, load_run (sends oneLine) ⟨rfl, rfl, rfl⟩ 5⟩

/-- A form of 144 lines, whose stop code comes when the printer takes characters again. -/
def longForm (t : Nat) : Option LpChar :=
  if t = 0 then some ⟨true, Lp26.charStart1⟩
  else if t < 289 then some ⟨true, 1⟩
  else if t = 299 then some ⟨true, Lp26.charStop⟩
  else .none

/-- The format is ready although a load goes on, and it is not ready after the characters of a
form that the memory has room for. -/
theorem load_fails :
    ((run next afterReset (sends oneLine) 10).load = .filling [] .none ∧
      (run next afterReset (sends oneLine) 10).lp26.lpVfuRdy = true) ∧
    ((run next afterReset (sends longForm) 310).chars =
        Load.chars Lp26.charStart1 (List.replicate 144 (⟨true, 1⟩, ⟨true, 1⟩)) ∧
      (run next afterReset (sends longForm) 310).settled = true ∧
      (run next afterReset (sends longForm) 310).lp26.lpVfuRdy = false) := by
  decide +kernel

end LpForm

end KS10
