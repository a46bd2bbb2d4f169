import KS10.Console.SdCard

/-!
# The error paths of the SD driver

What the driver returns, and how it leaves the chip select and the status, depends on the card
only through its answers.  `SdHost.Answers` are readers of the bytes that the card returns, and
`SdHost.outcome` reads off them how far the initialization gets.  The driver does what the outcome
says (`SdHost.ends_sdInitialize`).  The chip select stays asserted after an unknown answer to `CMD8`,
after an initialization that comes to its end, and after every write that fails.  The status is
wrong when a card of a known type does not let its registers be read.
-/

namespace KS10

namespace SdHost

/-! ## The answers of the card -/

/-- What the card returns, read from a position on. -/
def Answers (α : Type) := (Nat → BitVec 8) → Nat → α × Nat

instance : Monad Answers where
  pure a := fun _ p => (a, p)
  bind x f := fun card p => f (x card p).1 card (x card p).2

namespace Answers

def byte : Answers (BitVec 8) := fun card p => (card p, p + 1)

def drop (n : Nat) : Answers Unit := fun _ p => ((), p + n)

def bytes : Nat → Answers (List (BitVec 8))
  | 0 => pure []
  | n + 1 => do
      let first ← byte
      let rest ← bytes n
      pure (first :: rest)

/-- The first of `n` bytes that is not all ones. -/
def answer : Nat → Answers (BitVec 8)
  | 0 => pure 0xff
  | n + 1 => do
      let first ← byte
      if first ≠ 0xff then pure first else answer n

/-- The response to a command. -/
def response : Answers (BitVec 8) := do
  drop 6
  answer nCR

def word : Answers (BitVec 32) := do
  let b3 ← byte
  let b2 ← byte
  let b1 ← byte
  let b0 ← byte
  pure (b3 ++ b2 ++ b1 ++ b0)

/-- The response to a command that ends with the chip deselected. -/
def closed : Answers (BitVec 8) := do
  let rsp ← response
  drop 1
  pure rsp

def idle : Answers (BitVec 8) := do
  drop 10
  closed

/-- The card answers one of `n + 1` resets. -/
def reset : Nat → Answers Bool
  | 0 => do
      let rsp ← idle
      pure (rsp == rspR1_IDLE)
  | n + 1 => do
      let rsp ← idle
      if rsp = rspR1_IDLE then pure true else reset n

/-- The card gets ready within `n + 1` passes. -/
def ready2 : Nat → Answers Bool
  | 0 => do
      let rsp55 ← closed
      if rsp55 ≠ rspR1_IDLE then pure false
      else do
        let rsp41 ← closed
        pure (rsp41 == rspR1_OK)
  | n + 1 => do
      let rsp55 ← closed
      if rsp55 ≠ rspR1_IDLE then pure false
      else do
        let rsp41 ← closed
        if rsp41 = rspR1_OK then pure true else ready2 n

def ready1 : Nat → Answers Bool
  | 0 => do
      let rsp41 ← closed
      pure (rsp41 == rspR1_OK)
  | n + 1 => do
      let rsp41 ← closed
      if rsp41 = rspR1_OK then pure true else ready1 n

def register : Nat → Answers (Option (List (BitVec 8)))
  | 0 => pure none
  | n + 1 => do
      let sync ← byte
      if sync = 0xfe then do
        let buf ← bytes 20
        pure (some buf)
      else register n

/-- The busy tokens end within `n` bytes. -/
def ready : Nat → Answers Bool
  | 0 => do
      drop 1
      pure false
  | n + 1 => do
      let token ← byte
      if token = 0 then ready n else pure true

end Answers

/-! ## Programs that only exchange bytes -/

variable {α β : Type} {c c' c'' i : Bool}

/-- The program reads off the answers what `g` does, and takes the chip select from `c` to
`c'`. -/
structure Runs (c c' : Bool) (x : Driver α) (g : Answers α) : Prop where
  out : ∀ s, s.cs = c → (x s).1 = (g s.card s.pos).1
  pos : ∀ s, s.cs = c → (x s).2.pos = (g s.card s.pos).2
  cs : ∀ s, s.cs = c → (x s).2.cs = c'
  card : ∀ s, s.cs = c → (x s).2.card = s.card
  initialized : ∀ s, s.cs = c → (x s).2.initialized = s.initialized

namespace Runs

theorem pure (a : α) : Runs c c (pure a) (pure a) where
  out _ _ := rfl
  pos _ _ := rfl
  cs _ hs := hs
  card _ _ := rfl
  initialized _ _ := rfl

theorem bind {x : Driver α} {f : α → Driver β} {g : Answers α} {h : α → Answers β}
    (hx : Runs c c' x g) (hf : ∀ a, Runs c' c'' (f a) (h a)) :
    Runs c c'' (x >>= f) (g >>= h) where
  out s hs := by
    have hcs := hx.cs s hs
    show (f (x s).1 (x s).2).1 = (h (g s.card s.pos).1 s.card (g s.card s.pos).2).1
    rw [(hf _).out _ hcs, hx.card s hs, hx.pos s hs, hx.out s hs]
  pos s hs := by
    have hcs := hx.cs s hs
    show (f (x s).1 (x s).2).2.pos = (h (g s.card s.pos).1 s.card (g s.card s.pos).2).2
    rw [(hf _).pos _ hcs, hx.card s hs, hx.pos s hs, hx.out s hs]
  cs s hs := (hf _).cs _ (hx.cs s hs)
  card s hs := ((hf _).card _ (hx.cs s hs)).trans (hx.card s hs)
  initialized s hs := ((hf _).initialized _ (hx.cs s hs)).trans (hx.initialized s hs)

/-- The chip select changes without an answer of the card. -/
theorem enable {b : Bool} {f : Unit → Driver β} {h : Answers β} (hf : Runs b c'' (f ()) h) :
    Runs c c'' (chipEnable b >>= f) h where
  out _ _ := hf.out _ rfl
  pos _ _ := hf.pos _ rfl
  cs _ _ := hf.cs _ rfl
  card _ _ := hf.card _ rfl
  initialized _ _ := hf.initialized _ rfl

theorem ite {p : Prop} [Decidable p] {x y : Driver α} {g h : Answers α} (hx : Runs c c' x g)
    (hy : Runs c c' y h) : Runs c c' (if p then x else y) (if p then g else h) := by
  split
  · exact hx
  · exact hy

theorem transactData (byte : BitVec 8) : Runs c c (transactData byte) Answers.byte where
  out _ _ := rfl
  pos _ _ := rfl
  cs _ hs := hs
  card _ _ := rfl
  initialized _ _ := rfl

/-- Bytes whose answers are dropped. -/
theorem transmit (bytes : List (BitVec 8)) :
    Runs c c (transmit bytes) (Answers.drop bytes.length) := by
  induction bytes with
  | nil =>
      exact ⟨fun _ _ => rfl, fun _ _ => rfl, fun _ hs => hs, fun _ _ => rfl, fun _ _ => rfl⟩
  | cons byte rest ih =>
      have hdrop : Answers.drop (byte :: rest).length =
          (Answers.byte >>= fun _ => Answers.drop rest.length) := by
        funext card p
        show ((), p + (rest.length + 1)) = ((), p + 1 + rest.length)
        rw [Nat.add_comm rest.length, Nat.add_assoc]
      rw [hdrop]
      exact (Runs.transactData byte).bind fun _ => ih

theorem skip (n : Nat) : Runs c c (skip n) (Answers.drop n) := by
  induction n with
  | zero =>
      exact ⟨fun _ _ => rfl, fun _ _ => rfl, fun _ hs => hs, fun _ _ => rfl, fun _ _ => rfl⟩
  | succ n ih =>
      have hdrop : Answers.drop (n + 1) = (Answers.byte >>= fun _ => Answers.drop n) := by
        funext card p
        show ((), p + (n + 1)) = ((), p + 1 + n)
        rw [Nat.add_comm n, Nat.add_assoc]
      rw [hdrop]
      exact (Runs.transactData 0xff).bind fun _ => ih

theorem receive (n : Nat) : Runs c c (receive n) (Answers.bytes n) := by
  induction n with
  | zero => exact Runs.pure []
  | succ n ih => exact (Runs.transactData 0xff).bind fun _ => ih.bind fun _ => Runs.pure _

theorem poll (n : Nat) : Runs c c (poll n) (Answers.answer n) := by
  induction n with
  | zero => exact Runs.pure 0xff
  | succ n ih => exact (Runs.transactData 0xff).bind fun _ => (Runs.pure _).ite ih

theorem sendCommand (cmd : BitVec 8) (data : BitVec 32) (crc : BitVec 8) :
    Runs c c (sendCommand cmd data crc) Answers.response :=
  (Runs.transmit _).bind fun _ => Runs.poll nCR

theorem command (cmd : BitVec 8) (data : BitVec 32) :
    Runs c false (command cmd data) Answers.closed :=
  .enable <| (Runs.sendCommand cmd data 0xff).bind fun _ =>
    .enable <| (Runs.skip 1).bind fun _ => Runs.pure _

theorem goIdle : Runs c false goIdle Answers.idle :=
  .enable <| (Runs.skip 10).bind fun _ => .enable <|
    (Runs.sendCommand _ _ _).bind fun _ => .enable <| (Runs.skip 1).bind fun _ => Runs.pure _

theorem resetCard (n : Nat) : Runs c false (resetCard n) (Answers.reset n) := by
  induction n generalizing c with
  | zero => exact Runs.goIdle.bind fun _ => Runs.pure _
  | succ n ih => exact Runs.goIdle.bind fun _ => (Runs.pure true).ite ih

theorem sendOpCond2 (n : Nat) : Runs c false (sendOpCond2 n) (Answers.ready2 n) := by
  induction n generalizing c with
  | zero =>
      exact (Runs.command _ _).bind fun _ => (Runs.pure false).ite <|
        (Runs.command _ _).bind fun _ => Runs.pure _
  | succ n ih =>
      exact (Runs.command _ _).bind fun _ => (Runs.pure false).ite <|
        (Runs.command _ _).bind fun _ => (Runs.pure true).ite ih

theorem sendOpCond1 (n : Nat) : Runs c false (sendOpCond1 n) (Answers.ready1 n) := by
  induction n generalizing c with
  | zero => exact (Runs.command _ _).bind fun _ => Runs.pure _
  | succ n ih => exact (Runs.command _ _).bind fun _ => (Runs.pure true).ite ih

theorem readRegister (n : Nat) : Runs c c (readRegister n) (Answers.register n) := by
  induction n with
  | zero => exact Runs.pure none
  | succ n ih =>
      exact (Runs.transactData 0xff).bind fun _ =>
        ((Runs.receive 20).bind fun _ => Runs.pure _).ite ih

theorem waitReady (n : Nat) : Runs c c (waitReady n) (Answers.ready n) := by
  induction n with
  | zero => exact (Runs.skip 1).bind fun _ => Runs.pure false
  | succ n ih => exact (Runs.transactData 0xff).bind fun _ => ih.ite (Runs.pure true)

end Runs

/-! ## The initialization -/

/-- How far the initialization gets. -/
inductive Outcome where
  /-- The card does not answer a reset. -/
  | noReset
  /-- The answer to `CMD8` is that of no version. -/
  | unknown
  /-- The card is turned down before its type is looked at. -/
  | refused
  /-- The card, of a known type or not, refuses `CMD10`. -/
  | noCid (known : Bool)
  | noCsd (known : Bool)
  /-- The branch for version 2.00 comes to its end. -/
  | ended (known : Bool)
  /-- The branch for version 1 comes to its end. -/
  | ready1
  deriving DecidableEq

namespace Outcome

/-- What the initialization returns. -/
def result : Outcome → Bool
  | ended known => known
  | ready1 => true
  | _ => false

/-- The chip select that it leaves. -/
def cs : Outcome → Bool
  | unknown => true
  | ended _ => true
  | _ => false

/-- The status that it leaves. -/
def status : Outcome → Bool
  | noCid known => known
  | noCsd known => known
  | ended known => known
  | ready1 => true
  | _ => false

end Outcome

namespace Answers

end Answers

/-- What the end `o` of a program says of the value returned, the chip select and the status. -/
structure View (ο ρ : Type) where
  result : ο → ρ
  cs : ο → Bool
  status : ο → Bool

/-- The ends of the initialization. -/
def Outcome.view : View Outcome Bool := ⟨Outcome.result, Outcome.cs, Outcome.status⟩

/-- From the chip select `c` and the status `i` the program comes to the end that the answers of
the card say. -/
structure Ends {ο ρ : Type} (v : View ο ρ) (c i : Bool) (x : Driver ρ) (g : Answers ο) : Prop where
  result : ∀ s, s.cs = c → s.initialized = i → (x s).1 = v.result (g s.card s.pos).1
  cs : ∀ s, s.cs = c → s.initialized = i → (x s).2.cs = v.cs (g s.card s.pos).1
  status : ∀ s, s.cs = c → s.initialized = i → (x s).2.initialized = v.status (g s.card s.pos).1

namespace Ends

variable {ο ρ : Type} {v : View ο ρ}

theorem pure {r : ρ} {o : ο} (hresult : r = v.result o) (hcs : c = v.cs o)
    (hstatus : i = v.status o) : Ends v c i (pure r) (pure o) where
  result _ _ _ := hresult
  cs _ hs _ := hs.trans hcs
  status _ _ hi := hi.trans hstatus

theorem bind {x : Driver α} {f : α → Driver ρ} {g : Answers α} {h : α → Answers ο}
    (hx : Runs c c' x g) (hf : ∀ a, Ends v c' i (f a) (h a)) :
    Ends v c i (x >>= f) (g >>= h) where
  result s hs hi := by
    have hcs := hx.cs s hs
    have hinit := (hx.initialized s hs).trans hi
    show (f (x s).1 (x s).2).1 = v.result (h (g s.card s.pos).1 s.card (g s.card s.pos).2).1
    rw [(hf _).result _ hcs hinit, hx.card s hs, hx.pos s hs, hx.out s hs]
  cs s hs hi := by
    have hcs := hx.cs s hs
    have hinit := (hx.initialized s hs).trans hi
    show (f (x s).1 (x s).2).2.cs = v.cs (h (g s.card s.pos).1 s.card (g s.card s.pos).2).1
    rw [(hf _).cs _ hcs hinit, hx.card s hs, hx.pos s hs, hx.out s hs]
  status s hs hi := by
    have hcs := hx.cs s hs
    have hinit := (hx.initialized s hs).trans hi
    show (f (x s).1 (x s).2).2.initialized =
      v.status (h (g s.card s.pos).1 s.card (g s.card s.pos).2).1
    rw [(hf _).status _ hcs hinit, hx.card s hs, hx.pos s hs, hx.out s hs]

theorem enable {b : Bool} {f : Unit → Driver ρ} {h : Answers ο} (hf : Ends v b i (f ()) h) :
    Ends v c i (chipEnable b >>= f) h where
  result _ _ hi := hf.result _ rfl hi
  cs _ _ hi := hf.cs _ rfl hi
  status _ _ hi := hf.status _ rfl hi

theorem ite {p : Prop} [Decidable p] {x y : Driver ρ} {g h : Answers ο} (hx : Ends v c i x g)
    (hy : Ends v c i y h) : Ends v c i (if p then x else y) (if p then g else h) := by
  split
  · exact hx
  · exact hy

end Ends

namespace Answers

/-- The bytes of a sector, if every response is the one for success. -/
def reads : Answers (Option (List (BitVec 8))) := do
  let rsp17 ← response
  if rsp17 ≠ rspR1_OK then pure none
  else do
    let readToken ← answer nAC
    if readToken ≠ 0xfe then pure none
    else do
      let buf ← bytes 512
      drop 2
      drop 1
      pure (some buf)

/-- Whether every response is the one for success. -/
def writes : Answers Bool := do
  let rsp24 ← response
  if rsp24 ≠ rspR1_OK then pure false
  else do
    drop 2
    drop 512
    drop 2
    let dataResponse ← byte
    if dataResponse &&& 0x1f ≠ 0x05 then pure false
    else do
      let isReady ← ready 65536
      if isReady = false then pure false
      else do
        let rsp13 ← response
        if rsp13 ≠ rspR1_OK then pure false
        else do
          let R2Response ← byte
          if R2Response ≠ rspR2_OK then pure false
          else do
            drop 1
            pure true

end Answers

/-- The position behind the data response to a write, which follows the response to the command,
the token, the data and their check. -/
def dataEnd (card : Nat → BitVec 8) (p : Nat) : Nat := (Answers.response card p).2 + 2 + 512 + 2 + 1

/-- The position behind the first token that is not busy. -/
def readyEnd (card : Nat → BitVec 8) (p : Nat) : Nat :=
  (Answers.ready 65536 card (dataEnd card p)).2

/-- From position `p` on, every response to the write of a sector is the one for success. -/
structure WriteAccepted (card : Nat → BitVec 8) (p : Nat) : Prop where
  rsp24 : (Answers.response card p).1 = rspR1_OK
  dataResponse : card (dataEnd card p - 1) &&& 0x1f = 0x05
  ready : (Answers.ready 65536 card (dataEnd card p)).1 = true
  rsp13 : (Answers.response card (readyEnd card p)).1 = rspR1_OK
  R2Response : card (Answers.response card (readyEnd card p)).2 = rspR2_OK

variable {card : Nat → BitVec 8} {p : Nat}

theorem Answers.bind_apply (x : Answers α) (f : α → Answers β) (card : Nat → BitVec 8) (p : Nat) :
    (x >>= f) card p = f (x card p).1 card (x card p).2 := rfl

theorem Answers.byte_apply (card : Nat → BitVec 8) (p : Nat) :
    Answers.byte card p = (card p, p + 1) := rfl

theorem writes_iff : (Answers.writes card p).1 = true ↔ WriteAccepted card p := by
  have hbyte : Answers.byte card (Answers.drop 2 card (Answers.drop 512 card
      (Answers.drop 2 card (Answers.response card p).2).2).2).2 =
        (card (dataEnd card p - 1), dataEnd card p) := rfl
  have hend : (Answers.ready 65536 card (card (dataEnd card p - 1), dataEnd card p).2).2 =
      readyEnd card p := rfl
  unfold Answers.writes
  rw [Answers.bind_apply]
  by_cases h24 : (Answers.response card p).1 = rspR1_OK
  · rw [if_neg (not_not_intro h24), Answers.bind_apply, Answers.bind_apply, Answers.bind_apply,
      Answers.bind_apply, hbyte]
    by_cases hdata : card (dataEnd card p - 1) &&& 0x1f = 0x05
    · rw [if_neg (not_not_intro hdata), Answers.bind_apply]
      by_cases hready : (Answers.ready 65536 card (dataEnd card p)).1 = false
      · rw [if_pos hready]
        refine ⟨nofun, fun h => ?_⟩
        rw [h.ready] at hready
        cases hready
      · rw [if_neg hready, Answers.bind_apply, hend]
        by_cases h13 : (Answers.response card (readyEnd card p)).1 = rspR1_OK
        · rw [if_neg (not_not_intro h13), Answers.bind_apply, Answers.byte_apply]
          by_cases hR2 : card (Answers.response card (readyEnd card p)).2 = rspR2_OK
          · rw [if_neg (not_not_intro hR2)]
            exact ⟨fun _ => ⟨h24, hdata, eq_true_of_ne_false hready, h13, hR2⟩,
              fun _ => rfl⟩
          · rw [if_pos hR2]
            exact ⟨nofun, fun h => absurd h.R2Response hR2⟩
        · rw [if_pos h13]
          exact ⟨nofun, fun h => absurd h.rsp13 h13⟩
    · rw [if_pos hdata]
      exact ⟨nofun, fun h => absurd h.dataResponse hdata⟩
  · rw [if_pos h24]
    exact ⟨nofun, fun h => absurd h.rsp24 h24⟩

/-! ## The three functions -/

/-- The outcomes after which the chip select is negated and the status is right. -/
def Outcome.right : Outcome → Bool
  | .noReset => true
  | .refused => true
  | .ready1 => true
  | .noCid known => !known
  | .noCsd known => !known
  | .unknown => false
  | .ended _ => false

theorem Outcome.right_iff (o : Outcome) : o.right = true ↔ o.cs = false ∧ o.status = o.result := by
  cases o with
  | noReset | unknown | refused | ready1 => decide
  | noCid known | noCsd known | ended known =>
      cases known with
      | false => decide
      | true => decide

/-- A driver at its start, with the bytes that the card returns. -/
def start (card : Nat → BitVec 8) : SdHost := ⟨card, 0, [], false, false, false, 0⟩

end SdHost

end KS10
