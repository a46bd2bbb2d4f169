import KS10.Clocked.Ring
import Mathlib.Algebra.Group.Nat.Defs

/-!
# The command history

The console keeps the last command lines in a ring of 128 bytes, each with its length in front
of it and a zero behind the last one.  A new line pushes the oldest ones out.  The lines are
found by a walk over the lengths.

The abstract history (`Past`) is a list of lines and the number of steps that the recalls have
gone back.
-/

namespace KS10

open Clocked

/-! ## The ring -/

structure Hist where
  buffer : Nat → BitVec 8
  head : Nat
  tail : Nat
  index : Nat

/-- What a recall gives: its result and the characters stored for the caller. -/
structure Recalled where
  result : Int
  chars : List (BitVec 8)
  deriving DecidableEq

namespace Hist

inductive Dir where
  | up
  | down
  deriving DecidableEq

def bufsize : Nat := 128

def init : Hist where
  buffer := fun _ => 0
  head := 0
  tail := 0
  index := 0

def wrap (index : Nat) : Nat := if index ≥ bufsize then index - bufsize else index

/-- The difference of two unsigned numbers. -/
def sub (a b : Nat) : Nat := (a + 2 ^ 32 - b) % 2 ^ 32

/-- The header after the one at `header`. -/
def skip (buffer : Nat → BitVec 8) (header : Nat) : Nat :=
  wrap (header + (buffer header).toNat + 1)

/-- There is room for a line. -/
def room (h : Hist) (size : Nat) : Bool :=
  if h.tail < h.head then size < h.head - h.tail - 1 else size < bufsize + h.head - h.tail - 1

/-- The loop deletes the oldest entries.  It has no result when the fuel is used up. -/
def findfree (size : Nat) : Nat → Hist → Option Hist
  | 0, _ => none
  | fuel + 1, h =>
      if h.buffer h.head = 0 then some h
      else if h.room size then some h
      else findfree size fuel { h with head := skip h.buffer h.head }

/-- Bytes are stored at the tail. -/
def store (h : Hist) : List (BitVec 8) → Hist
  | [] => h
  | c :: cs =>
      store { h with buffer := Function.update h.buffer h.tail c, tail := wrap (h.tail + 1) } cs

/-- The command line and its length are stored, with a zero behind them. -/
def close (h : Hist) (cmdline : List (BitVec 8)) : Hist :=
  let h := h.store (BitVec.ofNat 8 cmdline.length :: cmdline)
  { h with buffer := Function.update h.buffer h.tail 0, index := 0 }

def append (h : Hist) (cmdline : List (BitVec 8)) : Hist :=
  if h.buffer h.head = 0 then
    close
      { h with buffer := Function.update h.buffer h.head (BitVec.ofNat 8 cmdline.length) } cmdline
  else h.close cmdline

def save (h : Hist) (cmdline : List (BitVec 8)) : Option Hist :=
  if cmdline.length > bufsize - 2 || cmdline.length = 0 then some h
  else (findfree cmdline.length bufsize h).map fun h => h.append cmdline

/-- The loop over the headers, with the number of entries that it has passed. -/
def walk (buffer : Nat → BitVec 8) (brk : Nat → Bool) : Nat → Nat → Nat → Option (Nat × Nat)
  | 0, _, _ => none
  | fuel + 1, i, header =>
      if buffer header = 0 then some (i, header)
      else if brk i then some (i, header)
      else walk buffer brk fuel (i + 1) (skip buffer header)

def entries (h : Hist) : Option Nat :=
  (walk h.buffer (fun _ => false) bufsize 0 h.head).map Prod.fst

def find (h : Hist) (num index : Nat) : Option Nat :=
  (walk h.buffer (fun i => sub num i == index) bufsize 0 h.head).map Prod.snd

/-- The bytes from a place on. -/
def copy (buffer : Nat → BitVec 8) : Nat → Nat → List (BitVec 8)
  | 0, _ => []
  | size + 1, temp => buffer temp :: copy buffer size (wrap (temp + 1))

def copybuffer (h : Hist) (header : Nat) : Recalled where
  result := (h.buffer header).toNat
  chars := copy h.buffer (h.buffer header).toNat (wrap (header + 1))

def recallLine (h : Hist) (dir : Dir) : Option (Recalled × Hist) := do
  let num ← h.entries
  match dir with
  | .up =>
      let header ← h.find (sub num 1) h.index
      if h.index ≤ num && h.buffer header != 0 then
        some (h.copybuffer header, { h with index := h.index + 1 })
      else some (⟨-1, []⟩, h)
  | .down =>
      let header ← h.find (num + 1) h.index
      if h.index > 0 then some (h.copybuffer header, { h with index := h.index - 1 })
      else some (⟨0, []⟩, h)

/-! ## Saves and recalls -/

inductive Op where
  | save (line : List (BitVec 8))
  | recallLine (dir : Dir)

/-- The result of one operation, and what it gives. -/
def step (h : Hist) : Op → Option (Hist × List Recalled)
  | .save line => (h.save line).map fun h => (h, [])
  | .recallLine dir => (h.recallLine dir).map fun r => (r.2, [r.1])

def run (h : Hist) : List Op → Option (Hist × List Recalled)
  | [] => some (h, [])
  | op :: ops => do
      let (h, first) ← h.step op
      let (h, rest) ← run h ops
      some (h, first ++ rest)

end Hist

/-! ## The abstract history -/

/-- The lines, the oldest one first, and how many steps the recalls have gone back. -/
structure Past where
  lines : List (List (BitVec 8))
  index : Nat

namespace Past

open Hist (Dir Op bufsize)

/-- A line in the ring. -/
def record (line : List (BitVec 8)) : List (BitVec 8) := BitVec.ofNat 8 line.length :: line

def bytes (lines : List (List (BitVec 8))) : List (BitVec 8) := lines.flatMap record

/-- The lines and the zero behind them fit into the ring. -/
def Fits (lines : List (List (BitVec 8))) : Prop := (bytes lines).length + 1 ≤ bufsize

instance (lines : List (List (BitVec 8))) : Decidable (Fits lines) :=
  inferInstanceAs (Decidable (_ ≤ _))

/-- The oldest lines are dropped until there is room for one more. -/
def drop (line : List (BitVec 8)) : List (List (BitVec 8)) → List (List (BitVec 8))
  | [] => []
  | old :: lines => if Fits (old :: lines ++ [line]) then old :: lines else drop line lines

/-- The line that is `k` steps before the newest one. -/
def back (p : Past) (k : Nat) : Option (List (BitVec 8)) := p.lines.reverse[k]?

def recalled (line : List (BitVec 8)) : Recalled where
  result := line.length
  chars := line

/-- A recall up gives the next older line, or tells that there is none.  A recall down gives the
line after the one shown last, and an empty line after the newest one. -/
def recallLine (p : Past) : Dir → Recalled × Past
  | .up =>
      match p.back p.index with
      | some line => (recalled line, { p with index := p.index + 1 })
      | none => (⟨-1, []⟩, p)
  | .down =>
      match p.index with
      | 0 => (recalled [], p)
      | 1 => (recalled [], { p with index := 0 })
      | k + 2 => (recalled ((p.back k).getD []), { p with index := k + 1 })

def save (p : Past) (line : List (BitVec 8)) : Past where
  lines := drop line p.lines ++ [line]
  index := 0

def step (p : Past) : Op → Past × List Recalled
  | .save line => (p.save line, [])
  | .recallLine dir => ((p.recallLine dir).2, [(p.recallLine dir).1])

def run (p : Past) : List Op → Past × List Recalled
  | [] => (p, [])
  | op :: ops => (((p.step op).1.run ops).1, (p.step op).2 ++ ((p.step op).1.run ops).2)

/-- What a recall up gives that has gone back `k` steps before. -/
def older (p : Past) (k : Nat) : Recalled :=
  match p.back k with
  | some line => recalled line
  | none => ⟨-1, []⟩

/-- What a recall down gives that has gone back `k` steps before. -/
def newer (p : Past) (k : Nat) : Recalled :=
  match k with
  | 0 | 1 => recalled []
  | k + 2 => recalled ((p.back k).getD [])

/-- The lines that have been saved. -/
def saved : List Op → List (List (BitVec 8))
  | [] => []
  | .save line :: ops => line :: saved ops
  | .recallLine _ :: ops => saved ops

/-- The last lines, as many as fit. -/
structure Longest (all lines : List (List (BitVec 8))) : Prop where
  suffix : lines <:+ all
  fits : Fits lines
  longest : ∀ last, last <:+ all → Fits last → last <:+ lines

variable {line : List (BitVec 8)} {lines all last : List (List (BitVec 8))}

theorem length_record : (record line).length = line.length + 1 := rfl

theorem bytes_cons : bytes (line :: lines) = record line ++ bytes lines := rfl

theorem bytes_concat : bytes (lines ++ [line]) = bytes lines ++ record line := by
  unfold bytes
  rw [List.flatMap_append]
  exact congrArg _ (List.append_nil _)

/-- A part of lines that fit fits. -/
theorem Fits.suffix (h : Fits lines) (hlast : last <:+ lines) : Fits last := by
  obtain ⟨first, rfl⟩ := hlast
  unfold Fits bytes at *
  rw [List.flatMap_append, List.length_append] at h
  omega

theorem drop_suffix (line : List (BitVec 8)) (lines : List (List (BitVec 8))) :
    drop line lines <:+ lines := by
  induction lines with
  | nil => exact List.suffix_refl _
  | cons old lines ih =>
      unfold drop
      split
      · exact List.suffix_refl _
      · exact ih.trans (List.suffix_cons old lines)

theorem drop_fits (hline : line.length ≤ bufsize - 2) : Fits (drop line lines ++ [line]) := by
  induction lines with
  | nil =>
      unfold Fits bytes drop
      rw [List.nil_append, List.flatMap_singleton, length_record]
      unfold bufsize at *
      omega
  | cons old lines ih =>
      unfold drop
      split
      · next hfits => exact hfits
      · exact ih

/-- What is left of the lines is the longest part with room for one more. -/
theorem drop_longest (hlast : last <:+ lines) (hfits : Fits (last ++ [line])) :
    last <:+ drop line lines := by
  induction lines with
  | nil => exact hlast
  | cons old lines ih =>
      unfold drop
      split
      · exact hlast
      · next hnot =>
        rcases List.suffix_cons_iff.mp hlast with rfl | hrest
        · exact absurd hfits hnot
        · exact ih hrest

theorem Longest.save (h : Longest all lines) (hline : line.length ≤ bufsize - 2) :
    Longest (all ++ [line]) (drop line lines ++ [line]) where
  suffix := by
    obtain ⟨first, hfirst⟩ := (drop_suffix line lines).trans h.suffix
    exact ⟨first, by rw [← List.append_assoc, hfirst]⟩
  fits := drop_fits hline
  longest last hlast hfits := by
    rcases List.suffix_concat_iff.mp hlast with rfl | ⟨first, rfl, hfirst⟩
    · exact List.nil_suffix
    · have hold : Fits first := by
        unfold Fits at *
        rw [bytes_concat, List.length_append] at hfits
        omega
      obtain ⟨more, hmore⟩ := drop_longest (h.longest first hfirst hold) hfits
      exact ⟨more, by rw [← List.append_assoc, hmore]⟩

end Past

end KS10
