import KS10.Console.History

/-!
# The history of the console recalls its lines

The ring is the abstract history after all saves and recalls (`Hist.Follows.run`).
-/

namespace KS10

open Clocked

/-! ## The lines in the ring -/

namespace Hist

open Past (record bytes)

/-- A line that the ring takes. -/
structure Legal (line : List (BitVec 8)) : Prop where
  pos : 1 ≤ line.length
  le : line.length ≤ bufsize - 2

/-- The lines, with their lengths, and a zero behind them are in the ring from `header` on. -/
structure Stored (buffer : Nat → BitVec 8) (header : Nat) (lines : List (List (BitVec 8))) :
    Prop where
  lt : header < bufsize
  fits : Past.Fits lines
  legal : ∀ line ∈ lines, Legal line
  cells : Ring.contents bufsize buffer header ((bytes lines).length + 1) = bytes lines ++ [0]

variable {buffer : Nat → BitVec 8} {header size : Nat} {line : List (BitVec 8)}
  {lines : List (List (BitVec 8))}

theorem wrap_eq (hheader : header < bufsize) (hsize : size ≤ bufsize) :
    wrap (header + size) = Ring.slot bufsize header size := by
  unfold wrap Ring.slot bufsize at *
  split
  · rw [Nat.mod_eq_sub_mod (by omega), Nat.mod_eq_of_lt (by omega)]
  · rw [Nat.mod_eq_of_lt (by omega)]

theorem wrap_succ (hheader : header < bufsize) : wrap (header + 1) = Ring.succ bufsize header := by
  rw [wrap_eq hheader (by decide), Ring.succ_eq_mod hheader]
  rfl

theorem copy_eq (hheader : header < bufsize) :
    copy buffer size header = Ring.contents bufsize buffer header size := by
  induction size generalizing header with
  | zero => rfl
  | succ size ih =>
      unfold copy
      rw [wrap_succ hheader, ih (Ring.succ_lt hheader)]
      rfl

theorem toNat_length (h : Legal line) : (BitVec.ofNat 8 line.length).toNat = line.length := by
  have hle := h.le
  unfold bufsize at hle
  rw [BitVec.toNat_ofNat, Nat.mod_eq_of_lt (by omega)]

/-- At the end of the lines there is a zero. -/
theorem Stored.nil (h : Stored buffer header []) : buffer header = 0 :=
  List.head_eq_of_cons_eq h.cells

theorem Stored.length (h : Stored buffer header (line :: lines)) :
    (buffer header).toNat = line.length := by
  have hcells := h.cells
  rw [Past.bytes_cons, List.length_append, Past.length_record, Nat.add_right_comm,
    Nat.add_right_comm, Ring.contents_succ] at hcells
  rw [List.head_eq_of_cons_eq hcells]
  exact toNat_length (h.legal line List.mem_cons_self)

theorem Stored.ne_zero (h : Stored buffer header (line :: lines)) : buffer header ≠ 0 := by
  intro hzero
  have hlen := h.length
  have hpos := (h.legal line List.mem_cons_self).pos
  rw [hzero] at hlen
  have hzero' : (0 : BitVec 8).toNat = 0 := rfl
  omega

/-- The first line, and the rest behind it. -/
theorem Stored.split (h : Stored buffer header (line :: lines)) :
    Ring.contents bufsize buffer header (line.length + 1) = record line ∧
      Ring.contents bufsize buffer (skip buffer header) ((bytes lines).length + 1) =
        bytes lines ++ [0] := by
  have hle := (h.legal line List.mem_cons_self).le
  have hcells := h.cells
  rw [Past.bytes_cons, List.length_append, Past.length_record, Nat.add_assoc,
    Ring.contents_add _ _ h.lt, List.append_assoc] at hcells
  have hskip : skip buffer header = Ring.slot bufsize header (line.length + 1) := by
    unfold skip
    rw [h.length, Nat.add_assoc]
    exact wrap_eq h.lt (by unfold bufsize at *; omega)
  rw [hskip]
  exact List.append_inj hcells (Ring.length_contents _ _ _)

theorem Stored.skip (h : Stored buffer header (line :: lines)) :
    Stored buffer (skip buffer header) lines where
  lt := by
    unfold Hist.skip
    rw [h.length, Nat.add_assoc, wrap_eq h.lt]
    · exact Ring.slot_lt (by decide)
    · have hle := (h.legal line List.mem_cons_self).le
      unfold bufsize at *
      omega
  fits := h.fits.suffix (List.suffix_cons line lines)
  legal l hl := h.legal l (List.mem_cons_of_mem line hl)
  cells := h.split.2

/-- The copy of an entry is its line. -/
theorem Stored.copybuffer {h : Hist} (hstored : Stored h.buffer header (line :: lines)) :
    h.copybuffer header = Past.recalled line := by
  have hcells := hstored.split.1
  rw [Ring.contents_succ] at hcells
  unfold Hist.copybuffer Past.recalled
  rw [hstored.length, copy_eq, wrap_succ hstored.lt, List.tail_eq_of_cons_eq hcells]
  rw [wrap_succ hstored.lt]
  exact Ring.succ_lt hstored.lt

theorem Stored.copybuffer_nil {h : Hist} (hstored : Stored h.buffer header []) :
    h.copybuffer header = Past.recalled [] := by
  unfold Hist.copybuffer
  rw [hstored.nil]
  rfl

/-! ## The walk over the headers -/

theorem length_lines (hfits : Past.Fits lines) (hlegal : ∀ line ∈ lines, Legal line) :
    2 * lines.length < bufsize := by
  have hbytes : 2 * lines.length ≤ (bytes lines).length := by
    clear hfits
    induction lines with
    | nil => exact Nat.zero_le _
    | cons line lines ih =>
        have hpos := (hlegal line List.mem_cons_self).pos
        have hrest := ih fun l hl => hlegal l (List.mem_cons_of_mem line hl)
        rw [Past.bytes_cons, List.length_append, Past.length_record, List.length_cons]
        omega
  unfold Past.Fits at hfits
  omega

/-- The walk stops at the first entry whose number it looks for, or behind the last one. -/
theorem Stored.walk (h : Stored buffer header lines) (brk : Nat → Bool) (i : Nat) {fuel : Nat}
    (hfuel : lines.length < fuel) :
    ∃ k q, walk buffer brk fuel i header = some (i + k, q) ∧ k ≤ lines.length ∧
      Stored buffer q (lines.drop k) ∧ (k < lines.length → brk (i + k) = true) ∧
        ∀ j, j < k → brk (i + j) = false := by
  induction lines generalizing header i fuel with
  | nil =>
      obtain ⟨fuel, rfl⟩ := Nat.exists_eq_succ_of_ne_zero (Nat.ne_of_gt hfuel)
      refine ⟨0, header, ?_, Nat.le_refl _, h, fun hlt => absurd hlt (Nat.lt_irrefl 0),
        fun j hj => absurd hj (Nat.not_lt_zero j)⟩
      exact if_pos h.nil
  | cons line lines ih =>
      obtain ⟨fuel, rfl⟩ := Nat.exists_eq_succ_of_ne_zero (Nat.ne_of_gt (Nat.zero_lt_of_lt hfuel))
      rw [List.length_cons, Nat.succ_lt_succ_iff] at hfuel
      unfold Hist.walk
      rw [if_neg h.ne_zero]
      cases hbrk : brk i with
      | true =>
          exact ⟨0, header, rfl, Nat.zero_le _, h, fun _ => hbrk,
            fun j hj => absurd hj (Nat.not_lt_zero j)⟩
      | false =>
          rw [if_neg Bool.false_ne_true]
          obtain ⟨k, q, hwalk, hk, hstored, hstop, hpass⟩ := ih h.skip (i + 1) hfuel
          refine ⟨k + 1, q, ?_, Nat.succ_le_succ hk, hstored, fun hlt => ?_, fun j hj => ?_⟩
          · rw [hwalk, Nat.add_assoc, Nat.add_comm 1 k]
          · rw [← Nat.add_assoc, Nat.add_right_comm]
            exact hstop (Nat.lt_of_succ_lt_succ hlt)
          · cases j with
            | zero => exact hbrk
            | succ j =>
                have hj' := hpass j (Nat.lt_of_succ_lt_succ hj)
                rwa [Nat.add_assoc, Nat.add_comm 1 j] at hj'

/-! ## Saves -/

/-- The ring holds the lines. -/
structure Holds (h : Hist) (lines : List (List (BitVec 8))) : Prop where
  stored : Stored h.buffer h.head lines
  tail : h.tail = Ring.slot bufsize h.head (bytes lines).length

variable {h : Hist}

/-- The test for room is exact. -/
theorem Holds.room (hh : h.Holds (line :: lines)) :
    h.room size = true ↔ (bytes (line :: lines)).length + size + 2 ≤ bufsize := by
  have hlt := hh.stored.lt
  have hfits := hh.stored.fits
  have hpos : 0 < (bytes (line :: lines)).length := by
    rw [Past.bytes_cons, List.length_append, Past.length_record]
    omega
  have htail := hh.tail
  unfold Past.Fits at hfits
  unfold Hist.room
  unfold Ring.slot bufsize at *
  by_cases hwrap : h.head + (bytes (line :: lines)).length < 128
  · rw [Nat.mod_eq_of_lt hwrap] at htail
    rw [if_neg (by omega), decide_eq_true_iff]
    omega
  · rw [Nat.mod_eq_sub_mod (by omega), Nat.mod_eq_of_lt (by omega)] at htail
    rw [if_pos (by omega), decide_eq_true_iff]
    omega

/-- The loop that deletes entries ends with the lines that leave room. -/
theorem Holds.findfree (hh : h.Holds lines) (line : List (BitVec 8)) {fuel : Nat}
    (hfuel : lines.length < fuel) : ∃ h', findfree line.length fuel h = some h' ∧
      h'.buffer = h.buffer ∧ h'.Holds (Past.drop line lines) := by
  induction lines generalizing h fuel with
  | nil =>
      obtain ⟨fuel, rfl⟩ := Nat.exists_eq_succ_of_ne_zero (Nat.ne_of_gt hfuel)
      exact ⟨h, if_pos hh.stored.nil, rfl, hh⟩
  | cons old lines ih =>
      obtain ⟨fuel, rfl⟩ := Nat.exists_eq_succ_of_ne_zero (Nat.ne_of_gt (Nat.zero_lt_of_lt hfuel))
      rw [List.length_cons, Nat.succ_lt_succ_iff] at hfuel
      have hroom : h.room line.length = true ↔ Past.Fits (old :: lines ++ [line]) := by
        rw [hh.room]
        unfold Past.Fits
        rw [Past.bytes_concat, List.length_append, Past.length_record]
        omega
      unfold Hist.findfree Past.drop
      rw [if_neg hh.stored.ne_zero]
      by_cases hfits : Past.Fits (old :: lines ++ [line])
      · rw [if_pos (hroom.mpr hfits), if_pos hfits]
        exact ⟨h, rfl, rfl, hh⟩
      · rw [if_neg fun hr => hfits (hroom.mp hr), if_neg hfits]
        refine ih ⟨hh.stored.skip, ?_⟩ hfuel
        have hle := (hh.stored.legal old List.mem_cons_self).le
        have hskip : skip h.buffer h.head = Ring.slot bufsize h.head (old.length + 1) := by
          unfold skip
          rw [hh.stored.length, Nat.add_assoc]
          exact wrap_eq hh.stored.lt (by unfold bufsize at *; omega)
        show h.tail = Ring.slot bufsize (skip h.buffer h.head) (bytes lines).length
        have hsum : h.head + (old.length + 1 + (bytes lines).length) =
            h.head + (old.length + 1) + (bytes lines).length := by omega
        rw [hh.tail, hskip, Past.bytes_cons, List.length_append, Past.length_record]
        unfold Ring.slot
        rw [Nat.mod_add_mod, hsum]

theorem store_eq (cs : List (BitVec 8)) (htail : h.tail < bufsize) :
    h.store cs =
      { h with
        buffer := Ring.write bufsize h.buffer h.tail cs
        tail := Ring.slot bufsize h.tail cs.length } := by
  induction cs generalizing h with
  | nil =>
      unfold store Ring.write
      rw [List.length_nil, Ring.slot_zero htail]
  | cons c cs ih =>
      unfold store
      rw [wrap_succ htail, ih (Ring.succ_lt htail)]
      dsimp only
      rw [Ring.slot_succ htail]
      rfl

theorem close_eq (htail : h.tail < bufsize) : h.close line =
    { h with
      buffer := Ring.write bufsize h.buffer h.tail (record line ++ [0])
      tail := Ring.slot bufsize h.tail (record line).length
      index := 0 } := by
  unfold close
  rw [Ring.write_concat _ _ _ htail, store_eq _ htail]
  rfl

theorem append_eq (htail : h.tail < bufsize) (hhead : h.buffer h.head = 0 → h.tail = h.head) :
    h.append line = h.close line := by
  unfold append
  split
  · next hzero =>
    -- The length that is stored for the empty ring is stored again.
    let h' :=
      { h with buffer := Function.update h.buffer h.head (BitVec.ofNat 8 line.length) }
    have hput : h'.close line = _ := close_eq htail
    rw [hput, close_eq htail]
    show Hist.mk (Ring.write bufsize (Function.update (Function.update _ _ _) _ _) _ _) _ _ _ = _
    rw [← hhead hzero, Function.update_idem]
    rfl
  · rfl

/-- The new line comes behind the ones that are left. -/
theorem Holds.save (hh : h.Holds lines) (hline : Legal line) :
    ∃ h', h.save line = some h' ∧ h'.Holds (Past.drop line lines ++ [line]) ∧ h'.index = 0 := by
  have hpos := hline.pos
  have hle := hline.le
  have hcount := length_lines hh.stored.fits hh.stored.legal
  have hfuel : lines.length < bufsize := by omega
  obtain ⟨h₁, hfree, -, hold⟩ := hh.findfree line hfuel
  have hfits : Past.Fits (Past.drop line lines ++ [line]) := Past.drop_fits hline.le
  have hlegal : ∀ l ∈ Past.drop line lines ++ [line], Legal l := by
    intro l hl
    rcases List.mem_append.mp hl with hl | hl
    · exact hold.stored.legal l hl
    · rw [List.mem_singleton.mp hl]
      exact hline
  have htail : h₁.tail < bufsize := by
    rw [hold.tail]
    exact Ring.slot_lt (by decide)
  have hhead : h₁.buffer h₁.head = 0 → h₁.tail = h₁.head := by
    intro hzero
    have hnil : Past.drop line lines = [] := by
      cases hdrop : Past.drop line lines with
      | nil => rfl
      | cons old rest =>
          rw [hdrop] at hold
          exact absurd hzero hold.stored.ne_zero
    rw [hold.tail, hnil]
    exact Ring.slot_zero hold.stored.lt
  have hguard : ¬ (line.length > bufsize - 2 || line.length = 0) = true := by
    simp only [Bool.or_eq_true, decide_eq_true_eq]
    omega
  unfold Hist.save
  rw [if_neg hguard, hfree]
  refine ⟨_, congrArg some ((append_eq htail hhead).trans (close_eq htail)),
    ⟨⟨hold.stored.lt, hfits, hlegal, ?_⟩, ?_⟩, rfl⟩
  · show Ring.contents bufsize (Ring.write bufsize h₁.buffer h₁.tail _) h₁.head _ = _
    have hcells := hold.stored.cells
    rw [Ring.contents_add _ _ hold.stored.lt] at hcells
    have hlen : (bytes (Past.drop line lines ++ [line])).length + 1 =
        (bytes (Past.drop line lines)).length + (record line ++ [0]).length := by
      rw [Past.bytes_concat, List.length_append, List.length_append, Nat.add_assoc]
      rfl
    have hroom : (bytes (Past.drop line lines)).length + (record line ++ [0]).length ≤ bufsize := by
      rw [← hlen]
      exact hfits
    rw [hlen, hold.tail, Ring.contents_write _ _ hold.stored.lt hroom,
      List.append_inj_left hcells (Ring.length_contents _ _ _), Past.bytes_concat,
      List.append_assoc]
  · show Ring.slot bufsize h₁.tail _ = Ring.slot bufsize h₁.head _
    rw [hold.tail, Past.bytes_concat, List.length_append]
    unfold Ring.slot
    rw [Nat.mod_add_mod, Nat.add_assoc]

/-- The zero behind the lines is at the tail. -/
theorem Holds.terminator (hh : h.Holds lines) : h.buffer h.tail = 0 := by
  have hcells := hh.stored.cells
  rw [Ring.contents_add _ _ hh.stored.lt, ← hh.tail] at hcells
  exact List.head_eq_of_cons_eq (List.append_inj_right hcells (Ring.length_contents _ _ _))

/-! ## Recalls -/

theorem Holds.length (hh : h.Holds lines) : lines.length < 64 := by
  have hlt := length_lines hh.stored.fits hh.stored.legal
  unfold bufsize at hlt
  omega

theorem Holds.entries (hh : h.Holds lines) : h.entries = some lines.length := by
  have hfuel : lines.length < bufsize := Nat.lt_trans hh.length (by decide)
  obtain ⟨k, q, hwalk, hk, -, hstop, -⟩ := hh.stored.walk (fun _ => false) 0 hfuel
  have hend : k = lines.length := by
    rcases Nat.lt_or_eq_of_le hk with hlt | heq
    · exact absurd (hstop hlt) Bool.false_ne_true
    · exact heq
  unfold Hist.entries
  rw [hwalk, Nat.zero_add, hend]
  rfl

/-- The entry that is found is the first one whose number fits, or the end. -/
theorem Holds.find (hh : h.Holds lines) (num index : Nat) :
    ∃ k q, h.find num index = some q ∧ k ≤ lines.length ∧ Stored h.buffer q (lines.drop k) ∧
      (k < lines.length → sub num k = index) ∧ ∀ j, j < k → sub num j ≠ index := by
  have hfuel : lines.length < bufsize := Nat.lt_trans hh.length (by decide)
  obtain ⟨k, q, hwalk, hk, hstored, hstop, hpass⟩ :=
    hh.stored.walk (fun i => sub num i == index) 0 hfuel
  simp only [Nat.zero_add, beq_iff_eq, beq_eq_false_iff_ne] at hwalk hstop hpass
  refine ⟨k, q, ?_, hk, hstored, hstop, hpass⟩
  unfold Hist.find
  rw [hwalk]
  rfl

theorem sub_eq {a b : Nat} (hle : b ≤ a) (hlt : a < 2 ^ 32) : sub a b = a - b := by
  unfold sub
  rw [Nat.add_comm, Nat.add_sub_assoc hle, Nat.add_mod_left, Nat.mod_eq_of_lt (by omega)]

/-- The line that the entry `k` of the ring has. -/
theorem drop_back {p : Past} {k n : Nat} (hlines : p.lines = lines)
    (hsum : k + n + 1 = lines.length) :
    ∃ line rest, lines.drop k = line :: rest ∧ p.back n = some line := by
  have hk : k < lines.length := by omega
  refine ⟨lines[k], lines.drop (k + 1), List.drop_eq_getElem_cons hk, ?_⟩
  unfold Past.back
  rw [hlines, List.getElem?_reverse (by omega), List.getElem?_eq_getElem (by omega)]
  congr 2
  omega

theorem Holds.recall_up (hh : h.Holds lines) (hindex : h.index ≤ lines.length) :
    h.recallLine .up = some (((Past.mk lines h.index).recallLine .up).1,
      { h with index := ((Past.mk lines h.index).recallLine .up).2.index }) := by
  have hlt := hh.length
  obtain ⟨k, q, hfind, hk, hstored, hstop, hpass⟩ := hh.find (sub lines.length 1) h.index
  unfold Hist.recallLine
  rw [hh.entries]
  show (h.find (sub lines.length 1) h.index).bind _ = _
  rw [hfind, Option.bind_some]
  unfold Past.recallLine
  rcases Nat.lt_or_eq_of_le hindex with hless | hall
  · have hnum : sub lines.length 1 = lines.length - 1 := sub_eq (by omega) (by omega)
    rw [hnum] at hstop hpass
    have hle : k ≤ lines.length - 1 - h.index := by
      by_contra hgt
      refine hpass (lines.length - 1 - h.index) (by omega) ?_
      rw [sub_eq (by omega) (by omega)]
      omega
    have hat := hstop (by omega)
    rw [sub_eq (by omega) (by omega)] at hat
    obtain ⟨line, rest, hdrop, hback⟩ :=
      drop_back (p := ⟨lines, h.index⟩) rfl (show k + h.index + 1 = lines.length by omega)
    rw [hdrop] at hstored
    have hguard : (h.index ≤ lines.length && h.buffer q != 0) = true := by
      rw [Bool.and_eq_true, decide_eq_true_eq, bne_iff_ne]
      exact ⟨hindex, hstored.ne_zero⟩
    dsimp only
    rw [if_pos hguard, hback, hstored.copybuffer]
  · have hend : k = lines.length := by
      rcases Nat.lt_or_eq_of_le hk with hless | heq
      · have hnum : sub lines.length 1 = lines.length - 1 := sub_eq (by omega) (by omega)
        have hat := hstop hless
        rw [hnum, sub_eq (by omega) (by omega)] at hat
        omega
      · exact heq
    rw [hend, List.drop_length] at hstored
    have hguard : ¬ (h.index ≤ lines.length && h.buffer q != 0) = true := by
      rw [hstored.nil, bne_self_eq_false, Bool.and_false]
      exact Bool.false_ne_true
    have hback : (Past.mk lines h.index).back h.index = none := by
      unfold Past.back
      rw [List.getElem?_eq_none_iff, List.length_reverse]
      exact Nat.le_of_eq hall.symm
    dsimp only
    rw [if_neg hguard, hback]

theorem Holds.recall_down (hh : h.Holds lines) (hindex : h.index ≤ lines.length) :
    h.recallLine .down = some (((Past.mk lines h.index).recallLine .down).1,
      { h with index := ((Past.mk lines h.index).recallLine .down).2.index }) := by
  have hlt := hh.length
  obtain ⟨k, q, hfind, hk, hstored, hstop, hpass⟩ := hh.find (lines.length + 1) h.index
  unfold Hist.recallLine
  rw [hh.entries]
  show (h.find (lines.length + 1) h.index).bind _ = _
  rw [hfind, Option.bind_some]
  have hend : h.index ≤ 1 → Stored h.buffer q [] := by
    intro hlow
    have heq : k = lines.length := by
      rcases Nat.lt_or_eq_of_le hk with hless | heq
      · have hat := hstop hless
        rw [sub_eq (by omega) (by omega)] at hat
        omega
      · exact heq
    rwa [heq, List.drop_length] at hstored
  unfold Past.recallLine
  dsimp only
  match hcase : h.index with
  | 0 =>
      have hsame : h = { h with index := 0 } := by rw [← hcase]
      rw [if_neg (Nat.lt_irrefl 0)]
      exact congrArg (fun h' => some (Past.recalled [], h')) hsame
  | 1 =>
      rw [if_pos Nat.one_pos, (hend (by omega)).copybuffer_nil]
  | n + 2 =>
      rw [hcase] at hstop hpass hindex
      have hle : k ≤ lines.length + 1 - (n + 2) := by
        by_contra hgt
        refine hpass (lines.length + 1 - (n + 2)) (by omega) ?_
        rw [sub_eq (by omega) (by omega)]
        omega
      have hat := hstop (by omega)
      rw [sub_eq (by omega) (by omega)] at hat
      obtain ⟨line, rest, hdrop, hback⟩ :=
        drop_back (p := ⟨lines, n + 2⟩) rfl (show k + n + 1 = lines.length by omega)
      rw [hdrop] at hstored
      rw [if_pos (Nat.succ_pos _), hstored.copybuffer]
      show _ = some (Past.recalled (((Past.mk lines (n + 2)).back n).getD []), _)
      rw [hback]
      rfl

/-! ## Runs -/

/-- The ring is the abstract history. -/
structure Follows (h : Hist) (p : Past) : Prop where
  holds : h.Holds p.lines
  index : h.index = p.index
  le : p.index ≤ p.lines.length

variable {p : Past} {op : Op} {ops : List Op}

/-- The lines that are saved are lines that the ring takes. -/
def Op.Legal : Op → Prop
  | .save line => Hist.Legal line
  | .recallLine _ => True

theorem recall_lines (p : Past) (dir : Dir) : (p.recallLine dir).2.lines = p.lines := by
  unfold Past.recallLine
  cases dir <;> dsimp only <;> split <;> rfl

/-- A recall gives a line of the history or an empty line, or it gives nothing. -/
theorem recall_cases (p : Past) (dir : Dir) : (p.recallLine dir).1 = ⟨-1, []⟩ ∨
    ∃ line, (p.recallLine dir).1 = Past.recalled line ∧ (line = [] ∨ line ∈ p.lines) := by
  have hback : ∀ {k line}, p.back k = some line → line ∈ p.lines := fun hat =>
    List.mem_reverse.mp (List.mem_of_getElem? hat)
  unfold Past.recallLine
  cases dir with
  | up =>
      dsimp only
      split
      · next line hat => exact .inr ⟨line, rfl, .inr (hback hat)⟩
      · exact .inl rfl
  | down =>
      dsimp only
      split
      · exact .inr ⟨[], rfl, .inl rfl⟩
      · exact .inr ⟨[], rfl, .inl rfl⟩
      · next k hk =>
        refine .inr ⟨_, rfl, ?_⟩
        cases hat : p.back k with
        | none => exact .inl rfl
        | some line => exact .inr (hback hat)

theorem recall_le (dir : Dir) (hle : p.index ≤ p.lines.length) :
    (p.recallLine dir).2.index ≤ p.lines.length := by
  unfold Past.recallLine
  cases dir with
  | up =>
      dsimp only
      split
      · next hback =>
        obtain ⟨hlt, -⟩ := List.getElem?_eq_some_iff.mp hback
        rw [List.length_reverse] at hlt
        exact hlt
      · exact hle
  | down =>
      dsimp only
      split
      · exact hle
      · exact Nat.zero_le _
      · next hcase =>
        show _ + 1 ≤ _
        omega

theorem Follows.save (hf : h.Follows p) (hline : Legal line) :
    ∃ h', h.save line = some h' ∧ h'.Follows (p.save line) := by
  obtain ⟨h', hsave, hholds, hindex⟩ := hf.holds.save hline
  exact ⟨h', hsave, hholds, hindex, Nat.zero_le _⟩

theorem Follows.recallLine (hf : h.Follows p) (dir : Dir) :
    ∃ h', h.recallLine dir = some ((p.recallLine dir).1, h') ∧ h'.Follows (p.recallLine dir).2 := by
  have hle : h.index ≤ p.lines.length := hf.index ▸ hf.le
  have hpast : Past.mk p.lines h.index = p := by rw [hf.index]
  have hrecall : h.recallLine dir =
      some ((p.recallLine dir).1, { h with index := (p.recallLine dir).2.index }) := by
    rw [← hpast]
    cases dir with
    | up => exact hf.holds.recall_up hle
    | down => exact hf.holds.recall_down hle
  refine ⟨{ h with index := (p.recallLine dir).2.index }, hrecall, ⟨?_, ?_⟩, rfl, ?_⟩
  · show Stored h.buffer h.head (p.recallLine dir).2.lines
    rw [recall_lines]
    exact hf.holds.stored
  · show h.tail = Ring.slot bufsize h.head (bytes (p.recallLine dir).2.lines).length
    rw [recall_lines]
    exact hf.holds.tail
  · show (p.recallLine dir).2.index ≤ (p.recallLine dir).2.lines.length
    rw [recall_lines]
    exact recall_le dir hf.le

theorem Follows.step (hf : h.Follows p) (hop : op.Legal) :
    ∃ h', h.step op = some (h', (p.step op).2) ∧ h'.Follows (p.step op).1 := by
  cases op with
  | save line =>
      obtain ⟨h', hsave, hnext⟩ := hf.save hop
      refine ⟨h', ?_, hnext⟩
      show (h.save line).map _ = _
      rw [hsave]
      rfl
  | recallLine dir =>
      obtain ⟨h', hrecall, hnext⟩ := hf.recallLine dir
      refine ⟨h', ?_, hnext⟩
      show (h.recallLine dir).map _ = _
      rw [hrecall]
      rfl

/-- The saves and recalls come to an end, and they do what the abstract history does. -/
theorem Follows.run (hf : h.Follows p) (hops : ∀ op ∈ ops, op.Legal) :
    ∃ h', h.run ops = some (h', (p.run ops).2) ∧ h'.Follows (p.run ops).1 := by
  induction ops generalizing h p with
  | nil => exact ⟨h, rfl, hf⟩
  | cons op ops ih =>
      obtain ⟨h₁, hstep, hf₁⟩ := hf.step (hops op List.mem_cons_self)
      obtain ⟨h₂, hrun, hf₂⟩ := ih hf₁ fun o ho => hops o (List.mem_cons_of_mem op ho)
      refine ⟨h₂, ?_, hf₂⟩
      unfold Hist.run
      rw [hstep]
      show (h₁.run ops).bind _ = _
      rw [hrun]
      rfl

theorem follows_init : init.Follows ⟨[], 0⟩ where
  holds :=
    { stored := ⟨by decide, by decide, nofun, rfl⟩
      tail := rfl }
  index := rfl
  le := Nat.le_refl 0

theorem longest_run {all : List (List (BitVec 8))} (h : Past.Longest all p.lines)
    (hops : ∀ op ∈ ops, op.Legal) :
    Past.Longest (all ++ Past.saved ops) (p.run ops).1.lines := by
  induction ops generalizing p all with
  | nil =>
      unfold Past.saved
      rw [List.append_nil]
      exact h
  | cons op ops ih =>
      have hrest : ∀ o ∈ ops, o.Legal := fun o ho => hops o (List.mem_cons_of_mem op ho)
      cases op with
      | save line =>
          have hline : Legal line := hops (.save line) List.mem_cons_self
          have hnext := ih (p := p.save line) (h.save hline.le) hrest
          rw [List.append_assoc] at hnext
          exact hnext
      | recallLine dir =>
          refine ih (p := (p.recallLine dir).2) ?_ hrest
          rw [recall_lines]
          exact h

theorem index_of_save (ops : List Op) (line : List (BitVec 8)) (p : Past) :
    (p.run (ops ++ [.save line])).1.index = 0 := by
  induction ops generalizing p with
  | nil => rfl
  | cons op ops ih => exact ih (p.step op).1

theorem older_eq {p q : Past} (hlines : p.lines = q.lines) (k : Nat) : p.older k = q.older k := by
  unfold Past.older Past.back
  rw [hlines]

theorem newer_eq {p q : Past} (hlines : p.lines = q.lines) (k : Nat) : p.newer k = q.newer k := by
  unfold Past.newer Past.back
  rw [hlines]

/-- Recalls up go on to the oldest line. -/
theorem run_up (p : Past) (n : Nat) : (p.run (List.replicate n (.recallLine .up))).2 =
    (List.range n).map fun k => p.older (p.index + k) := by
  induction n generalizing p with
  | zero => rfl
  | succ n ih =>
      rw [List.replicate_succ, List.range_succ_eq_map, List.map_cons, List.map_map]
      show (p.recallLine .up).1 :: ((p.recallLine .up).2.run _).2 = _
      rw [ih]
      cases hback : p.back p.index with
      | some line =>
          have hrecall : p.recallLine .up = (Past.recalled line, { p with index := p.index + 1 }) := by
            unfold Past.recallLine
            rw [hback]
          have hfirst : p.older p.index = Past.recalled line := by
            unfold Past.older
            rw [hback]
          rw [hrecall]
          show Past.recalled line :: _ = p.older p.index :: _
          rw [hfirst]
          refine congrArg _ (List.map_congr_left fun k _ => ?_)
          show Past.older _ (p.index + 1 + k) = p.older (p.index + (k + 1))
          rw [Nat.add_assoc, Nat.add_comm 1 k]
          exact older_eq rfl _
      | none =>
          have hlast : ∀ k, p.older (p.index + k) = ⟨-1, []⟩ := by
            intro k
            have hnone : p.back (p.index + k) = none := by
              unfold Past.back at *
              rw [List.getElem?_eq_none_iff] at *
              omega
            unfold Past.older
            rw [hnone]
          have hrecall : p.recallLine .up = (⟨-1, []⟩, p) := by
            unfold Past.recallLine
            rw [hback]
          rw [hrecall, hlast 0]
          refine congrArg _ (List.map_congr_left fun k _ => ?_)
          exact (hlast k).trans (hlast (k + 1)).symm

/-- Recalls down go back to the newest line. -/
theorem run_down (p : Past) (n : Nat) : (p.run (List.replicate n (.recallLine .down))).2 =
    (List.range n).map fun k => p.newer (p.index - k) := by
  induction n generalizing p with
  | zero => rfl
  | succ n ih =>
      have hrecall : (p.recallLine .down).1 = p.newer p.index ∧
          (p.recallLine .down).2.index = p.index - 1 := by
        unfold Past.recallLine Past.newer
        dsimp only
        split
        · next hzero => exact ⟨rfl, by rw [hzero]⟩
        · next hone => exact ⟨rfl, by rw [hone]⟩
        · next k hmore => exact ⟨rfl, by rw [hmore]; rfl⟩
      rw [List.replicate_succ, List.range_succ_eq_map, List.map_cons, List.map_map]
      show (p.recallLine .down).1 :: ((p.recallLine .down).2.run _).2 = _
      rw [ih, hrecall.1, hrecall.2, Nat.sub_zero]
      refine congrArg _ (List.map_congr_left fun k _ => ?_)
      show _ = p.newer (p.index - (k + 1))
      rw [Nat.sub_sub, Nat.add_comm 1 k]
      exact newer_eq (recall_lines p .down) _

/-- The ring holds the last of the lines that have been saved, as many as fit, and a search for
free space comes to an end.  Recalls up give older and older lines, from the newest one after a
save, and recalls down go back again. -/
structure Remembers (ops : List Op) (h : Hist) (p : Past) : Prop where
  longest : Past.Longest (Past.saved ops) p.lines
  holds : h.Holds p.lines
  terminator : h.buffer h.tail = 0
  findfree : ∀ line : List (BitVec 8), (Hist.findfree line.length bufsize h).isSome = true
  /-- The recalls go on from here. -/
  newest : ∀ line first, ops = first ++ [.save line] → p.index = 0
  up : ∀ n, ∃ h', h.run (List.replicate n (.recallLine .up)) =
    some (h', (List.range n).map fun k => p.older (p.index + k))
  down : ∀ n, ∃ h', h.run (List.replicate n (.recallLine .down)) =
    some (h', (List.range n).map fun k => p.newer (p.index - k))

theorem recalls_lines (ops : List Op) (hops : ∀ op ∈ ops, op.Legal) :
    ∃ h p, init.run ops = some (h, ((Past.mk [] 0).run ops).2) ∧
      ((Past.mk [] 0).run ops).1 = p ∧ Remembers ops h p := by
  obtain ⟨h, hrun, hf⟩ := follows_init.run hops
  have hnone : Past.Longest [] [] :=
    ⟨List.suffix_refl [], by decide, fun _ hlast _ => hlast⟩
  have hups : ∀ dir n, ∀ op ∈ List.replicate n (Op.recallLine dir), op.Legal := by
    intro dir n op hop
    rw [List.eq_of_mem_replicate hop]
    trivial
  refine ⟨h, _, hrun, rfl, ?_, hf.holds, hf.holds.terminator, ?_, ?_, ?_, ?_⟩
  · have hlong := longest_run (p := ⟨[], 0⟩) hnone hops
    rw [List.nil_append] at hlong
    exact hlong
  · intro line
    have hfuel : (Past.run ⟨[], 0⟩ ops).1.lines.length < bufsize :=
      Nat.lt_trans hf.holds.length (by decide)
    obtain ⟨h', hfree, -⟩ := hf.holds.findfree line hfuel
    rw [hfree]
    rfl
  · rintro line first rfl
    exact index_of_save first line _
  · intro n
    obtain ⟨h', hrun, -⟩ := hf.run (hups .up n)
    rw [run_up] at hrun
    exact ⟨h', hrun⟩
  · intro n
    obtain ⟨h', hrun, -⟩ := hf.run (hups .down n)
    rw [run_down] at hrun
    exact ⟨h', hrun⟩

/-- Two lines, and recalls up to the beginning and down again. -/
def twoLines : List Op :=
  [.save [65, 66], .save [67], .recallLine .up, .recallLine .up, .recallLine .up, .recallLine .down]

theorem recalls_lines_two :
    ((Past.mk [] 0).run twoLines).2 = [⟨1, [67]⟩, ⟨2, [65, 66]⟩, ⟨-1, []⟩, ⟨1, [67]⟩] ∧
      ∃ h p, init.run twoLines = some (h, ((Past.mk [] 0).run twoLines).2) ∧
        ((Past.mk [] 0).run twoLines).1 = p ∧ Remembers twoLines h p := by
  refine ⟨by decide, recalls_lines twoLines fun op hop => ?_⟩
  unfold twoLines at hop
  simp only [List.mem_cons, List.not_mem_nil, or_false] at hop
  rcases hop with rfl | rfl | rfl | rfl | rfl | rfl
  · exact ⟨by decide, by decide⟩
  · exact ⟨by decide, by decide⟩
  all_goals trivial

end Hist

end KS10
