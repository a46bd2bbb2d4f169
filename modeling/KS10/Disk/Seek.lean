import KS10.Disk.Disks

/-!
# How a drive comes to its data

A data command begins with a search for the sector, after a seek if the cylinder changes.
The search ends with the data.  `RpCtrl.Reaches` lists the ways that lead to a search or to
the data, with what each of them says of the registers; every other state of the drive is
on none of them (`next_other`).
-/

namespace KS10

namespace RpCtrl

/-! ## Searches and data -/

variable {s t k : RpCtrl} {i : In}

/-- The states of a data command up to its data. -/
def seeks : State → Bool
  | .seeksearch | .search => true
  | _ => false

/-- The states in which a sector is searched for or transferred. -/
def busy (st : State) : Bool := seeks st || st == .data

/-- The states in which a command moves the heads, searches or has its data. -/
def acting : State → Bool
  | .offset | .unload | .recal | .seek | .seeksearch | .search | .data => true
  | _ => false

/-- Nothing has changed but the state and what the searches use. -/
structure Goes (s t : RpCtrl) : Prop where
  rpDRY : t.rpDRY = s.rpDRY
  rpSDOP : t.rpSDOP = s.rpSDOP
  rpADRSTRT : t.rpADRSTRT = false
  rpEBL : t.rpEBL = false

/-- A data command has begun. -/
structure Begins (t : RpCtrl) : Prop where
  rpDRY : t.rpDRY = false
  rpADRSTRT : t.rpADRSTRT = true
  rpEBL : t.rpEBL = false
  delay : t.state = .search → t.delay ≠ 0

/-- How a clock leads to a search for a sector, or to its data. -/
inductive Reaches (s : RpCtrl) (i : In) (t : RpCtrl) : Prop where
  | begins (hs : s.state = .idle) (ht : seeks t.state = true) (h : Begins t)
  | seeks (hs : seeks s.state = true) (ht : seeks t.state = true) (h : Goes s t)
  | found (hs : s.state = .search) (ht : t.state = .data) (h : Goes s t)
      (hop : s.rpSDOP ≠ .nop) (hdmd : i.rpDMD = false) (herr : i.rpCLBERR = false)
      (hbusy : i.rpADRBUSY = false) (hdelay : s.delay = 0)
  | data (hs : s.state = .data) (ht : t.state = .data) (h : Goes s t)
      (haoe : i.rpSETAOE = false) (hack : i.rpSDACK = false)

/-! ## The other states

A set `p` of states that a field does not lead to, neither by going on nor by its end.
-/

variable {p : State → Bool}

theorem state_onBit (hdone : p .done = false) (hs : p s.state = false) (hk : p k.state = false) :
    p (s.onBit i k).state = false := by
  unfold onBit
  split
  · exact hdone
  · split
    · exact hk
    · exact hs

theorem state_countBits {last : Bool} {n : BitVec 8} (hs : p s.state = false)
    (hk : p k.state = false) : p (s.countBits last n k).state = false := by
  unfold countBits
  split
  · split
    · exact hk
    · exact hs
  · exact hs

theorem state_untilSync (hs : p s.state = false) (hk : p k.state = false) :
    p (s.untilSync i k).state = false := by
  unfold untilSync
  split
  · exact hk
  · split
    · exact hs
    · exact hs

theorem state_wait (hs : p s.state = false) (hk : p k.state = false) :
    p (s.wait i k).state = false := by
  unfold wait
  split
  · split
    · exact hs
    · exact hk
  · exact hs

/-- A drive that does not act ends the field it is in, and its command. -/
theorem not_acting_next (h : acting s.state = false) (hidle : s.state ≠ .idle) :
    acting (s.next i).state = false := by
  by_cases hclr : i.clr = true
  · rw [next, if_pos hclr]
    rfl
  · have hq : acting (s.quiet i).state = false := h
    rw [next, if_neg hclr]
    cases hst : s.state
    case rdfixecc | done => rfl
    case wrhdr | wrdata | wrecc | rdhdr | rddata | rdecc =>
      exact state_onBit rfl hq (state_countBits hq rfl)
    case rdprehdr | rdhdrgap => exact state_onBit rfl hq (state_untilSync hq rfl)
    case wrdatagap =>
      refine state_onBit rfl hq ?_
      split
      · rfl
      · exact hq
    case idle => exact absurd hst hidle
    all_goals
      rw [hst] at h
      cases h

theorem not_busy_of_not_acting {st : State} (h : acting st = false) : busy st = false := by
  cases st
  all_goals first | rfl | cases h

/-- The other states lead to none of these. -/
theorem next_other (h : busy s.state = false) (hidle : s.state ≠ .idle) :
    busy (s.next i).state = false := by
  by_cases hacts : acting s.state = true
  · by_cases hclr : i.clr = true
    · rw [next, if_pos hclr]
      rfl
    · have hq : busy (s.quiet i).state = false := h
      rw [next, if_neg hclr]
      cases hst : s.state
      case offset | recal | seek => exact state_wait hq rfl
      case unload => rfl
      case seeksearch | search | data =>
        rw [hst] at h
        cases h
      all_goals
        rw [hst] at hacts
        cases hacts
  · exact not_busy_of_not_acting (not_acting_next (Bool.not_eq_true _ ▸ hacts) hidle)

/-! ## The ready drive -/

theorem goes_quiet : Goes s (s.quiet i) := ⟨rfl, rfl, rfl, rfl⟩

theorem fixDELAY_ne_zero : fixDELAY ≠ 0 := by decide

theorem findSector_rpSDOP : (s.findSector i).rpSDOP = s.rpSDOP := by
  unfold findSector
  split
  · rfl
  · rfl

theorem seeks_findSector : seeks (s.findSector i).state = true := by
  unfold findSector
  split
  · rfl
  · rfl

theorem check_ski_state : (s.check_ski i).state = s.state := by
  unfold check_ski
  split
  · rfl
  · rfl

/-- A data command begins with a search, or with a seek before it. -/
theorem begins_transfer {op : SdOp} (h : s.rpEBL = false) :
    Begins (s.transfer i op) ∧ seeks (s.transfer i op).state = true := by
  unfold transfer findSector
  split
  · exact ⟨⟨rfl, rfl, h, fun _ => fixDELAY_ne_zero⟩, rfl⟩
  · exact ⟨⟨rfl, rfl, h, fun hst => nomatch hst⟩, rfl⟩

theorem begins_check_ski (h : Begins s ∧ seeks s.state = true) :
    Begins (s.check_ski i) ∧ seeks (s.check_ski i).state = true := by
  unfold check_ski
  split
  · exact ⟨⟨h.1.rpDRY, h.1.rpADRSTRT, h.1.rpEBL, h.1.delay⟩, h.2⟩
  · exact h

theorem begins_transferSki {op : SdOp} (h : s.rpEBL = false) :
    Begins (s.transferSki i op) ∧ seeks (s.transferSki i op).state = true := by
  unfold transferSki
  simp only
  split
  · exact begins_transfer h
  · exact begins_check_ski (begins_transfer h)

/-- Of the commands, only those of the data and the search lead to a search. -/
theorem command_busy {f : RpFun} (hebl : s.rpEBL = false)
    (h : busy (s.command i f).state = true) :
    (Begins (s.command i f) ∧ seeks (s.command i f).state = true) ∨
      (s.command i f).rpSDOP = .nop ∧ seeks (s.command i f).state = true := by
  cases f
  case wrchk => exact Or.inl (begins_transfer hebl)
  case wrchkh | write | writeh | read | readh => exact Or.inl (begins_transferSki hebl)
  case search => exact Or.inr ⟨findSector_rpSDOP, seeks_findSector⟩
  case seek =>
    simp only [command] at h
    split at h
    · cases h
    · rw [check_ski_state] at h
      cases h
  all_goals cases h

/-- The ready drive begins a data command, or one that has nothing to transfer. -/
theorem ready_busy {go : Bool} (hst : s.state = .idle) (hebl : s.rpEBL = false)
    (h : busy (s.ready i go).state = true) :
    (Begins (s.ready i go) ∧ seeks (s.ready i go).state = true) ∨
      (s.ready i go).rpSDOP = .nop ∧ seeks (s.ready i go).state = true := by
  have hno : busy s.state = false := by
    rw [hst]
    rfl
  unfold ready at h ⊢
  simp only at h ⊢
  split
  · rename_i f hf
    rw [hf] at h
    cases go with
    | true => exact command_busy hebl h
    | false => exact absurd (hno.symm.trans h) Bool.false_ne_true
  · rename_i hf
    rw [hf] at h
    exact absurd (hno.symm.trans h) Bool.false_ne_true

/-! ## The busy drive -/

/-- A seek goes on, or ends with the search. -/
theorem seeksearch_reaches (hst : s.state = .seeksearch) (hclr : i.clr = false) :
    Reaches s i (s.next i) := by
  have hseeks : seeks s.state = true := by
    rw [hst]
    rfl
  rw [next, if_neg (by rw [hclr]; exact Bool.false_ne_true), hst]
  simp only [wait]
  split
  · split
    · exact .seeks hseeks hseeks goes_quiet
    · exact .seeks hseeks rfl ⟨rfl, rfl, rfl, rfl⟩
  · exact .seeks hseeks hseeks ⟨rfl, rfl, rfl, rfl⟩

/-- In the diagnostic mode the search goes on until the index pulse ends it. -/
theorem searchDiag_of_busy (h : busy (t.searchDiag i).state = true) : t.searchDiag i = t := by
  unfold searchDiag at h ⊢
  cases hindex : i.diag_index with
  | true =>
      rw [hindex, if_pos rfl] at h
      cases hop : t.rpSDOP
      all_goals
        rw [hop] at h
        cases h
  | false => rfl

/-- Otherwise it goes on until its delay and the calculation are over. -/
theorem searchData_reaches (hst : s.state = .search) (hgoes : Goes s t) (ht : t.state = .search)
    (hdelay : t.delay = s.delay) (hdmd : i.rpDMD = false) (herr : i.rpCLBERR = false)
    (h : busy (t.searchData i).state = true) : Reaches s i (t.searchData i) := by
  have hseeks : seeks s.state = true := by
    rw [hst]
    rfl
  have hseeks' : seeks t.state = true := by
    rw [ht]
    rfl
  unfold searchData at h ⊢
  by_cases hzero : (t.delay == 0) = true
  · by_cases hop : (t.rpSDOP == .nop) = true
    · rw [if_pos hzero, if_pos hop] at h
      cases h
    · rw [if_pos hzero, if_neg hop]
      have hop' : s.rpSDOP ≠ .nop := by
        rw [← hgoes.rpSDOP]
        exact fun heq => hop (beq_iff_eq.mpr heq)
      cases hbusy : i.rpADRBUSY with
      | true => exact .seeks hseeks hseeks' hgoes
      | false =>
          have hzero' : s.delay = 0 := hdelay ▸ beq_iff_eq.mp hzero
          exact .found hst rfl ⟨hgoes.rpDRY, hgoes.rpSDOP, hgoes.rpADRSTRT, hgoes.rpEBL⟩ hop'
            hdmd herr hbusy hzero'
  · rw [if_neg hzero]
    exact .seeks hseeks hseeks' ⟨hgoes.rpDRY, hgoes.rpSDOP, hgoes.rpADRSTRT, hgoes.rpEBL⟩

/-- A search goes on, or ends with the data, if it does not end the command. -/
theorem search_reaches (hst : s.state = .search) (hclr : i.clr = false)
    (h : busy (s.next i).state = true) : Reaches s i (s.next i) := by
  have hseeks : seeks s.state = true := by
    rw [hst]
    rfl
  have hgoes : Goes s { s.quiet i with bit_cnt := 0, word_cnt := 0 } := ⟨rfl, rfl, rfl, rfl⟩
  rw [next, if_neg (by rw [hclr]; exact Bool.false_ne_true), hst] at h ⊢
  simp only at h ⊢
  by_cases herr : i.rpCLBERR = true
  · rw [if_pos herr] at h
    cases h
  · rw [if_neg herr] at h ⊢
    by_cases hdmd : i.rpDMD = true
    · rw [if_pos hdmd] at h ⊢
      rw [searchDiag_of_busy h]
      exact .seeks hseeks hseeks hgoes
    · rw [if_neg hdmd] at h ⊢
      exact searchData_reaches hst hgoes hst rfl (Bool.not_eq_true _ ▸ hdmd)
        (Bool.not_eq_true _ ▸ herr) h

/-- The data go on, if they do not end. -/
theorem data_reaches (hst : s.state = .data) (hclr : i.clr = false)
    (h : busy (s.next i).state = true) : Reaches s i (s.next i) := by
  rw [next, if_neg (by rw [hclr]; exact Bool.false_ne_true), hst] at h ⊢
  simp only at h ⊢
  split
  · rename_i hends
    rw [if_pos hends] at h
    cases h
  · rename_i hends
    simp only [Bool.or_eq_true, not_or, Bool.not_eq_true] at hends
    exact .data hst hst ⟨rfl, rfl, rfl, rfl⟩ hends.1.1 hends.1.2

/-- A drive that searches or has its data has come there in one of the four ways, unless
it has nothing to transfer. -/
theorem next_busy (h : busy (s.next i).state = true) :
    Reaches s i (s.next i) ∨ (s.next i).rpSDOP = .nop ∧ seeks (s.next i).state = true := by
  by_cases hclr : i.clr = true
  · rw [next, if_pos hclr] at h
    cases h
  · have hclr' : i.clr = false := Bool.not_eq_true _ ▸ hclr
    cases hst : s.state
    case idle =>
      have hnext : s.next i = (s.quiet i).ready i (s.go_cmd i) := by
        rw [next, if_neg hclr, hst]
      have hidle : (s.quiet i).state = .idle := hst
      rw [hnext] at h ⊢
      rcases ready_busy hidle rfl h with ⟨hbegins, hseeks⟩ | hnop
      · exact Or.inl (.begins hst hseeks hbegins)
      · exact Or.inr hnop
    case seeksearch => exact Or.inl (seeksearch_reaches hst hclr')
    case search => exact Or.inl (search_reaches hst hclr' h)
    case data => exact Or.inl (data_reaches hst hclr' h)
    all_goals
      have hno : busy s.state = false := by
        rw [hst]
        rfl
      have hidle : s.state ≠ .idle := by
        rw [hst]
        intro heq
        cases heq
      exact absurd ((next_other hno hidle).symm.trans h) Bool.false_ne_true

/-- The data have no other way. -/
theorem reaches_of_data (hnext : (s.next i).state = .data) : Reaches s i (s.next i) := by
  have hbusy : busy (s.next i).state = true := by
    rw [hnext]
    rfl
  rcases next_busy hbusy with hreach | ⟨-, hseeks⟩
  · exact hreach
  · rw [hnext] at hseeks
    cases hseeks

/-- A drive that comes to its data has found its sector. -/
theorem found_of_next (hst : s.state ≠ .data) (hnext : (s.next i).state = .data) :
    s.state = .search ∧ Goes s (s.next i) ∧ s.rpSDOP ≠ .nop ∧ i.rpDMD = false ∧
      i.rpCLBERR = false ∧ i.rpADRBUSY = false ∧ s.delay = 0 := by
  cases reaches_of_data hnext with
  | begins _ hseeks _ | seeks _ hseeks _ =>
      rw [hnext] at hseeks
      cases hseeks
  | found hst _ hgoes hop hdmd herr hidle hdelay =>
      exact ⟨hst, hgoes, hop, hdmd, herr, hidle, hdelay⟩
  | data hdata _ _ _ _ => exact absurd hdata hst

/-- A drive that keeps its data has neither run off the disk nor been acknowledged. -/
theorem kept_of_next (hst : s.state = .data) (hnext : (s.next i).state = .data) :
    Goes s (s.next i) ∧ i.rpSETAOE = false ∧ i.rpSDACK = false := by
  cases reaches_of_data hnext with
  | begins _ hseeks _ | seeks _ hseeks _ =>
      rw [hnext] at hseeks
      cases hseeks
  | found hsearch _ _ _ _ _ _ _ =>
      rw [hst] at hsearch
      cases hsearch
  | data _ _ hgoes haoe hack => exact ⟨hgoes, haoe, hack⟩

end RpCtrl

end KS10
