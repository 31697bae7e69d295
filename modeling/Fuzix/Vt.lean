import Fuzix.Lib.Fuel

/-!
# The terminal emulator

`vtoutput` of vt.c with `charout`, `escout` and `cursor_fix`, for a screen of fixed size.
The functions of the driver are recorded as they are called, with the cursor at that time.
The positions are signed bytes. A call that interrupts another one only leaves its byte,
so what interrupts leave in `vtpend` is given for each round of the loop.
-/

namespace Vt

open Fuel

class Screen where
  VT_RIGHT : Int
  VT_BOTTOM : Int
  VT_INITIAL_LINE : Int
  right : 0 ≤ VT_RIGHT ∧ VT_RIGHT ≤ 126
  bottom : 0 ≤ VT_BOTTOM ∧ VT_BOTTOM ≤ 126
  initial : 0 ≤ VT_INITIAL_LINE ∧ VT_INITIAL_LINE ≤ VT_BOTTOM

export Screen (VT_RIGHT VT_BOTTOM VT_INITIAL_LINE)

inductive Driver where
  | cursor_off
  | cursor_on (y x : Int)
  | clear_across (y x num : Int)
  | clear_lines (y num : Int)
  | scroll_up
  | scroll_down
  | plot_char (y x : Int) (c : UInt8)
  | do_beep
  | vtattr_notify
  deriving DecidableEq

/-- A call of the driver, with the cursor. -/
structure Event where
  driver : Driver
  cursory : Int
  cursorx : Int
  deriving DecidableEq

structure State where
  vtmode : Nat
  vtattr : UInt8
  vtink : UInt8
  vtpaper : UInt8
  cursorx : Int
  cursory : Int
  ncursory : Int
  vtpend : UInt8
  vtbusy : Bool
  log : List Event

def ascii (c : Char) : UInt8 := UInt8.ofNat c.toNat

/-- What a signed byte keeps of a number. -/
def char (n : Int) : Int := (n + 128) % 256 - 128

def State.call (s : State) (d : Driver) : State :=
  { s with log := ⟨d, s.cursory, s.cursorx⟩ :: s.log }

section
variable [Screen]

def start : State := ⟨0, 0, 0, 0, 0, VT_INITIAL_LINE, 0, 0, false, []⟩

def State.scroll (s : State) : State :=
  let s := (s.call Driver.scroll_up).call (Driver.clear_lines VT_BOTTOM 1)
  { s with cursory := char (s.cursory - 1) }

def State.cursor_fix (s : State) : State :=
  let s := if s.cursorx < 0 then { s with cursorx := VT_RIGHT, cursory := char (s.cursory - 1) } else s
  let s := if s.cursory < 0 then { s with cursory := 0 } else s
  let s := if s.cursorx > VT_RIGHT then { s with cursorx := 0, cursory := char (s.cursory + 1) } else s
  if s.cursory > VT_BOTTOM then s.scroll else s

/-- The end of `charout`, for a character without a meaning of its own. -/
def State.plot (s : State) (c : UInt8) : State :=
  let s := s.call (Driver.plot_char s.cursory s.cursorx c)
  { s with cursorx := char (s.cursorx + 1) }.cursor_fix

/-- `do charout(' '); while (cursorx % 8);` -/
def tab : Nat → State → Option State
  | 0, _ => none
  | fuel + 1, s =>
    let s := s.plot (ascii ' ')
    if s.cursorx.tmod 8 ≠ 0 then tab fuel s else some s

def charout (fuel : Nat) (c : UInt8) (s : State) : Option State :=
  if c = 7 then some (s.call Driver.do_beep)
  else if c = 8 then some { s with cursorx := char (s.cursorx - 1) }.cursor_fix
  else if c = 9 then (tab fuel s).map State.cursor_fix
  else if c = 10 then some { s with cursory := char (s.cursory + 1) }.cursor_fix
  else if c = 13 then some { s with cursorx := 0 }
  else if c = 0x1b then some { s with vtmode := 1 }
  else some (s.plot c)

/-- The new mode and the state. -/
def escout (c : UInt8) (s : State) : Nat × State :=
  if c = ascii 'A' then (0, if s.cursory ≠ 0 then { s with cursory := char (s.cursory - 1) } else s)
  else if c = ascii 'B' then (0, if s.cursory < VT_BOTTOM then { s with cursory := char (s.cursory + 1) } else s)
  else if c = ascii 'C' then (0, if s.cursorx < VT_RIGHT then { s with cursorx := char (s.cursorx + 1) } else s)
  else if c = ascii 'D' then (0, if s.cursorx ≠ 0 then { s with cursorx := char (s.cursorx - 1) } else s)
  else if c = ascii 'E' then (0, s.call (Driver.clear_lines 0 (VT_BOTTOM + 1)))
  else if c = ascii 'H' then (0, { s with cursorx := 0, cursory := 0 })
  else if c = ascii 'I' then
    (0, if s.cursory ≠ 0 then { s with cursory := char (s.cursory - 1) }
      else (s.call Driver.scroll_down).call (Driver.clear_lines 0 1))
  else if c = ascii 'J' then
    (0, (s.call (Driver.clear_across s.cursory s.cursorx (VT_RIGHT - s.cursorx + 1))).call
      (Driver.clear_lines (s.cursory + 1) (VT_BOTTOM - s.cursory)))
  else if c = ascii 'K' then
    (0, s.call (Driver.clear_across s.cursory s.cursorx (VT_RIGHT - s.cursorx + 1)))
  else if c = ascii 'Y' then (2, s)
  else if c = ascii 'a' then (4, s)
  else if c = ascii 'b' then (5, s)
  else if c = ascii 'c' then (6, s)
  else (0, s)

/-- The second coordinate of a cursor position. -/
def State.place (s : State) (c : UInt8) : State :=
  let ncursorx : Int := c.toNat - 32
  let s := if s.ncursory ≥ 0 ∧ s.ncursory ≤ VT_BOTTOM then { s with cursory := s.ncursory } else s
  let s := if ncursorx ≥ 0 ∧ ncursorx ≤ VT_RIGHT then { s with cursorx := ncursorx } else s
  { s with vtmode := 0 }

/-- The body of `while (len--)`. -/
def output (fuel : Nat) (c : UInt8) (s : State) : Option State :=
  if s.vtmode = 0 then charout fuel c s
  else if s.vtmode = 1 then
    let r := escout c s
    some { r.2 with vtmode := r.1 }
  else if s.vtmode = 2 then some { s with ncursory := char (c.toNat - 32), vtmode := s.vtmode + 1 }
  else if s.vtmode = 3 then some (s.place c)
  else if s.vtmode = 4 then some ({ s with vtattr := c, vtmode := 0 }.call Driver.vtattr_notify)
  else if s.vtmode = 5 then some ({ s with vtink := c, vtmode := 0 }.call Driver.vtattr_notify)
  else if s.vtmode = 6 then some ({ s with vtpaper := c, vtmode := 0 }.call Driver.vtattr_notify)
  else some s

def outputs (fuel : Nat) : List UInt8 → State → Option State
  | [], s => some s
  | c :: p, s => (output fuel c s).bind (outputs fuel p)

/-- A call that finds another one busy. -/
def State.interrupt (s : State) (echo : Option UInt8) : State :=
  { s with vtpend := echo.getD s.vtpend }

/-- The outer loop, from its round `k`. -/
def rounds (fuel : Nat) (echo : Nat → Option UInt8) : Nat → Nat → List UInt8 → State → Option State
  | 0, _, _, _ => none
  | left + 1, k, p, s =>
    (outputs fuel p s).bind fun s =>
      let s := s.interrupt (echo k)
      let cq := s.vtpend
      let s := { s with vtpend := 0 }
      if cq ≠ 0 then rounds fuel echo left (k + 1) [cq] s else some s

/-- The call is the only one from here on. -/
def State.enter (s : State) : State := { s with vtbusy := true }.call Driver.cursor_off

def State.leave (late : Option UInt8) (s : State) : State :=
  { (s.call (Driver.cursor_on s.cursory s.cursorx)).interrupt late with vtbusy := false }

def vtoutput (fuel : Nat) (echo : Nat → Option UInt8) (late : Option UInt8) (p : List UInt8) (s : State) :
    Option State :=
  if s.vtbusy then some (s.interrupt (some (p.headD 0)))
  else (rounds fuel echo fuel 0 p s.enter).map (State.leave late)

/-! ## The screen -/

def Within (y x : Int) : Prop := 0 ≤ y ∧ y ≤ VT_BOTTOM ∧ 0 ≤ x ∧ x ≤ VT_RIGHT

instance (y x : Int) : Decidable (Within y x) := by unfold Within; infer_instance

/-- The call addresses only cells of the screen. -/
def Driver.Addresses : Driver → Prop
  | plot_char y x _ => Within y x
  | cursor_on y x => Within y x
  | clear_across y x num => Within y x ∧ 0 ≤ num ∧ x + num ≤ VT_RIGHT + 1
  | clear_lines y num => 0 ≤ y ∧ 0 ≤ num ∧ y + num ≤ VT_BOTTOM + 1
  | _ => True

/-- The two calls that make room for a line below the screen. -/
def Driver.Scrolls (d : Driver) : Prop := d = scroll_up ∨ d = clear_lines VT_BOTTOM 1

/-- The cursor is on the screen, or on the line below while that is scrolled in. -/
def Event.Fine (e : Event) : Prop :=
  e.driver.Addresses ∧ (Within e.cursory e.cursorx ∨
    e.driver.Scrolls ∧ e.cursory = VT_BOTTOM + 1 ∧ 0 ≤ e.cursorx ∧ e.cursorx ≤ VT_RIGHT)

def Logged (s : State) : Prop := ∀ e ∈ s.log, e.Fine

/-- The byte `e` is pending; only interrupts change it. -/
structure Good (e : UInt8) (s : State) : Prop where
  cursor : Within s.cursory s.cursorx
  logged : Logged s
  pend : s.vtpend = e

/-- One step off the screen, to a side or below. -/
def Near (y x : Int) : Prop :=
  0 ≤ y ∧ y ≤ VT_BOTTOM ∧ -1 ≤ x ∧ x ≤ VT_RIGHT + 1 ∨
    y = VT_BOTTOM + 1 ∧ 0 ≤ x ∧ x ≤ VT_RIGHT

/-! ## The cursor -/

variable {e : UInt8}

omit [Screen] in
theorem char_small {n : Int} (low : -128 ≤ n) (high : n ≤ 127) : char n = n := by
  unfold char
  omega

theorem call_logged {s : State} (logged : Logged s) {d : Driver} (addresses : d.Addresses)
    (cursor : Within s.cursory s.cursorx) : Logged (s.call d) := by
  intro e listed
  rcases List.mem_cons.mp listed with new | old
  · rw [new]
    exact ⟨addresses, Or.inl cursor⟩
  · exact logged e old

theorem Good.call {s : State} (good : Good e s) {d : Driver} (addresses : d.Addresses) : Good e (s.call d) :=
  ⟨good.cursor, call_logged good.logged addresses good.cursor, good.pend⟩

theorem scroll_good {s : State} (logged : Logged s) (pend : s.vtpend = e) (below : s.cursory = VT_BOTTOM + 1)
    (low : 0 ≤ s.cursorx) (high : s.cursorx ≤ VT_RIGHT) : Good e s.scroll := by
  have bottom := Screen.bottom
  have small : char (s.cursory - 1) = VT_BOTTOM := by
    rw [char_small (by omega) (by omega)]
    omega
  constructor
  · show Within (char (s.cursory - 1)) s.cursorx
    rw [small]
    exact ⟨bottom.1, Int.le_refl _, low, high⟩
  · intro event listed
    rcases List.mem_cons.mp listed with clear | earlier
    · rw [clear]
      refine ⟨⟨bottom.1, by omega, by omega⟩, Or.inr ⟨Or.inr rfl, below, low, high⟩⟩
    · rcases List.mem_cons.mp earlier with up | old
      · rw [up]
        exact ⟨trivial, Or.inr ⟨Or.inl rfl, below, low, high⟩⟩
      · exact logged event old
  · exact pend

theorem cursor_fix_good {s : State} (logged : Logged s) (pend : s.vtpend = e) (near : Near s.cursory s.cursorx) :
    Good e s.cursor_fix := by
  have bottom := Screen.bottom
  have right := Screen.right
  unfold Near at near
  unfold State.cursor_fix
  by_cases left : s.cursorx < 0
  · have up : char (s.cursory - 1) = s.cursory - 1 := char_small (by omega) (by omega)
    simp only [if_pos left, up]
    by_cases top : s.cursory - 1 < 0
    · have fits : ¬ VT_RIGHT > VT_RIGHT := by omega
      have inside : ¬ 0 > VT_BOTTOM := by omega
      simp only [if_pos top, if_neg fits, if_neg inside]
      have corner : Within 0 VT_RIGHT := ⟨Int.le_refl _, bottom.1, right.1, Int.le_refl _⟩
      exact ⟨corner, logged, pend⟩
    · have fits : ¬ VT_RIGHT > VT_RIGHT := by omega
      have inside : ¬ s.cursory - 1 > VT_BOTTOM := by omega
      simp only [if_neg top, if_neg fits, if_neg inside]
      have above : Within (s.cursory - 1) VT_RIGHT := ⟨by omega, by omega, right.1, Int.le_refl _⟩
      exact ⟨above, logged, pend⟩
  · have top : ¬ s.cursory < 0 := by omega
    simp only [if_neg left, if_neg top]
    by_cases past : s.cursorx > VT_RIGHT
    · have down : char (s.cursory + 1) = s.cursory + 1 := char_small (by omega) (by omega)
      simp only [if_pos past, down]
      by_cases below : s.cursory + 1 > VT_BOTTOM
      · rw [if_pos below]
        exact scroll_good logged pend (by show s.cursory + 1 = _; omega) (Int.le_refl _) right.1
      · rw [if_neg below]
        have next : Within (s.cursory + 1) 0 := ⟨by omega, by omega, Int.le_refl _, right.1⟩
        exact ⟨next, logged, pend⟩
    · simp only [if_neg past]
      by_cases below : s.cursory > VT_BOTTOM
      · rw [if_pos below]
        exact scroll_good logged pend (by omega) (by omega) (by omega)
      · rw [if_neg below]
        exact ⟨⟨by omega, by omega, by omega, by omega⟩, logged, pend⟩

/-- On the screen there is nothing to correct. -/
theorem cursor_fix_inside {s : State} (cursor : Within s.cursory s.cursorx) : s.cursor_fix = s := by
  obtain ⟨top, bottom, left, right⟩ := cursor
  unfold State.cursor_fix
  simp only [if_neg (Int.not_lt.mpr left), if_neg (Int.not_lt.mpr top), if_neg (Int.not_lt.mpr right),
    if_neg (Int.not_lt.mpr bottom)]

/-! ## Characters -/

theorem plot_good {s : State} (good : Good e s) (c : UInt8) : Good e (s.plot c) := by
  have right := Screen.right
  obtain ⟨top, bottom, left, edge⟩ := good.cursor
  have next : char (s.cursorx + 1) = s.cursorx + 1 := char_small (by omega) (by omega)
  have logged := (good.call (d := Driver.plot_char s.cursory s.cursorx c) good.cursor).logged
  apply cursor_fix_good
  · exact logged
  · exact good.pend
  · show Near s.cursory (char (s.cursorx + 1))
    rw [next]
    left
    omega

/-- The column after a character: the next one, or the first. -/
theorem plot_column {s : State} (good : Good e s) (c : UInt8) :
    (s.plot c).cursorx = if s.cursorx = VT_RIGHT then 0 else s.cursorx + 1 := by
  have right := Screen.right
  obtain ⟨top, bottom, left, edge⟩ := good.cursor
  have next : char (s.cursorx + 1) = s.cursorx + 1 := char_small (by omega) (by omega)
  have positive : ¬ s.cursorx + 1 < 0 := by omega
  have above : ¬ s.cursory < 0 := by omega
  unfold State.plot State.cursor_fix
  simp only [next, State.call, if_neg positive, if_neg above]
  by_cases last : s.cursorx = VT_RIGHT
  · have past : s.cursorx + 1 > VT_RIGHT := by omega
    simp only [if_pos past, if_pos last]
    split <;> rfl
  · have fits : ¬ s.cursorx + 1 > VT_RIGHT := by omega
    simp only [if_neg fits, if_neg last]
    split <;> rfl

/-- The columns that are left to the next multiple of eight. -/
theorem tab_ends {s : State} (good : Good e s) (fuel : Nat) (enough : 8 - s.cursorx.tmod 8 ≤ fuel) :
    ∃ t, tab fuel s = some t ∧ Good e t := by
  induction fuel generalizing s with
  | zero =>
    have left := good.cursor.2.2.1
    have column := Int.tmod_lt_of_pos s.cursorx (b := 8) (by omega)
    omega
  | succ fuel ih =>
    have next := plot_good good (ascii ' ')
    have column := plot_column good (ascii ' ')
    unfold tab
    by_cases more : (s.plot (ascii ' ')).cursorx.tmod 8 ≠ 0
    · have left := good.cursor.2.2.1
      simp only [if_pos more]
      apply ih next
      rw [column] at more ⊢
      split at more
      · exact absurd rfl more
      · rename_i inner
        rw [if_neg inner]
        rw [Int.tmod_eq_emod_of_nonneg left] at enough
        rw [Int.tmod_eq_emod_of_nonneg (by omega)] at more ⊢
        omega
    · simp only [if_neg more]
      exact ⟨_, rfl, next⟩

theorem tab_steady (s : State) : Steady (fun fuel => tab fuel s) := by
  intro fuel t done
  induction fuel generalizing s with
  | zero => cases done
  | succ fuel ih =>
    have here : tab (fuel + 1) s = some t := done
    show tab (fuel + 1 + 1) s = some t
    unfold tab at here ⊢
    by_cases more : (s.plot (ascii ' ')).cursorx.tmod 8 ≠ 0
    · simp only [if_pos more] at here ⊢
      exact ih _ here
    · simp only [if_neg more] at here ⊢
      exact here

/-- With enough fuel, the loops end in a state that is as it should be. -/
def Ends (e : UInt8) (f : Nat → Option State) : Prop := ∃ t, Returns f t ∧ Good e t

theorem ends_at {t : State} (good : Good e t) : Ends e (fun _ => some t) := ⟨t, Returns.pure t, good⟩

theorem charout_ends {s : State} (good : Good e s) (c : UInt8) : Ends e (fun fuel => charout fuel c s) := by
  have right := Screen.right
  have bottom := Screen.bottom
  obtain ⟨low, high, left, edge⟩ := good.cursor
  unfold charout
  by_cases bell : c = 7
  · simp only [if_pos bell]
    exact ends_at (good.call trivial)
  simp only [if_neg bell]
  by_cases back : c = 8
  · simp only [if_pos back]
    have before : char (s.cursorx - 1) = s.cursorx - 1 := char_small (by omega) (by omega)
    apply ends_at
    apply cursor_fix_good
    · exact good.logged
    · exact good.pend
    · show Near s.cursory (char (s.cursorx - 1))
      rw [before]
      left
      omega
  simp only [if_neg back]
  by_cases tabs : c = 9
  · simp only [if_pos tabs]
    have column := Int.tmod_nonneg 8 left
    obtain ⟨t, stops, next⟩ := tab_ends good 8 (by omega)
    have returns : Returns (fun fuel => tab fuel s) t := (tab_steady s).returns stops
    have fixed : Good e t.cursor_fix := by
      rw [cursor_fix_inside next.cursor]
      exact next
    exact ⟨_, returns.map, fixed⟩
  simp only [if_neg tabs]
  by_cases line : c = 10
  · simp only [if_pos line]
    have next : char (s.cursory + 1) = s.cursory + 1 := char_small (by omega) (by omega)
    apply ends_at
    apply cursor_fix_good
    · exact good.logged
    · exact good.pend
    · show Near (char (s.cursory + 1)) s.cursorx
      rw [next]
      unfold Near
      omega
  simp only [if_neg line]
  by_cases ret : c = 13
  · simp only [if_pos ret]
    have first : Within s.cursory 0 := ⟨low, high, Int.le_refl _, right.1⟩
    exact ends_at ⟨first, good.logged, good.pend⟩
  simp only [if_neg ret]
  by_cases escape : c = 0x1b
  · simp only [if_pos escape]
    exact ends_at ⟨good.cursor, good.logged, good.pend⟩
  simp only [if_neg escape]
  exact ends_at (plot_good good c)

/-! ## Escape sequences -/

theorem escout_good {s : State} (good : Good e s) (c : UInt8) : Good e (escout c s).2 := by
  have right := Screen.right
  have bottom := Screen.bottom
  obtain ⟨low, high, left, edge⟩ := good.cursor
  have up : char (s.cursory - 1) = s.cursory - 1 := char_small (by omega) (by omega)
  have down : char (s.cursory + 1) = s.cursory + 1 := char_small (by omega) (by omega)
  have back : char (s.cursorx - 1) = s.cursorx - 1 := char_small (by omega) (by omega)
  have forth : char (s.cursorx + 1) = s.cursorx + 1 := char_small (by omega) (by omega)
  have higher : s.cursory ≠ 0 → Within (s.cursory - 1) s.cursorx := by
    intro below
    exact ⟨by omega, by omega, left, edge⟩
  have across : Good e (s.call (Driver.clear_across s.cursory s.cursorx (VT_RIGHT - s.cursorx + 1))) := by
    apply good.call
    exact ⟨good.cursor, by omega, by omega⟩
  unfold escout
  by_cases cA : c = ascii 'A'
  · simp only [if_pos cA, up]
    split
    · rename_i below
      exact ⟨higher below, good.logged, good.pend⟩
    · exact good
  simp only [if_neg cA]
  by_cases cB : c = ascii 'B'
  · simp only [if_pos cB, down]
    split
    · have lower : Within (s.cursory + 1) s.cursorx := ⟨by omega, by omega, left, edge⟩
      exact ⟨lower, good.logged, good.pend⟩
    · exact good
  simp only [if_neg cB]
  by_cases cC : c = ascii 'C'
  · simp only [if_pos cC, forth]
    split
    · have further : Within s.cursory (s.cursorx + 1) := ⟨low, high, by omega, by omega⟩
      exact ⟨further, good.logged, good.pend⟩
    · exact good
  simp only [if_neg cC]
  by_cases cD : c = ascii 'D'
  · simp only [if_pos cD, back]
    split
    · have nearer : Within s.cursory (s.cursorx - 1) := ⟨low, high, by omega, by omega⟩
      exact ⟨nearer, good.logged, good.pend⟩
    · exact good
  simp only [if_neg cD]
  by_cases cE : c = ascii 'E'
  · simp only [if_pos cE]
    exact good.call ⟨Int.le_refl _, by omega, by omega⟩
  simp only [if_neg cE]
  by_cases cH : c = ascii 'H'
  · simp only [if_pos cH]
    have home : Within 0 0 := ⟨Int.le_refl _, bottom.1, Int.le_refl _, right.1⟩
    exact ⟨home, good.logged, good.pend⟩
  simp only [if_neg cH]
  by_cases cI : c = ascii 'I'
  · simp only [if_pos cI, up]
    split
    · rename_i below
      exact ⟨higher below, good.logged, good.pend⟩
    · exact (good.call (d := Driver.scroll_down) trivial).call ⟨Int.le_refl _, by omega, by omega⟩
  simp only [if_neg cI]
  by_cases cJ : c = ascii 'J'
  · simp only [if_pos cJ]
    exact across.call ⟨by omega, by omega, by omega⟩
  simp only [if_neg cJ]
  by_cases cK : c = ascii 'K'
  · simp only [if_pos cK]
    exact across
  simp only [if_neg cK]
  -- what is left only sets the mode
  split
  · exact good
  · repeat' split
    all_goals exact good

theorem place_good {s : State} (good : Good e s) (c : UInt8) : Good e (s.place c) := by
  obtain ⟨low, high, left, edge⟩ := good.cursor
  unfold State.place
  by_cases row : s.ncursory ≥ 0 ∧ s.ncursory ≤ VT_BOTTOM
  · by_cases column : (c.toNat : Int) - 32 ≥ 0 ∧ (c.toNat : Int) - 32 ≤ VT_RIGHT
    · simp only [if_pos row, if_pos column]
      have there : Within s.ncursory (c.toNat - 32) := ⟨row.1, row.2, column.1, column.2⟩
      exact ⟨there, good.logged, good.pend⟩
    · simp only [if_pos row, if_neg column]
      have there : Within s.ncursory s.cursorx := ⟨row.1, row.2, left, edge⟩
      exact ⟨there, good.logged, good.pend⟩
  · by_cases column : (c.toNat : Int) - 32 ≥ 0 ∧ (c.toNat : Int) - 32 ≤ VT_RIGHT
    · simp only [if_neg row, if_pos column]
      have there : Within s.cursory (c.toNat - 32) := ⟨low, high, column.1, column.2⟩
      exact ⟨there, good.logged, good.pend⟩
    · simp only [if_neg row, if_neg column]
      exact ⟨good.cursor, good.logged, good.pend⟩

/-- Fields that are neither the cursor nor the record. -/
theorem Good.of_same {s t : State} (good : Good e s) (y : t.cursory = s.cursory) (x : t.cursorx = s.cursorx)
    (log : t.log = s.log) (pend : t.vtpend = s.vtpend) : Good e t := by
  constructor
  · rw [y, x]
    exact good.cursor
  · unfold Logged
    rw [log]
    exact good.logged
  · rw [pend]
    exact good.pend

theorem Good.notify {s t : State} (good : Good e s) (y : t.cursory = s.cursory) (x : t.cursorx = s.cursorx)
    (log : t.log = s.log) (pend : t.vtpend = s.vtpend) : Good e (t.call Driver.vtattr_notify) :=
  (good.of_same y x log pend).call trivial

theorem output_ends {s : State} (good : Good e s) (c : UInt8) : Ends e (fun fuel => output fuel c s) := by
  unfold output
  by_cases m0 : s.vtmode = 0
  · simp only [if_pos m0]
    exact charout_ends good c
  simp only [if_neg m0]
  by_cases m1 : s.vtmode = 1
  · simp only [if_pos m1]
    exact ends_at ((escout_good good c).of_same rfl rfl rfl rfl)
  simp only [if_neg m1]
  by_cases m2 : s.vtmode = 2
  · simp only [if_pos m2]
    exact ends_at (good.of_same rfl rfl rfl rfl)
  simp only [if_neg m2]
  by_cases m3 : s.vtmode = 3
  · simp only [if_pos m3]
    exact ends_at (place_good good c)
  simp only [if_neg m3]
  repeat' split
  all_goals apply ends_at
  · exact good.notify rfl rfl rfl rfl
  · exact good.notify rfl rfl rfl rfl
  · exact good.notify rfl rfl rfl rfl
  · exact good

theorem outputs_ends {s : State} (good : Good e s) (p : List UInt8) : Ends e (fun fuel => outputs fuel p s) := by
  induction p generalizing s with
  | nil => exact ends_at good
  | cons c p ih =>
    obtain ⟨t, first, next⟩ := output_ends good c
    obtain ⟨u, rest, last⟩ := ih next
    exact ⟨u, first.bind rest, last⟩

/-! ## Calls -/

/-- No interrupt leaves a byte from round `n` on. -/
def Silent (echo : Nat → Option UInt8) (n : Nat) : Prop := ∀ k, n ≤ k → echo k = none

/-- The state at the end of a round, with nothing pending. -/
def State.taken (s : State) : State := { s with vtpend := 0 }

theorem rounds_succ {fuel left k : Nat} {echo : Nat → Option UInt8} {p : List UInt8} {s t : State}
    (done : outputs fuel p s = some t) :
    rounds fuel echo (left + 1) k p s =
      if (t.interrupt (echo k)).vtpend ≠ 0 then
        rounds fuel echo left (k + 1) [(t.interrupt (echo k)).vtpend] (t.interrupt (echo k)).taken
      else some (t.interrupt (echo k)).taken := by
  rw [rounds, done]
  rfl

/-- The loop takes a round for each byte that was left, and one for the byte that was
left when it began. -/
theorem rounds_end {s : State} {echo : Nat → Option UInt8} {n : Nat} (silent : Silent echo n) (k : Nat)
    (p : List UInt8) (good : Good e s) (need : Nat) (counts : n - k + (if e = 0 then 0 else 1) ≤ need) :
    ∃ t, Good 0 t ∧ ∃ least, ∀ fuel left, least ≤ fuel → need < left →
      rounds fuel echo left k p s = some t := by
  induction need generalizing k p s e with
  | zero =>
    obtain ⟨t, ⟨least, returns⟩, next⟩ := outputs_ends good p
    have none : echo k = none := silent k (by split at counts <;> omega)
    have zero : e = 0 := by
      by_contra left
      rw [if_neg left] at counts
      omega
    have pend : (t.interrupt (echo k)).vtpend = 0 := by
      rw [none]
      exact next.pend.trans zero
    refine ⟨(t.interrupt (echo k)).taken, ⟨next.cursor, next.logged, rfl⟩, least, ?_⟩
    intro fuel left enough more
    obtain ⟨left, rfl⟩ := Nat.exists_eq_add_of_lt more
    rw [rounds_succ (returns fuel enough), if_neg (not_not.mpr pend)]
  | succ need ih =>
    obtain ⟨t, ⟨least, returns⟩, next⟩ := outputs_ends good p
    have kept : Good 0 (t.interrupt (echo k)).taken := ⟨next.cursor, next.logged, rfl⟩
    by_cases empty : (t.interrupt (echo k)).vtpend = 0
    · refine ⟨_, kept, least, ?_⟩
      intro fuel left enough more
      obtain ⟨left, rfl⟩ := Nat.exists_eq_add_of_lt more
      rw [rounds_succ (returns fuel enough), if_neg (not_not.mpr empty)]
    · have fewer : n - (k + 1) + (if (0 : UInt8) = 0 then 0 else 1) ≤ need := by
        rw [if_pos rfl]
        by_cases early : k < n
        · split at counts <;> omega
        · omega
      obtain ⟨u, last, later, ends⟩ := ih (k + 1) [(t.interrupt (echo k)).vtpend] kept fewer
      refine ⟨u, last, max least later, ?_⟩
      intro fuel left enough more
      obtain ⟨left, rfl⟩ := Nat.exists_eq_add_of_lt more
      rw [rounds_succ (returns fuel (by omega)), if_pos empty]
      exact ends fuel _ (by omega) (by omega)

/-- A call of `vtoutput`, with what interrupts leave in its rounds and behind them. -/
structure Call where
  p : List UInt8
  echo : Nat → Option UInt8
  late : Option UInt8

/-- Interrupts come finitely often in a call. -/
def Call.Finite (c : Call) : Prop := ∃ n, Silent c.echo n

theorem vtoutput_ends {s : State} (good : Good e s) {c : Call} (finite : c.Finite) :
    ∃ e', Ends e' (fun fuel => vtoutput fuel c.echo c.late c.p s) := by
  obtain ⟨n, silent⟩ := finite
  unfold vtoutput
  by_cases busy : s.vtbusy = true
  · simp only [if_pos busy]
    exact ⟨_, ends_at ⟨good.cursor, good.logged, rfl⟩⟩
  · simp only [if_neg busy]
    have off : Good e s.enter :=
      Good.call (s := { s with vtbusy := true }) (d := Driver.cursor_off) (good.of_same rfl rfl rfl rfl) trivial
    obtain ⟨t, next, least, ends⟩ := rounds_end silent 0 c.p off (n + 1) (by split <;> omega)
    have shown := next.call (d := Driver.cursor_on t.cursory t.cursorx) next.cursor
    refine ⟨_, t.leave c.late, ⟨max least (n + 2), ?_⟩, ⟨shown.cursor, shown.logged, rfl⟩⟩
    intro fuel enough
    show Option.map _ (rounds fuel c.echo fuel 0 c.p s.enter) = _
    rw [ends fuel fuel (by omega) (by omega), Option.map_some]

/-- Calls in turn. -/
def vtoutputs (fuel : Nat) : List Call → State → Option State
  | [], s => some s
  | c :: calls, s => (vtoutput fuel c.echo c.late c.p s).bind (vtoutputs fuel calls)

theorem vtoutputs_end {s : State} (good : Good e s) (calls : List Call) (finite : ∀ c ∈ calls, c.Finite) :
    ∃ e', Ends e' (fun fuel => vtoutputs fuel calls s) := by
  induction calls generalizing s e with
  | nil => exact ⟨e, ends_at good⟩
  | cons c calls ih =>
    obtain ⟨_, t, first, next⟩ := vtoutput_ends good (finite c List.mem_cons_self)
    obtain ⟨e', u, rest, last⟩ := ih next (fun d listed => finite d (List.mem_cons_of_mem c listed))
    exact ⟨e', u, first.bind rest, last⟩

theorem start_good : Good 0 start := by
  have right := Screen.right
  have initial := Screen.initial
  have home : Within VT_INITIAL_LINE 0 := ⟨initial.1, initial.2, Int.le_refl _, right.1⟩
  refine ⟨home, ?_, rfl⟩
  intro event none
  cases none

/-- Every run ends, with the cursor on the screen, and in all calls of the driver the cells
were on the screen, and so was the cursor, but for the line below while it scrolls. -/
theorem output_stays_on_screen (calls : List Call) (finite : ∀ c ∈ calls, c.Finite) :
    ∃ t, Returns (fun fuel => vtoutputs fuel calls start) t ∧ Within t.cursory t.cursorx ∧
      ∀ event ∈ t.log, event.Fine := by
  obtain ⟨_, t, returns, good⟩ := vtoutputs_end start_good calls finite
  exact ⟨t, returns, good.cursor, good.logged⟩

end

/-! ## A small screen -/

/-- The screen of platform-px4plus. -/
@[reducible] def px4plus : Screen where
  VT_RIGHT := 29
  VT_BOTTOM := 7
  VT_INITIAL_LINE := 0
  right := by decide
  bottom := by decide
  initial := by decide

/-- Lines, a tab and an escape sequence that is cut in two, with an echo in between. -/
def typed : List Call :=
  [⟨List.replicate 8 10 ++ [9, 0x1b], fun k => if k = 0 then some 66 else none, none⟩, ⟨[89, 32], fun _ => none, none⟩]

theorem output_stays_on_small_screen :
    letI := px4plus
    ∃ t, Returns (fun fuel => vtoutputs fuel typed start) t ∧ Within t.cursory t.cursorx ∧
      ∀ event ∈ t.log, event.Fine := by
  let _ := px4plus
  apply output_stays_on_screen typed
  intro c listed
  refine ⟨1, ?_⟩
  intro k late
  rcases List.mem_cons.mp listed with first | listed
  · rw [first]
    exact if_neg (by omega)
  · rw [List.mem_singleton.mp listed]

/-- A new line on the last row scrolls with the cursor below the screen. -/
theorem scrolls_below_screen :
    letI := px4plus
    ((vtoutputs 8 [⟨List.replicate 8 10, fun _ => none, none⟩] start).map fun t =>
      t.log.any fun event => event.driver = Driver.scroll_up ∧ ¬ Within event.cursory event.cursorx) =
        some true := by
  decide +kernel

end Vt
