import Fuzix.TtyQueue

/-!
# Lines

What a terminal in canonical mode is for: characters make lines, and a call takes the
first line, or as much of it as it asks for. The queue holds the lines that no call has
taken and the line that is typed, as long as no call begins to take a line that is not
complete.
-/

namespace Tty

open Table Run

abbrev Line := List UInt8

/-- The complete lines that were not taken, and the line that is typed. An end of file is
the empty line. -/
structure Desk where
  lines : List Line
  current : Line

/-! ## What lines are -/

section Spec
variable (tio : Termios)

/-- A character that neither joins the line nor changes it. -/
def isControl (c : UInt8) : Prop :=
  on tio.c_iflag IXON ∧ (c = tio.c_cc VSTOP ∨ c = tio.c_cc VSTART) ∨ c = tio.c_cc VDISCARD

instance (c : UInt8) : Decidable (isControl tio c) := by unfold isControl; infer_instance

/-- What a character does to the lines. -/
def key (d : Desk) (c : UInt8) : Desk :=
  if isSignal tio c then ⟨[], []⟩
  else if isControl tio c then d
  else if c = tio.c_cc VERASE then { d with current := d.current.dropLast }
  else if c = tio.c_cc VKILL then { d with current := [] }
  else if c = tio.c_cc VEOF then ⟨d.lines ++ [d.current], []⟩
  else if isEnd tio c then ⟨d.lines ++ [d.current ++ [c]], []⟩
  else { d with current := d.current ++ [c] }

def type (d : Desk) (c : UInt8) : Desk := (cooked tio c).elim d (key tio d)

/-- A call for `count` bytes takes the first line, or its first `count` bytes. -/
def give (lines : List Line) (count : Nat) (bytes : Option (List UInt8)) : Option (List Line) :=
  match bytes, lines with
  | none, lines => some lines
  | some bytes, [] => if count = 0 ∧ bytes = [] then some [] else none
  | some bytes, line :: rest =>
    if bytes = line.take count then
      some (if count = 0 then line :: rest
        else if line.length ≤ count then rest else line.drop count :: rest)
    else none

/-- The lines after what was seen, if each call got what it should. -/
def seen (d : Desk) : Event → Option Desk
  | .typed c kept => some (if kept then type tio d c else d)
  | .returned count bytes => (give d.lines count bytes).map fun lines => { d with lines := lines }

def replay (d : Desk) (log : List Event) : Option Desk := log.foldlM (seen tio) d

/-- The lines that were typed, whoever took them. -/
def typing (d : Desk) : Event → Desk
  | .typed c true => type tio d c
  | _ => d

/-- No character that ends a process group was let in. -/
def quiet : Event → Prop
  | .typed c true => (cooked tio c).elim True fun c => ¬ isSignal tio c
  | _ => True

instance decidableElim {α : Type} (o : Option α) (p : α → Prop) [∀ a, Decidable (p a)] :
    Decidable (o.elim True p) := by
  cases o
  · exact Decidable.isTrue trivial
  · exact inferInstanceAs (Decidable (p _))

instance (ev : Event) : Decidable (quiet tio ev) := by
  unfold quiet
  split <;> infer_instance

end Spec

def Event.bytes : Event → List UInt8
  | .returned _ (some bs) => bs
  | _ => []

/-- A call that asked for something and returned nothing. -/
def Event.zero : Event → Bool
  | .returned (_ + 1) (some []) => true
  | _ => false

/-! ## What each call getting its line comes to -/

section Replay
variable {tio : Termios} {d e : Desk} {lines lines' : List Line} {log : List Event}
  {c : UInt8} {ev : Event}

theorem replay_append (before : replay tio d log = some e) :
    replay tio d (log ++ [ev]) = seen tio e ev := by
  unfold replay at *
  rw [List.foldlM_append, before]
  simp

/-- A character adds to the lines, whatever they are. -/
theorem key_adds (goes_on : ¬ isSignal tio c) (current : Line) :
    ∃ more next, ∀ lines, key tio ⟨lines, current⟩ c = ⟨lines ++ more, next⟩ := by
  unfold key
  simp only [if_neg goes_on]
  by_cases control : isControl tio c
  · exact ⟨[], current, fun lines => by simp [control]⟩
  by_cases erase : c = tio.c_cc VERASE
  · exact ⟨[], current.dropLast, fun lines => by simp only [if_neg control, if_pos erase, List.append_nil]⟩
  by_cases kill : c = tio.c_cc VKILL
  · exact ⟨[], [], fun lines => by
      simp only [if_neg control, if_neg erase, if_pos kill, List.append_nil]⟩
  by_cases eof : c = tio.c_cc VEOF
  · exact ⟨[current], [], fun lines => by
      simp only [if_neg control, if_neg erase, if_neg kill, if_pos eof]⟩
  by_cases stop : isEnd tio c
  · exact ⟨[current ++ [c]], [], fun lines => by
      simp only [if_neg control, if_neg erase, if_neg kill, if_neg eof, if_pos stop]⟩
  · exact ⟨[], current ++ [c], fun lines => by
      simp only [if_neg control, if_neg erase, if_neg kill, if_neg eof, if_neg stop, List.append_nil]⟩

/-- What a call gets leaves the lines; an empty line makes one call return nothing. -/
theorem give_accounts {count : Nat} {bytes : Option (List UInt8)}
    (gave : give lines count bytes = some lines') :
    lines.flatten = (Event.returned count bytes).bytes ++ lines'.flatten ∧
    lines.count [] = [Event.returned count bytes].countP Event.zero + lines'.count [] := by
  unfold give at gave
  rcases bytes with _ | bs
  · injection gave with same
    rw [same]
    exact ⟨rfl, by simp [Event.zero]⟩
  · rcases lines with _ | ⟨line, rest⟩
    · dsimp only at gave
      split at gave
      · rename_i nothing
        injection gave with same
        rw [← same, nothing.1, nothing.2]
        exact ⟨rfl, rfl⟩
      · cases gave
    · dsimp only at gave
      split at gave
      · rename_i taken
        injection gave with same
        rw [← same, taken]
        rcases count with _ | n
        · rw [if_pos rfl, List.take_zero]
          exact ⟨rfl, (Nat.zero_add _).symm⟩
        · rw [if_neg (Nat.succ_ne_zero n)]
          by_cases whole : line.length ≤ n + 1
          · rw [if_pos whole, List.take_of_length_le whole]
            refine ⟨List.flatten_cons, ?_⟩
            rcases line with _ | ⟨b, bs⟩
            · simp [Event.zero, Nat.add_comm]
            · simp [Event.zero]
          · rw [if_neg whole]
            constructor
            · show line ++ rest.flatten = line.take (n + 1) ++ (line.drop (n + 1) ++ rest.flatten)
              rw [← List.append_assoc, List.take_append_drop]
            · rcases line with _ | ⟨b, bs⟩
              · simp at whole
              · have left : List.drop n bs ≠ [] := by
                  intro none_left
                  have short := congrArg List.length none_left
                  simp only [List.length_drop, List.length_nil, List.length_cons] at short whole
                  omega
                simp [Event.zero, left]
      · cases gave

/-- Without signals, what was typed is what was returned and what is left. -/
theorem replay_accounts (all : Desk) (past : List UInt8) (n : Nat) (done : replay tio d log = some e)
    (silent : ∀ ev ∈ log, quiet tio ev) (current : all.current = d.current)
    (flat : all.lines.flatten = past ++ d.lines.flatten)
    (count : all.lines.count [] = n + d.lines.count []) :
    (log.foldl (typing tio) all).lines.flatten = past ++ (log.flatMap Event.bytes ++ e.lines.flatten) ∧
    (log.foldl (typing tio) all).lines.count [] = n + (log.countP Event.zero + e.lines.count []) := by
  induction log generalizing d all past n with
  | nil =>
    injection done with same
    rw [← same]
    exact ⟨flat, by simpa using count⟩
  | cons ev log ih =>
    unfold replay at done
    rw [List.foldlM_cons] at done
    obtain ⟨d', first, rest⟩ := Option.bind_eq_some_iff.mp done
    have silent' : ∀ ev ∈ log, quiet tio ev := fun ev member => silent ev (List.mem_cons_of_mem _ member)
    have silent₀ := silent ev (List.mem_cons_self ..)
    cases ev with
    | typed c kept =>
      injection first with same
      cases kept with
      | false =>
        rw [if_neg (by decide)] at same
        rw [← same] at rest
        have after := ih all past n rest silent' current flat count
        simpa [typing, Event.bytes, Event.zero] using after
      | true =>
        rw [if_pos rfl] at same
        have adds : ∃ more next, ∀ lines, type tio ⟨lines, d.current⟩ c = ⟨lines ++ more, next⟩ := by
          unfold type
          cases known : cooked tio c with
          | none => exact ⟨[], d.current, fun lines => by simp⟩
          | some c' => exact key_adds (by simpa [quiet, known] using silent₀) d.current
        obtain ⟨more, next, adds⟩ := adds
        have here : d' = ⟨d.lines ++ more, next⟩ := same.symm.trans (adds d.lines)
        have there : typing tio all (.typed c true) = ⟨all.lines ++ more, next⟩ := by
          show type tio all c = _
          rw [← adds all.lines, ← current]
        rw [here] at rest
        have after := ih ⟨all.lines ++ more, next⟩ past n rest silent' rfl
          (by simp [flat]) (by simp [count]; omega)
        rw [← there] at after
        simpa [Event.bytes, Event.zero] using after
    | returned m bs =>
      obtain ⟨lines', gave, same⟩ := Option.map_eq_some_iff.mp first
      obtain ⟨bytes, zero⟩ := give_accounts gave
      rw [← same] at rest
      have after := ih all (past ++ (Event.returned m bs).bytes) (n + [Event.returned m bs].countP Event.zero) rest
        silent' current
        (by rw [flat, bytes, List.append_assoc]) (by rw [count, zero, Nat.add_assoc])
      simpa [typing, List.countP_cons, Nat.add_assoc, Nat.add_left_comm] using after

end Replay

end Tty
