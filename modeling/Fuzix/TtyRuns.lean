import Fuzix.TtyLines

/-!
# Whole lines for whole calls

The queue holds the lines that no call has taken, each with its end, and the line that is
typed. This breaks when a call takes a character of a line that is not complete, when an
end of file comes within a line, when it is not stopped at by an erasure, and when the queue
is flushed between two characters of a call.
-/

namespace Tty

open Table Run

/-! ## The queue and the lines -/

section Lines
variable (tio : Termios)

/-- A character that completes a line. -/
def ends (c : UInt8) : Prop := isEnd tio c ∨ c = tio.c_cc VEOF

instance (c : UInt8) : Decidable (ends tio c) := by unfold ends; infer_instance

/-- An end of file that is no line end. -/
def bare (c : UInt8) : Prop := c = tio.c_cc VEOF ∧ ¬ isEnd tio c

instance (c : UInt8) : Decidable (bare tio c) := by unfold bare; infer_instance

/-- A line as the queue holds it. -/
def enc (line : Line) : List UInt8 := if line = [] then [tio.c_cc VEOF] else line

/-- A complete line: an end of file, or characters with a line end. -/
def Whole (line : Line) : Prop :=
  line = [] ∨ ∃ body c, line = body ++ [c] ∧ (∀ b ∈ body, ¬ ends tio b) ∧ isEnd tio c ∧ c ≠ tio.c_cc VEOF

structure Holds (q : Queue) (lines : List Line) (current : Line) : Prop where
  ringed : Ringed q
  whole : ∀ line ∈ lines, Whole tio line
  typed : ∀ c ∈ current, ¬ ends tio c
  chars : chars q = lines.flatMap (enc tio) ++ current

/-- The characters that the call under way has, and the lines that the queue holds. -/
def Ahead (held : List UInt8) (queued lines : List Line) : Prop :=
  held = [] ∧ lines = queued ∨
    ∃ line rest, held ≠ [] ∧ line ≠ [] ∧ queued = line :: rest ∧ lines = (held ++ line) :: rest

/-- The condition on a character. -/
def keyFair (q : Queue) (held : List UInt8) (c : UInt8) : Prop :=
  if isSignal tio c then held = []
  else if isControl tio c then True
  else if c = tio.c_cc VERASE then ∀ last ∈ (chars q).getLast?, ¬ bare tio last
  else if c = tio.c_cc VKILL then
    ∀ last ∈ ((chars q).filter fun b => ends tio b).getLast?, ¬ bare tio last
  else c = tio.c_cc VEOF → q.count < q.size → ∀ last ∈ (chars q).getLast?, ends tio last

/-- What a character that is no signal does to the lines and to the queue. -/
structure Keyed (lines : List Line) (current : Line) (c : UInt8) (result : Terminal × Bool)
    (more : List Line) (next : Line) : Prop where
  holds : Holds tio result.1.q (lines ++ more) next
  adds : ∀ all, (if result.2 then key tio ⟨all, current⟩ c else ⟨all, current⟩) = ⟨all ++ more, next⟩

end Lines

section Laws
variable {tio : Termios} {q : Queue} {lines queued more : List Line} {line current : Line}
  {held : List UInt8} {c : UInt8} {t : Terminal}

theorem Ahead.append (ahead : Ahead held queued lines) : Ahead held (queued ++ more) (lines ++ more) := by
  rcases ahead with ⟨none_held, same⟩ | ⟨line, rest, some_held, some_left, here, there⟩
  · exact Or.inl ⟨none_held, by rw [same]⟩
  · exact Or.inr ⟨line, rest ++ more, some_held, some_left, by rw [here]; rfl, by rw [there]; rfl⟩

theorem not_isEnd (typed : ¬ ends tio c) : ¬ isEnd tio c := fun stop => typed (Or.inl stop)

theorem not_eof (typed : ¬ ends tio c) : c ≠ tio.c_cc VEOF := fun eof => typed (Or.inr eof)

/-- A line in the queue ends with a character that completes it. -/
theorem Whole.enc_last (whole : Whole tio line) : ∃ body c, enc tio line = body ++ [c] ∧ ends tio c ∧
    ((∀ b ∈ body, ¬ ends tio b)) := by
  unfold enc
  rcases whole with empty | ⟨body, c, here, typed, stop, _⟩
  · rw [if_pos empty]
    exact ⟨[], tio.c_cc VEOF, rfl, Or.inr rfl, fun b member => absurd member (List.not_mem_nil)⟩
  · rw [if_neg (by rw [here]; simp), here]
    exact ⟨body, c, rfl, Or.inl stop, typed⟩

/-- The lines in the queue end with a character that completes the last one. -/
theorem queued_last (whole : ∀ line ∈ lines, Whole tio line) : lines = [] ∨
    ∃ before c, lines.flatMap (enc tio) = before ++ [c] ∧ ends tio c := by
  rcases List.eq_nil_or_concat lines with empty | ⟨lines', line, here⟩
  · exact Or.inl empty
  · rw [List.concat_eq_append] at here
    obtain ⟨body, c, last, stop, _⟩ := (whole line (by rw [here]; simp)).enc_last
    refine Or.inr ⟨lines'.flatMap (enc tio) ++ body, c, ?_, stop⟩
    rw [here, List.flatMap_append, List.flatMap_singleton, last, List.append_assoc]

/-- The last character that completes a line is the last one of the lines in the queue. -/
theorem last_end (holds : Holds tio q lines current) :
    ((chars q).filter fun b => ends tio b).getLast? = (lines.flatMap (enc tio)).getLast? := by
  have none_typed : current.filter (fun b => ends tio b) = [] := by
    apply List.filter_eq_nil_iff.mpr
    intro b member
    simpa using holds.typed b member
  rw [holds.chars, List.filter_append, none_typed, List.append_nil]
  rcases queued_last holds.whole with empty | ⟨before, c, last, stop⟩
  · rw [empty]
    rfl
  · rw [last, List.filter_append, List.filter_cons_of_pos (by simpa using stop)]
    simp

/-! ## Characters -/

/-- Nothing happens to the queue or to the lines. -/
theorem keyed_same {result : Terminal × Bool} (holds : Holds tio t.q lines current)
    (same : result.1.q = t.q) (nothing : ∀ all, result.2 = true → key tio ⟨all, current⟩ c = ⟨all, current⟩) :
    Keyed tio lines current c result [] current := by
  constructor
  · rw [same, List.append_nil]
    exact holds
  · intro all
    rw [List.append_nil]
    split
    · rename_i kept
      exact nothing all kept
    · rfl

theorem erase_keyed (holds : Holds tio t.q lines current) (goes_on : ¬ isSignal tio c)
    (data : ¬ isControl tio c) (erase : c = tio.c_cc VERASE)
    (fine : ∀ last ∈ (chars t.q).getLast?, ¬ bare tio last) :
    Keyed tio lines current c (eraseout tio ECHOE t.q.count t, true) [] current.dropLast := by
  have does : ∀ all, key tio ⟨all, current⟩ c = ⟨all, current.dropLast⟩ := by
    intro all
    simp only [key, if_neg goes_on, if_neg data, if_pos erase]
  have keyed : Holds tio (eraseout tio ECHOE t.q.count t).q lines current.dropLast := by
    rcases List.eq_nil_or_concat current with none_typed | ⟨before, last, here⟩
    · have all_lines := holds.chars
      rw [none_typed, List.append_nil] at all_lines
      rw [none_typed, List.dropLast_nil]
      rcases queued_last holds.whole with empty | ⟨before, b, last, stop⟩
      · rw [empty] at all_lines ⊢
        have requeued : Requeued t [] (eraseout tio ECHOE t.q.count t) :=
          eraseout_empty holds.ringed all_lines
        exact ⟨requeued.ringed, by simp, by simp, requeued.chars⟩
      · rw [last] at all_lines
        have stop' : isEnd tio b := by
          rw [all_lines, List.getLast?_concat] at fine
          by_contra other
          exact fine b rfl ⟨stop.resolve_left other, other⟩
        have count : t.q.count = before.length + 1 := by
          rw [← chars_length, all_lines, List.length_append, List.length_singleton]
        have requeued : Requeued t (before ++ [b]) (eraseout tio ECHOE (before.length + 1) t) :=
          eraseout_end holds.ringed all_lines stop'
        rw [count]
        refine ⟨requeued.ringed, holds.whole, by simp, ?_⟩
        rw [requeued.chars, last, List.append_nil]
    · rw [List.concat_eq_append] at here
      have all_chars := holds.chars
      rw [here, ← List.append_assoc] at all_chars
      have count : t.q.count = (lines.flatMap (enc tio) ++ before).length + 1 := by
        rw [← chars_length, all_chars, List.length_append, List.length_singleton]
      have goes := not_isEnd (holds.typed last (by rw [here]; simp))
      have requeued := erase_one (n := (lines.flatMap (enc tio) ++ before).length) holds.ringed all_chars goes
      rw [count, here, List.dropLast_concat]
      exact ⟨requeued.ringed, holds.whole, fun b member => holds.typed b (by rw [here]; simp [member]),
        requeued.chars⟩
  constructor
  · rw [List.append_nil]
    exact keyed
  · intro all
    rw [List.append_nil]
    exact does all

theorem kill_keyed (holds : Holds tio t.q lines current) (goes_on : ¬ isSignal tio c)
    (data : ¬ isControl tio c) (erase : c ≠ tio.c_cc VERASE) (kill : c = tio.c_cc VKILL)
    (fine : ∀ last ∈ ((chars t.q).filter fun b => ends tio b).getLast?, ¬ bare tio last) :
    Keyed tio lines current c (eraseout tio ECHOK t.q.count t, true) [] [] := by
  have stops : lines.flatMap (enc tio) = [] ∨
      ∃ before b, lines.flatMap (enc tio) = before ++ [b] ∧ isEnd tio b := by
    rw [last_end holds] at fine
    rcases queued_last holds.whole with empty | ⟨before, b, last, stop⟩
    · rw [empty]
      exact Or.inl rfl
    · rw [last, List.getLast?_concat] at fine
      refine Or.inr ⟨before, b, last, ?_⟩
      by_contra other
      exact fine b rfl ⟨stop.resolve_left other, other⟩
  have requeued := erase_all holds.ringed holds.chars (fun b member => not_isEnd (holds.typed b member))
    stops (Nat.le_refl _)
  constructor
  · rw [List.append_nil]
    exact ⟨requeued.ringed, holds.whole, by simp, by rw [requeued.chars, List.append_nil]⟩
  · intro all
    rw [List.append_nil]
    simp only [key, if_neg goes_on, if_neg data, if_neg erase, if_pos kill, if_true]

theorem tty_echo_q : (tty_echo tio t c).q = t.q := by
  unfold tty_echo
  split <;> rfl

theorem deliver_q : (deliver tio t c).1.q = (insq t.q c).1 ∧ (deliver tio t c).2 = (insq t.q c).2 := by
  have same : (if c = newline ∧ tio.c_oflag &&& (OPOST ||| ONLCR) = OPOST ||| ONLCR
      then tty_echo tio t carriageReturn else t).q = t.q := by
    split
    · exact tty_echo_q
    · rfl
  unfold deliver
  dsimp only
  rw [same]
  split
  · exact ⟨tty_echo_q, rfl⟩
  · exact ⟨rfl, rfl⟩

theorem deliver_keyed (holds : Holds tio t.q lines current) (goes_on : ¬ isSignal tio c)
    (data : ¬ isControl tio c) (erase : c ≠ tio.c_cc VERASE) (kill : c ≠ tio.c_cc VKILL)
    (fine : c = tio.c_cc VEOF → t.q.count < t.q.size → ∀ last ∈ (chars t.q).getLast?, ends tio last) :
    ∃ more next, Keyed tio lines current c (deliver tio t c) more next := by
  have queue : (deliver tio t c).1.q = (insq t.q c).1 := deliver_q.1
  have kept : (deliver tio t c).2 = (insq t.q c).2 := deliver_q.2
  by_cases full : t.q.count = t.q.size
  · rw [insq_full full] at queue kept
    refine ⟨[], current, keyed_same holds queue fun all yes => ?_⟩
    rw [kept] at yes
    cases yes
  · obtain ⟨put_in, inserted⟩ := insq_room (c := c) holds.ringed full
    rw [← queue] at inserted
    rw [put_in] at kept
    have bound := holds.ringed.count
    have all_chars := inserted.chars
    rw [holds.chars] at all_chars
    have does : ∀ all, key tio ⟨all, current⟩ c =
        if c = tio.c_cc VEOF then ⟨all ++ [current], []⟩
        else if isEnd tio c then ⟨all ++ [current ++ [c]], []⟩
        else ⟨all, current ++ [c]⟩ := by
      intro all
      simp only [key, if_neg goes_on, if_neg data, if_neg erase, if_neg kill]
    by_cases eof : c = tio.c_cc VEOF
    · -- at the start of a line
      have start : current = [] := by
        rcases List.eq_nil_or_concat current with none_typed | ⟨before, last, here⟩
        · exact none_typed
        · rw [List.concat_eq_append] at here
          have at_end := fine eof (by omega)
          rw [holds.chars, here, ← List.append_assoc, List.getLast?_concat] at at_end
          exact absurd (at_end last rfl) (holds.typed last (by rw [here]; simp))
      refine ⟨[[]], [], ⟨inserted.ringed, ?_, by simp, ?_⟩, ?_⟩
      · intro line member
        rcases List.mem_append.mp member with old | new
        · exact holds.whole line old
        · rw [List.mem_singleton.mp new]
          exact Or.inl rfl
      · rw [all_chars, start, eof, List.flatMap_append, List.flatMap_singleton, List.append_nil]
        simp [enc]
      · intro all
        rw [kept, if_pos rfl, does, if_pos eof, start]
    · by_cases stop : isEnd tio c
      · refine ⟨[current ++ [c]], [], ⟨inserted.ringed, ?_, by simp, ?_⟩, ?_⟩
        · intro line member
          rcases List.mem_append.mp member with old | new
          · exact holds.whole line old
          · rw [List.mem_singleton.mp new]
            exact Or.inr ⟨current, c, rfl, holds.typed, stop, eof⟩
        · rw [all_chars, List.flatMap_append, List.flatMap_singleton, List.append_nil]
          simp [enc]
        · intro all
          rw [kept, if_pos rfl, does, if_neg eof, if_pos stop]
      · refine ⟨[], current ++ [c], ⟨inserted.ringed, ?_, ?_, ?_⟩, ?_⟩
        · rw [List.append_nil]
          exact holds.whole
        · intro b member
          rcases List.mem_append.mp member with old | new
          · exact holds.typed b old
          · rw [List.mem_singleton.mp new]
            rintro (no | no)
            · exact stop no
            · exact eof no
        · rw [all_chars, List.append_nil, List.append_assoc]
        · intro all
          rw [kept, if_pos rfl, does, if_neg eof, if_neg stop, List.append_nil]

theorem accept_keyed (canon : on tio.c_lflag ICANON) (holds : Holds tio t.q lines current)
    (goes_on : ¬ isSignal tio c) (fine : keyFair tio t.q held c) :
    ∃ more next, Keyed tio lines current c (accept tio t c) more next := by
  unfold keyFair at fine
  rw [if_neg goes_on] at fine
  unfold accept
  rw [if_neg goes_on]
  by_cases control : isControl tio c
  · have nothing : ∀ all, key tio ⟨all, current⟩ c = ⟨all, current⟩ := by
      intro all
      simp only [key, if_neg goes_on, if_pos control]
    refine ⟨[], current, ?_⟩
    by_cases stop : on tio.c_iflag IXON ∧ c = tio.c_cc VSTOP
    · rw [if_pos stop]
      exact keyed_same holds rfl fun all _ => nothing all
    by_cases go : on tio.c_iflag IXON ∧ c = tio.c_cc VSTART
    · rw [if_neg stop, if_pos go]
      exact keyed_same holds rfl fun all _ => nothing all
    · have discard : c = tio.c_cc VDISCARD := by
        rcases control with ⟨flow, no | no⟩ | discard
        · exact absurd ⟨flow, no⟩ stop
        · exact absurd ⟨flow, no⟩ go
        · exact discard
      rw [if_neg stop, if_neg go, if_pos ⟨canon, discard⟩]
      exact keyed_same holds rfl fun all _ => nothing all
  · rw [if_neg control] at fine
    rw [if_neg (fun stop => control (Or.inl ⟨stop.1, Or.inl stop.2⟩)),
      if_neg (fun go => control (Or.inl ⟨go.1, Or.inr go.2⟩)),
      if_neg (fun discard => control (Or.inr discard.2))]
    by_cases erase : c = tio.c_cc VERASE
    · rw [if_pos erase] at fine
      rw [if_pos ⟨canon, erase⟩]
      exact ⟨[], _, erase_keyed holds goes_on control erase fine⟩
    by_cases kill : c = tio.c_cc VKILL
    · rw [if_neg erase, if_pos kill] at fine
      rw [if_neg (fun no => erase no.2), if_pos ⟨canon, kill⟩]
      exact ⟨[], _, kill_keyed holds goes_on control erase kill fine⟩
    · rw [if_neg erase, if_neg kill] at fine
      rw [if_neg (fun no => erase no.2), if_neg (fun no => kill no.2)]
      exact deliver_keyed holds goes_on control erase kill fine

end Laws

/-! ## Calls -/

section Calls
variable (tio : Termios)

/-- The characters that the call under way has taken. -/
def held (s : State) : List UInt8 := (s.running.bind s.readers).elim [] Reader.got

structure Fits (s : State) (d : Desk) : Prop where
  log : replay tio ⟨[], []⟩ s.log = some d
  queue : ∃ queued, Holds tio s.tty.q queued d.current ∧ Ahead (held s) queued d.lines
  asleep : ∀ r reader, s.readers r = some reader → s.running ≠ some r → reader.got = []
  tame : ∀ r reader, s.readers r = some reader → reader.timed = false ∧ reader.got.length ≤ reader.count

/-- A call that goes on finds an empty queue or a complete line; characters are as `keyFair`
has them. -/
def fair (s : State) : Action → Prop
  | .inproc c => (cooked tio c).elim True (keyFair tio s.tty.q (held s))
  | .round => (s.running.bind s.readers).elim True fun reader =>
      reader.got.length < reader.count → chars s.tty.q = [] ∨ ∃ c ∈ chars s.tty.q, ends tio c
  | _ => True

instance decidableLast (o : Option UInt8) (p : UInt8 → Prop) [∀ c, Decidable (p c)] :
    Decidable (∀ c ∈ o, p c) := by
  cases o
  · exact Decidable.isTrue fun _ no => by cases no
  · exact decidable_of_iff (p _) ⟨fun yes _ same => by rw [← Option.some.inj same]; exact yes, fun all => all _ rfl⟩

instance (q : Queue) (held : List UInt8) (c : UInt8) : Decidable (keyFair tio q held c) := by
  unfold keyFair
  infer_instance

instance (s : State) (a : Action) : Decidable (fair tio s a) := by
  unfold fair
  cases a <;> infer_instance

end Calls

section Steps
variable {tio : Termios} {s t : State} {d : Desk} {r count : Nat} {reader : Reader} {c : UInt8}
  {lines queued rest : List Line} {line got : Line} {bs : Option (List UInt8)}

theorem give_nothing : give lines 0 (some []) = some lines := by
  cases lines <;> simp [give]

theorem give_part (some_got : got ≠ []) (some_left : line ≠ []) :
    give ((got ++ line) :: rest) got.length (some got) = some (line :: rest) := by
  have length : 0 < got.length := List.length_pos_iff.mpr some_got
  have length' : 0 < line.length := List.length_pos_iff.mpr some_left
  have long : ¬ (got ++ line).length ≤ got.length := by
    rw [List.length_append]
    omega
  simp only [give, List.take_left, if_true, if_neg (show ¬ got.length = 0 by omega), if_neg long, List.drop_left]

theorem give_line (asked : 0 < count) (short : line.length ≤ count) :
    give (line :: rest) count (some line) = some rest := by
  simp only [give, List.take_of_length_le short, if_true, if_neg (show ¬ count = 0 by omega), if_pos short]

/-- A call returns. -/
theorem leave_fits (log : replay tio ⟨[], []⟩ s.log = some d)
    (gave : give d.lines reader.count bs = some queued) (holds : Holds tio s.tty.q queued d.current)
    (asleep : ∀ r' reader', r' ≠ r → s.readers r' = some reader' → reader'.got = [])
    (tame : ∀ r reader, s.readers r = some reader → reader.timed = false ∧ reader.got.length ≤ reader.count) :
    Fits tio (leave s r reader bs) ⟨queued, d.current⟩ := by
  have others : ∀ r' reader', (leave s r reader bs).readers r' = some reader' →
      r' ≠ r ∧ s.readers r' = some reader' := by
    intro r' reader' known
    by_cases same : r' = r
    · rw [same] at known
      have gone : (leave s r reader bs).readers r = none := put_same ..
      rw [gone] at known
      cases known
    · exact ⟨same, (put_ne s.readers none same).symm.trans known⟩
  constructor
  · show replay tio ⟨[], []⟩ (s.log ++ [.returned reader.count bs]) = _
    rw [replay_append log]
    show (give d.lines reader.count bs).map _ = _
    rw [gave]
    rfl
  · exact ⟨queued, holds, Or.inl ⟨rfl, rfl⟩⟩
  · intro r' reader' known _
    obtain ⟨other, known'⟩ := others r' reader' known
    exact asleep r' reader' other known'
  · intro r' reader' known
    exact tame r' reader' (others r' reader' known).2

/-- A call goes on or goes to sleep. -/
theorem stay_fits {reader' : Reader} {running : Option Nat} {tty : Terminal}
    (log : replay tio ⟨[], []⟩ s.log = some d) (holds : Holds tio tty.q queued d.current)
    (ahead : Ahead reader'.got queued d.lines) (here : running = some r ∨ running = none ∧ reader'.got = [])
    (asleep : ∀ r' reader', r' ≠ r → s.readers r' = some reader' → reader'.got = [])
    (tame : ∀ r reader, s.readers r = some reader → reader.timed = false ∧ reader.got.length ≤ reader.count)
    (tame' : reader'.timed = false ∧ reader'.got.length ≤ reader'.count) :
    Fits tio { s with tty := tty, running := running, readers := put s.readers r (some reader') } d := by
  have has : held { s with tty := tty, running := running, readers := put s.readers r (some reader') } =
      reader'.got := by
    rcases here with here | ⟨here, nothing⟩
    · simp [held, here]
    · simp [held, here, nothing]
  constructor
  · exact log
  · exact ⟨queued, holds, by rw [has]; exact ahead⟩
  · intro r' reader'' known away
    by_cases same : r' = r
    · rw [same] at known away
      have now : put s.readers r (some reader') r = some reader'' := known
      rw [put_same] at now
      injection now with now
      rw [← now]
      rcases here with here | ⟨_, nothing⟩
      · exact absurd here away
      · exact nothing
    · exact asleep r' reader'' same ((put_ne s.readers _ same).symm.trans known)
  · intro r' reader'' known
    by_cases same : r' = r
    · rw [same] at known
      have now : put s.readers r (some reader') r = some reader'' := known
      rw [put_same] at now
      injection now with now
      rw [← now]
      exact tame'
    · exact tame r' reader'' ((put_ne s.readers _ same).symm.trans known)

theorem held_running (running : s.running = some r) (known : s.readers r = some reader) :
    held s = reader.got := by
  simp [held, running, known]

theorem held_asleep (resting : s.running = none) : held s = [] := by
  simp [held, resting]

/-- A character of a line that the queue holds. -/
theorem Whole.first {c : UInt8} {line : Line} (whole : Whole tio (c :: line)) :
    line = [] ∧ isEnd tio c ∧ c ≠ tio.c_cc VEOF ∨ line ≠ [] ∧ ¬ ends tio c ∧ Whole tio line := by
  rcases whole with no | ⟨body, e, here, typed, stop, data⟩
  · cases no
  · rcases body with _ | ⟨b, body⟩
    · injection here with first rest
      rw [first]
      exact Or.inl ⟨rest, stop, data⟩
    · injection here with first rest
      refine Or.inr ⟨by rw [rest]; simp, by rw [first]; exact typed b (by simp), ?_⟩
      exact Or.inr ⟨body, e, rest, fun x member => typed x (by simp [member]), stop, data⟩

theorem empty_queue (holds : Holds tio s.tty.q queued d.current) (empty : chars s.tty.q = []) :
    queued = [] := by
  have nothing := holds.chars
  rw [empty] at nothing
  rcases queued_last holds.whole with done | ⟨before, c, last, _⟩
  · exact done
  · rw [last] at nothing
    simp at nothing

theorem Ahead.nothing {held : List UInt8} (ahead : Ahead held [] lines) : held = [] ∧ lines = [] := by
  rcases ahead with ⟨none_held, same⟩ | ⟨line, rest, _, _, here, _⟩
  · exact ⟨none_held, same⟩
  · cases here

/-- A round that takes a character of a complete line. -/
theorem take_fits (canon : on tio.c_lflag ICANON) (fits : Fits tio s d) (running : s.running = some r)
    (known : s.readers r = some reader) (asks : reader.got.length < reader.count)
    (holds : Holds tio s.tty.q (line :: rest) d.current) (ahead : Ahead reader.got (line :: rest) d.lines)
    {q : Queue} {cs : List UInt8} (here : chars s.tty.q = c :: cs) (removed : Removed s.tty.q cs q) :
    ∃ e, Fits tio (take tio { s with tty := { s.tty with q := q } } r reader c) e := by
  have asleep : ∀ r' reader', r' ≠ r → s.readers r' = some reader' → reader'.got = [] := by
    intro r' reader' other known'
    refine fits.asleep r' reader' known' fun now => other ?_
    rw [running] at now
    injection now with now
    exact now.symm
  have whole := holds.whole line (List.mem_cons_self ..)
  have whole' : ∀ line ∈ rest, Whole tio line := fun line member =>
    holds.whole line (List.mem_cons_of_mem _ member)
  have all_chars := holds.chars
  rw [here, List.flatMap_cons] at all_chars
  have short : (reader.got ++ [c]).length ≤ reader.count := by
    rw [List.length_append]
    exact asks
  rcases line with _ | ⟨b, line⟩
  · -- an end of file
    have first : c :: cs = tio.c_cc VEOF :: (rest.flatMap (enc tio) ++ d.current) := by
      rw [all_chars]
      simp [enc]
    injection first with eof first
    rcases ahead with ⟨none_held, same⟩ | ⟨line, rest', _, some_left, here', _⟩
    · have length : (reader.got ++ [c]).length = 1 := by rw [none_held]; rfl
      refine ⟨⟨rest, d.current⟩, ?_⟩
      unfold take
      rw [if_pos ⟨canon, length, eof⟩]
      refine leave_fits fits.log ?_ ⟨removed.ringed, whole', holds.typed, removed.chars.trans first⟩ asleep
        fits.tame
      rw [same]
      exact give_line (by omega) (Nat.zero_le _)
    · injection here' with no
      exact absurd no.symm some_left
  · have first : c :: cs = b :: (line ++ rest.flatMap (enc tio) ++ d.current) := by
      rw [all_chars]
      simp [enc]
    injection first with same first
    have taken : d.lines = (reader.got ++ b :: line) :: rest := by
      rcases ahead with ⟨none_held, now⟩ | ⟨line', rest', _, _, here', now⟩
      · rw [now, none_held]
        rfl
      · injection here' with parts parts'
        rw [now, ← parts, ← parts']
    rw [← same] at whole taken
    rcases whole.first with ⟨last, stop, data⟩ | ⟨some_left, typed, whole⟩
    · refine ⟨⟨rest, d.current⟩, ?_⟩
      unfold take
      rw [if_neg (fun no => data no.2.2), if_pos ⟨canon, stop⟩]
      rw [last, List.nil_append] at first
      refine leave_fits fits.log ?_ ⟨removed.ringed, whole', holds.typed, removed.chars.trans first⟩ asleep
        fits.tame
      rw [taken, last]
      exact give_line (by omega) short
    · refine ⟨d, ?_⟩
      unfold take
      rw [if_neg (fun no => not_eof typed no.2.2), if_neg (fun no => not_isEnd typed no.2)]
      have left : chars q = (line :: rest).flatMap (enc tio) ++ d.current := by
        rw [removed.chars, first, List.flatMap_cons]
        simp [enc, some_left]
      refine stay_fits fits.log ⟨removed.ringed, ?_, holds.typed, left⟩ ?_
        (Or.inl running) asleep fits.tame ⟨(fits.tame r reader known).1, short⟩
      · intro line' member
        rcases List.mem_cons.mp member with now | old
        · rw [now]
          exact whole
        · exact whole' line' old
      · refine Or.inr ⟨line, rest, by simp, some_left, rfl, ?_⟩
        rw [taken]
        simp

theorem round_fits (canon : on tio.c_lflag ICANON) (fits : Fits tio s d) (running : s.running = some r)
    (known : s.readers r = some reader)
    (fine : reader.got.length < reader.count → chars s.tty.q = [] ∨ ∃ c ∈ chars s.tty.q, ends tio c) :
    ∃ e, Fits tio (Tty.round tio s r reader) e := by
  obtain ⟨queued, holds, ahead⟩ := fits.queue
  rw [held_running running known] at ahead
  have asleep : ∀ r' reader', r' ≠ r → s.readers r' = some reader' → reader'.got = [] := by
    intro r' reader' other known'
    refine fits.asleep r' reader' known' fun now => other ?_
    rw [running] at now
    injection now with now
    exact now.symm
  unfold Tty.round
  by_cases done : reader.count ≤ reader.got.length
  · rw [if_pos done]
    have count : reader.count = reader.got.length := Nat.le_antisymm done (fits.tame r reader known).2
    refine ⟨⟨queued, d.current⟩, leave_fits fits.log ?_ holds asleep fits.tame⟩
    rcases ahead with ⟨none_held, same⟩ | ⟨line, rest, some_held, some_left, here, there⟩
    · rw [count, none_held, same]
      exact give_nothing
    · rw [count, here, there]
      exact give_part some_held some_left
  rw [if_neg done]
  by_cases empty : chars s.tty.q = []
  · have no_lines := empty_queue holds empty
    rw [no_lines] at ahead holds
    obtain ⟨none_held, no_more⟩ := ahead.nothing
    have returns : Fits tio (leave s r reader none) ⟨[], d.current⟩ := by
      refine leave_fits fits.log ?_ holds asleep fits.tame
      rw [no_more]
      rfl
    by_cases dead : s.tty.dead ∧ s.tty.q.count = 0
    · rw [if_pos dead]
      exact ⟨_, returns⟩
    · rw [if_neg dead, remq_empty empty]
      dsimp only
      unfold await
      dsimp only
      rw [if_neg (fun no => no.1 canon)]
      split
      · rw [interrupted, if_pos none_held]
        exact ⟨_, returns⟩
      · refine ⟨d, stay_fits fits.log holds (Or.inl ⟨none_held, no_more⟩) (Or.inr ⟨rfl, none_held⟩) asleep
          fits.tame ⟨?_, (fits.tame r reader known).2⟩⟩
        simp [canon]
  · have some_left : s.tty.q.count ≠ 0 := fun no => empty (chars_empty.mpr no)
    rw [if_neg (fun no => some_left no.2)]
    obtain ⟨c, cs, here⟩ := List.exists_cons_of_ne_nil empty
    obtain ⟨q, removes, removed⟩ := remq_chars holds.ringed here
    rw [removes]
    dsimp only
    rcases queued with _ | ⟨line, rest⟩
    · -- no complete line
      rcases fine (Nat.lt_of_not_le done) with no | ⟨b, member, stop⟩
      · exact absurd no empty
      · rw [holds.chars] at member
        exact absurd stop (holds.typed b (by simpa using member))
    · exact take_fits canon fits running known (Nat.lt_of_not_le done) holds ahead here removed

theorem inproc_fits (canon : on tio.c_lflag ICANON) (fits : Fits tio s d)
    (fine : (cooked tio c).elim True (keyFair tio s.tty.q (held s))) :
    ∃ e, Fits tio { s with
      tty := (tty_inproc tio s.tty c).1
      log := s.log ++ [.typed c (tty_inproc tio s.tty c).2] } e := by
  obtain ⟨queued, holds, ahead⟩ := fits.queue
  have log : ∀ kept, replay tio ⟨[], []⟩ (s.log ++ [.typed c kept]) =
      some (if kept then type tio d c else d) := by
    intro kept
    rw [replay_append fits.log]
    rfl
  unfold tty_inproc
  cases known : cooked tio c with
  | none =>
    refine ⟨d, ?_, ⟨queued, holds, ahead⟩, fits.asleep, fits.tame⟩
    rw [log]
    simp [type, known]
  | some c' =>
    rw [known] at fine
    have fine : keyFair tio s.tty.q (held s) c' := fine
    have typed : type tio d c = key tio d c' := by
      rw [type, known]
      rfl
    by_cases signal : isSignal tio c'
    · have none_held : held s = [] := by
        rw [keyFair, if_pos signal] at fine
        exact fine
      have room : 0 < s.tty.q.size := Nat.zero_lt_of_lt holds.ringed.head
      dsimp only
      rw [accept, if_pos signal]
      refine ⟨⟨[], []⟩, ?_, ⟨[], ⟨clrq_ringed room, by simp, by simp, clrq_chars _⟩, ?_⟩, fits.asleep,
        fits.tame⟩
      · rw [log, if_pos rfl, typed, key, if_pos signal]
      · exact Or.inl ⟨none_held, rfl⟩
    · obtain ⟨more, next, keyed⟩ := accept_keyed canon holds signal fine
      refine ⟨⟨d.lines ++ more, next⟩, ?_, ⟨queued ++ more, keyed.holds, ahead.append⟩, fits.asleep, fits.tame⟩
      rw [log, typed]
      exact congrArg some (keyed.adds d.lines)

theorem Fits.step {a : Action} (canon : on tio.c_lflag ICANON) (fits : Fits tio s d) (fine : fair tio s a)
    (step : a.apply tio s = some t) : ∃ e, Fits tio t e := by
  obtain ⟨queued, holds, ahead⟩ := fits.queue
  cases a with
  | inproc c =>
    injection step with same
    rw [← same]
    exact inproc_fits canon fits fine
  | hangup =>
    injection step with same
    rw [← same]
    exact ⟨d, fits.log, ⟨queued, holds, ahead⟩, fits.asleep, fits.tame⟩
  | read r count ndelay =>
    simp only [Action.apply] at step
    split at step
    · rename_i free
      injection step with same
      rw [held_asleep free.1] at ahead
      have asleep : ∀ r' reader', r' ≠ r → s.readers r' = some reader' → reader'.got = [] :=
        fun r' reader' _ known => fits.asleep r' reader' known (by rw [free.1]; simp)
      rw [← same]
      exact ⟨d, stay_fits fits.log holds ahead (Or.inl rfl) asleep
        fits.tame ⟨rfl, Nat.zero_le _⟩⟩
    · cases step
  | round =>
    obtain ⟨r, running, rest⟩ := Option.bind_eq_some_iff.mp step
    obtain ⟨reader, known, same⟩ := Option.map_eq_some_iff.mp rest
    rw [← same]
    refine round_fits canon fits running known ?_
    simpa [fair, running, known] using fine
  | wake r =>
    simp only [Action.apply] at step
    split at step
    · rename_i free
      injection step with same
      obtain ⟨reader, known⟩ := Option.ne_none_iff_exists'.mp free.2
      have nothing : reader.got = [] := fits.asleep r reader known (by rw [free.1]; simp)
      rw [held_asleep free.1] at ahead
      rw [← same]
      refine ⟨d, fits.log, ⟨queued, holds, ?_⟩, fun r' reader' known' _ => ?_, fits.tame⟩
      · rw [held_running (s := { s with running := some r }) rfl known, nothing]
        exact ahead
      · exact fits.asleep r' reader' known' (by rw [free.1]; simp)
    · cases step
  | signal r =>
    simp only [Action.apply] at step
    split at step
    · rename_i resting
      obtain ⟨reader, known, same⟩ := Option.map_eq_some_iff.mp step
      have nothing : reader.got = [] := fits.asleep r reader known (by rw [resting]; simp)
      rw [held_asleep resting] at ahead
      have lines : d.lines = queued := by
        rcases ahead with ⟨_, lines⟩ | ⟨_, _, no, _⟩
        · exact lines
        · exact absurd rfl no
      rw [← same, interrupted, if_pos nothing]
      refine ⟨_, leave_fits fits.log ?_ holds (fun r' reader' _ known' => ?_) fits.tame⟩
      · rw [lines]
        rfl
      · exact fits.asleep r' reader' known' (by rw [resting]; simp)
    · cases step
  | expire r =>
    simp only [Action.apply] at step
    split at step
    · obtain ⟨reader, known, rest⟩ := Option.bind_eq_some_iff.mp step
      rw [(fits.tame r reader known).1] at rest
      cases rest
    · cases step

end Steps

theorem start_fits {tio : Termios} {size : Nat} (some_room : 0 < size) : Fits tio (start size) ⟨[], []⟩ := by
  constructor
  · rfl
  · exact ⟨[], ⟨clrq_ringed (q := (start size).tty.q) some_room, by simp, by simp, rfl⟩, Or.inl ⟨rfl, rfl⟩⟩
  · intro r reader known
    cases known
  · intro r reader known
    cases known

/-- In canonical mode each call gets the first line that is complete, or as much of it as it
asked for, and no other bytes. -/
theorem lines_read {tio : Termios} {size : Nat} {as : List Action} {s : State}
    (canon : on tio.c_lflag ICANON) (some_room : 0 < size)
    (run : Steps (fun s a t => fair tio s a ∧ a.apply tio s = some t) (start size) as s) :
    ∃ d, replay tio ⟨[], []⟩ s.log = some d ∧
      (s.running = none → chars s.tty.q = d.lines.flatMap (enc tio) ++ d.current) ∧
      ((∀ ev ∈ s.log, quiet tio ev) →
        s.log.flatMap Event.bytes ++ d.lines.flatten =
          (s.log.foldl (typing tio) ⟨[], []⟩).lines.flatten ∧
        s.log.countP Event.zero + d.lines.count [] =
          (s.log.foldl (typing tio) ⟨[], []⟩).lines.count []) := by
  obtain ⟨d, fits⟩ : ∃ d, Fits tio s d := by
    refine run.keeps (I := fun s => ∃ d, Fits tio s d) ?_ ⟨_, start_fits some_room⟩
    rintro s a t ⟨d, fits⟩ step
    exact fits.step canon step.1 step.2
  obtain ⟨queued, holds, ahead⟩ := fits.queue
  refine ⟨d, fits.log, fun resting => ?_, fun silent => ?_⟩
  · rw [held_asleep resting] at ahead
    rcases ahead with ⟨_, lines⟩ | ⟨_, _, no, _⟩
    · rw [lines]
      exact holds.chars
    · exact absurd rfl no
  · have accounts := replay_accounts ⟨[], []⟩ [] 0 fits.log silent rfl rfl rfl
    rw [List.nil_append, Nat.zero_add] at accounts
    exact ⟨accounts.1.symm, accounts.2.symm⟩

/-- Canonical mode with the usual characters. -/
def usual : Termios where
  c_iflag := ICRNL ||| IXON
  c_oflag := OPOST ||| ONLCR
  c_lflag := ICANON ||| ECHO ||| ECHOE ||| ECHOK ||| ISIG
  c_cc := fun i => [4, 0, 127, 3, 21, 28, 17, 19, 26, 25, 23, 15].getD i 0

/-- Two characters, of which one is erased, and a line end, for two calls. -/
theorem lines_read_once : ∃ (s : State) (d : Desk), replay usual ⟨[], []⟩ s.log = some d ∧
    s.log.flatMap Event.bytes ++ d.lines.flatten = [97, 10] := by
  have ran : (perform (Action.apply usual) (fair usual) [.inproc 97, .inproc 98, .inproc 127, .inproc 13,
      .read 0 1 false, .round, .round, .read 0 5 false, .round] (start 4)).map State.log =
      some [.typed 97 true, .typed 98 true, .typed 127 true, .typed 13 true, .returned 1 (some [97]),
        .returned 5 (some [10])] := by decide +kernel
  obtain ⟨s, done, log⟩ := Option.map_eq_some_iff.mp ran
  obtain ⟨d, replayed, _, accounts⟩ := lines_read (by decide) (by decide) (perform_steps done)
  have silent : ∀ ev ∈ s.log, quiet usual ev := by
    rw [log]
    decide
  have typed : (s.log.foldl (typing usual) ⟨[], []⟩).lines.flatten = [97, 10] := by
    rw [log]
    decide
  exact ⟨s, d, replayed, (accounts silent).1.trans typed⟩

/-- A character of a line that is not complete is returned. -/
theorem part_read : ∃ s : State, Steps (fun s a t => Action.apply usual s a = some t) (start 4)
    [.inproc 97, .read 0 1 false, .round, .round] s ∧ replay usual ⟨[], []⟩ s.log = none := by
  have ran : (perform (Action.apply usual) (fun _ _ => True) [.inproc 97, .read 0 1 false, .round, .round]
      (start 4)).map State.log = some [.typed 97 true, .returned 1 (some [97])] := by decide +kernel
  obtain ⟨s, done, log⟩ := Option.map_eq_some_iff.mp ran
  refine ⟨s, (perform_steps done).mono fun _ _ _ step => step.2, ?_⟩
  rw [log]
  decide

end Tty
