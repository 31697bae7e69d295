import Fuzix.RefRuns

/-!
# The last component of a path

`kn_open` reads a path from its start and `filename` from its end. The walk is repeated here with
a note of what it looked up last, and where.
-/

set_option linter.unusedSectionVars false

namespace Fuzix

open Wp Table Words

variable [Build]

/-- The walk, with the last component and the directory in which it was looked up. In the root of
the process `..` is looked up without a search. -/
def walkNoting : List (List UInt8) → Nat → Option Nat → Option (Nat × List UInt8) →
    K (Option (Nat × Option Nat × Option (Nat × List UInt8)))
  | [], wd, ninode, note => do
    let found ← enter ninode
    return some (wd, found, note)
  | name :: rest, wd, ninode, _ => do
    match ← enter ninode with
    | none =>
      setError ENOENT
      iDeref wd
      return none
    | some n =>
      iDeref wd
      let s ← get
      if fmt (s.itab n).node.mode ≠ F_DIR then
        setError ENOTDIR
        iDeref n
        return none
      else if maySearch (getperm s n) = false then
        setError EACCES
        iDeref n
        return none
      else if name = dotdot ∧ n = s.u.root then walkNoting rest n (some n) (some (n, name))
      else
        let (wd, found) ← lookup n name
        walkNoting rest wd found (some (wd, name))

def knWalkNoting (path : List UInt8) : K (Option (Nat × Option Nat × Option (Nat × List UInt8))) := do
  let s ← get
  let wd := startOf s path
  iRef wd
  iRef wd
  walkNoting (components path) wd (some wd) none

/-- What the walk of a path looks up last, and in which directory. -/
def lastLookup (path : List UInt8) (s : Kernel) : Option (Nat × List UInt8) :=
  match knWalkNoting path s with
  | .ok (some (_, _, note), _) => note
  | _ => none

section Walk
variable {s t : Kernel} {path : List UInt8}

/-- Without the notes it is the walk. -/
theorem walk_noting (names : List (List UInt8)) (wd : Nat) (ninode : Option Nat) (note : Option (Nat × List UInt8)) :
    walk names wd ninode = Option.map (fun r => (r.1, r.2.1)) <$> walkNoting names wd ninode note := by
  induction names generalizing wd ninode note with
  | nil => simp [walk, walkNoting]
  | cons name rest ih =>
    unfold walk walkNoting
    rw [map_bind]
    congr 1
    funext found
    cases found with
    | none => simp
    | some n =>
      simp only [map_bind]
      congr 1
      funext _
      congr 1
      funext u
      split
      · simp
      · split
        · simp
        · split
          · exact ih _ _ _
          · simp only [map_bind]
            congr 1
            funext r
            exact ih _ _ _

/-- The note at the end is of the last component, in the directory that is the parent. -/
theorem walkNoting_last (names : List (List UInt8)) (wd : Nat) (ninode : Option Nat)
    (note : Option (Nat × List UInt8)) (s : Kernel) :
    wp (fun _ => True) (walkNoting names wd ninode note) (fun r _ => ∀ parent found noted,
      r = some (parent, found, noted) →
      (names = [] ∧ noted = note) ∨ ∃ name, names.getLast? = some name ∧ noted = some (parent, name)) s := by
  induction names generalizing wd ninode note s with
  | nil =>
    unfold walkNoting
    rw [wp_bind]
    refine wp_any ?_
    intro n t parent found noted same
    injection same with same
    injection same with _ same
    injection same with _ same
    exact Or.inl ⟨rfl, same.symm⟩
  | cons name rest ih =>
    have later : ∀ wd ninode s, wp (fun _ => True) (walkNoting rest wd ninode (some (wd, name)))
        (fun r _ => ∀ parent found noted, r = some (parent, found, noted) →
          (name :: rest = [] ∧ noted = note) ∨
            ∃ last, (name :: rest).getLast? = some last ∧ noted = some (parent, last)) s := by
      intro wd ninode s
      cases rest with
      | nil =>
        unfold walkNoting
        rw [wp_bind]
        refine wp_any ?_
        intro n t parent found noted same
        injection same with same
        injection same with first same
        injection same with _ same
        exact Or.inr ⟨name, rfl, first ▸ same.symm⟩
      | cons next rest =>
        refine wp_mono (ih wd ninode (some (wd, name)) s) ?_
        intro r t post parent found noted same
        rcases post parent found noted same with ⟨no, _⟩ | ⟨last, isLast, noting⟩
        · cases no
        · exact Or.inr ⟨last, isLast, noting⟩
    unfold walkNoting
    rw [wp_bind]
    refine wp_any ?_
    intro n t
    cases n with
    | none =>
      simp only [wp_bind]
      refine wp_any fun _ _ => wp_any ?_
      intro _ _ parent found noted no
      cases no
    | some n =>
      simp only [wp_bind, wp_get]
      refine wp_any ?_
      intro _ u
      rw [wp_ite]
      constructor
      · intro _
        simp only [wp_bind]
        refine wp_any fun _ _ => wp_any ?_
        intro _ _ parent found noted no
        cases no
      · intro _
        rw [wp_ite]
        constructor
        · intro _
          simp only [wp_bind]
          refine wp_any fun _ _ => wp_any ?_
          intro _ _ parent found noted no
          cases no
        · intro _
          rw [wp_ite]
          constructor
          · intro _
            exact later n (some n) u
          · intro _
            rw [wp_bind]
            refine wp_any ?_
            rintro ⟨dir, found⟩ v
            exact later dir found v

end Walk

/-! ## The two readings of a path -/

section Strings
variable {path : List UInt8} {c : UInt8}

theorem components_name {a d : UInt8} {rest w : List UInt8} {ws : List (List UInt8)} (ha : a ≠ slash)
    (hd : d ≠ slash) (tail : components (d :: rest) = w :: ws) : components (a :: d :: rest) = (a :: w) :: ws := by
  rw [components, if_neg ha, if_neg hd, tail]

theorem components_slash (rest : List UInt8) : components (slash :: rest) = components rest := by
  cases rest with
  | nil => rfl
  | cons d rest => rw [components, if_pos rfl]

theorem components_end (a : UInt8) (rest : List UInt8) (ha : a ≠ slash) :
    components (a :: slash :: rest) = [a] :: components rest := by
  rw [components, if_neg ha, if_pos rfl, components_slash]

theorem components_one (a : UInt8) (ha : a ≠ slash) : components [a] = [[a]] := by
  rw [components, if_neg ha]

theorem components_ne_nil {d : UInt8} (rest : List UInt8) (hd : d ≠ slash) : components (d :: rest) ≠ [] := by
  cases rest with
  | nil => simp [components_one d hd]
  | cons e rest =>
    by_cases he : e = slash
    · simp [he, components_end d rest hd]
    · rw [components, if_neg hd, if_neg he]
      split <;> simp

/-- A path that ends within a component has one. -/
theorem components_some (within : path.getLast?.getD slash ≠ slash) : components path ≠ [] := by
  induction path with
  | nil => exact absurd rfl within
  | cons a rest ih =>
    by_cases ha : a = slash
    · rw [ha, components_slash]
      cases rest with
      | nil => exact absurd ha within
      | cons d rest =>
        rw [List.getLast?_cons_cons] at within
        exact ih within
    · exact components_ne_nil rest ha

/-- A slash at the end adds no component. -/
theorem components_append_slash (path : List UInt8) : components (path ++ [slash]) = components path := by
  induction path with
  | nil => rfl
  | cons a rest ih =>
    by_cases ha : a = slash
    · rw [ha, List.cons_append, components_slash, components_slash, ih]
    · cases rest with
      | nil =>
        rw [List.cons_append, List.nil_append, components_end a [] ha, components_one a ha]
        rfl
      | cons d rest =>
        rw [List.cons_append, List.cons_append]
        rw [List.cons_append] at ih
        by_cases hd : d = slash
        · rw [hd, components_end _ _ ha, components_end _ _ ha]
          rw [hd, components_slash, components_slash] at ih
          rw [ih]
        · obtain ⟨w, ws, same⟩ := List.exists_cons_of_ne_nil (components_ne_nil rest hd)
          rw [components_name ha hd same, components_name ha hd (ih.trans same)]

/-- A character at the end starts a component or belongs to the last one. -/
theorem components_append (path : List UInt8) (hc : c ≠ slash) : components (path ++ [c]) =
    if path.getLast?.getD slash = slash then components path ++ [[c]]
    else (components path).dropLast ++ [(components path).getLast?.getD [] ++ [c]] := by
  induction path with
  | nil => simp [components_one c hc, components]
  | cons a rest ih =>
    cases rest with
    | nil =>
      by_cases ha : a = slash
      · rw [ha, List.cons_append, List.nil_append, components_slash, components_one c hc]
        simp [components]
      · rw [List.cons_append, List.nil_append, components_name ha hc (components_one c hc), components_one a ha]
        simp [ha]
    | cons d rest =>
      rw [List.cons_append, List.cons_append]
      rw [List.cons_append] at ih
      rw [List.getLast?_cons_cons]
      by_cases ha : a = slash
      · rw [ha, components_slash, components_slash]
        exact ih
      · by_cases hd : d = slash
        · rw [hd] at ih ⊢
          rw [components_slash, components_slash] at ih
          rw [components_end _ _ ha, components_end _ _ ha, ih]
          by_cases fresh : (slash :: rest).getLast?.getD slash = slash
          · rw [if_pos fresh, if_pos fresh, List.cons_append]
          · rw [if_neg fresh, if_neg fresh]
            have some := components_some fresh
            rw [components_slash] at some
            obtain ⟨w, ws, same⟩ := List.exists_cons_of_ne_nil some
            rw [same, List.dropLast_cons_cons, List.getLast?_cons_cons, List.cons_append]
        · obtain ⟨w, ws, same⟩ := List.exists_cons_of_ne_nil (components_ne_nil rest hd)
          rw [components_name ha hd same]
          rw [same] at ih
          by_cases fresh : (d :: rest).getLast?.getD slash = slash
          · rw [if_pos fresh] at ih ⊢
            exact components_name ha hd ih
          · rw [if_neg fresh] at ih ⊢
            cases ws with
            | nil => exact components_name ha hd ih
            | cons v ws =>
              rw [List.dropLast_cons_cons] at ih ⊢
              exact components_name ha hd ih

theorem lastComponent_snoc (path : List UInt8) (hc : c ≠ slash) : lastComponent (path ++ [c]) =
    (path.reverse.takeWhile (· ≠ slash)).reverse ++ [c] := by
  have some : path ++ [c] ≠ [] := by simp
  rw [lastComponent, if_neg some, List.reverse_append, List.reverse_singleton, List.singleton_append,
    List.takeWhile_cons_of_pos (by simpa using hc), List.reverse_cons]

/-- What follows the last slash is the last component, if the path ends within one. -/
theorem components_last (path : List UInt8) (hc : c ≠ slash) :
    (components (path ++ [c])).getLast? = some (lastComponent (path ++ [c])) := by
  induction path using List.reverseRecOn generalizing c with
  | nil => simp [components_one c hc, lastComponent, hc]
  | append_singleton path d ih =>
    rw [lastComponent_snoc _ hc, components_append _ hc, List.getLast?_append_of_ne_nil _ (by simp),
      List.getLast?_singleton, Option.getD_some, List.reverse_append, List.reverse_singleton, List.singleton_append]
    by_cases hd : d = slash
    · rw [if_pos hd, List.getLast?_append_of_ne_nil _ (by simp), List.takeWhile_cons_of_neg (by simp [hd])]
      rfl
    · rw [if_neg hd, List.getLast?_append_of_ne_nil _ (by simp), ih hd, lastComponent_snoc _ hd,
        List.takeWhile_cons_of_pos (by simpa using hd), List.reverse_cons]
      rfl

/-- The components are not empty. -/
theorem components_real (path : List UInt8) : [] ∉ components path := by
  induction path using List.reverseRecOn with
  | nil => simp [components]
  | append_singleton path c ih =>
    by_cases hc : c = slash
    · rw [hc, components_append_slash]
      exact ih
    · rw [components_append path hc]
      split
      · simp [ih]
      · intro member
        rcases List.mem_append.mp member with before | last
        · exact ih (List.mem_of_mem_dropLast before)
        · simp at last

/-- `filename` finds the last component, but for two slashes at the end. -/
theorem filename_last {name : List UInt8} (last : (components path).getLast? = some name) :
    filename path = name.take FILENAME_LEN ↔ ¬ [slash, slash] <:+ path := by
  rcases List.eq_nil_or_concat' path with rfl | ⟨q, c, rfl⟩
  · simp [components] at last
  · have some : q ++ [c] ≠ [] := by simp
    by_cases hc : c = slash
    · rw [hc] at last ⊢
      rw [components_append_slash] at last
      have stripped : filename (q ++ [slash]) = (lastComponent q).take FILENAME_LEN := by
        rw [filename, if_neg (hc ▸ some), List.getLast?_concat, if_pos rfl, List.dropLast_concat]
      rw [stripped]
      rcases List.eq_nil_or_concat' q with rfl | ⟨p, d, rfl⟩
      · simp [components] at last
      · by_cases hd : d = slash
        · have double : [slash, slash] <:+ p ++ [d] ++ [slash] := ⟨p, by simp [hd]⟩
          have empty : lastComponent (p ++ [d]) = [] := by
            simp [lastComponent, hd]
          rw [empty]
          constructor
          · intro same
            have real : name ≠ [] := by
              intro no
              have member := List.mem_of_getLast? last
              rw [no] at member
              exact components_real (p ++ [d]) member
            cases name with
            | nil => exact absurd rfl real
            | cons b rest => simp [FILENAME_LEN] at same
          · exact fun no => absurd double no
        · rw [components_last p hd] at last
          injection last with same
          rw [same]
          refine iff_of_true rfl ?_
          rintro ⟨r, sides⟩
          have apart : r ++ [slash] ++ [slash] = p ++ [d] ++ [slash] := by simpa using sides
          have before := List.append_cancel_right apart
          have ends := congrArg List.getLast? before
          simp at ends
          exact hd ends.symm
    · rw [components_last q hc] at last
      injection last with same
      have whole : filename (q ++ [c]) = (lastComponent (q ++ [c])).take FILENAME_LEN := by
        rw [filename, if_neg some, List.getLast?_concat, if_neg (by simpa using hc)]
      rw [whole, same]
      refine iff_of_true rfl ?_
      rintro ⟨r, sides⟩
      have ends := congrArg List.getLast? sides
      simp at ends
      exact hc ends.symm

end Strings

/-! ## What a call that is given a parent acts on -/

theorem knWalk_noting (path : List UInt8) :
    knWalk path = Option.map (fun r => (r.1, r.2.1)) <$> knWalkNoting path := by
  unfold knWalk knWalkNoting
  simp only [map_bind, walk_noting _ _ _ none]

/-- A walk that ends with a parent has noted something there, if the path has components. -/
theorem lastLookup_of_run {s t : Kernel} {path : List UInt8} {r : Option Nat} {parent : Nat}
    (run : knOpenParent path s = .ok ((r, some parent), t)) :
    (components path = [] ∧ lastLookup path s = none) ∨
      ∃ name, (components path).getLast? = some name ∧ lastLookup path s = some (parent, name) := by
  have post : wp (fun _ => True) (knWalkNoting path) (fun r _ => ∀ parent found noted,
      r = some (parent, found, noted) → (components path = [] ∧ noted = none) ∨
        ∃ name, (components path).getLast? = some name ∧ noted = some (parent, name)) s := by
    unfold knWalkNoting
    simp only [wp_bind, wp_get]
    refine wp_any fun _ t => wp_any ?_
    intro _ u
    exact walkNoting_last _ _ _ none u
  have walked : wp (fun _ => True) (knOpenParent path) (fun out t => ∀ parent, out.2 = some parent →
      ∃ note, knWalkNoting path s = .ok (some (parent, out.1, note), t)) s := by
    unfold knOpenParent
    rw [wp_bind, knWalk_noting, wp_map]
    refine wp_mono (wp_run (wp_any (Q := fun _ _ => True) fun _ _ => trivial)) ?_
    rintro found u ⟨_, walked⟩
    cases found with
    | none =>
      intro parent no
      cases no
    | some found =>
      intro parent same
      injection same with same
      rw [← same]
      exact ⟨found.2.2, walked⟩
  obtain ⟨note, noted⟩ := wp_ok walked run parent rfl
  have looked : lastLookup path s = note := by
    unfold lastLookup
    rw [noted]
  rw [looked]
  exact wp_ok post noted parent r note rfl

/-- `filename` gives the component that was looked up last, and it was looked up in the parent, but
where the path has components and ends in two slashes. -/
theorem filename_looked_up {s t : Kernel} {path : List UInt8} {r : Option Nat} {parent : Nat}
    (run : knOpenParent path s = .ok ((r, some parent), t)) :
    (∀ dir name, lastLookup path s = some (dir, name) →
      dir = parent ∧ filename path = name.take FILENAME_LEN) ↔
    (components path = [] ∨ ¬ [slash, slash] <:+ path) := by
  rcases lastLookup_of_run run with ⟨empty, none'⟩ | ⟨name, last, looked⟩
  · rw [none']
    exact iff_of_true (fun _ _ no => by cases no) (Or.inl empty)
  · have some : components path ≠ [] := by
      intro empty
      rw [empty] at last
      cases last
    rw [looked]
    constructor
    · intro agrees
      exact Or.inr ((filename_last last).mp (agrees parent name rfl).2)
    · intro single dir name' same
      injection same with same
      injection same with sameDir sameName
      rw [← sameDir, ← sameName]
      exact ⟨rfl, (filename_last last).mpr (single.resolve_left some)⟩

/-- The path `/a/`, with one slash at the end. -/
def trailing : List UInt8 := [slash, 0x61, slash]

omit [Build] in
set_option maxRecDepth 10000 in
theorem filename_looked_up_trailing : ∃ t, @knOpenParent tiny trailing rootOnly = .ok ((none, some 0), t) ∧
    ∀ dir name, @lastLookup tiny trailing rootOnly = some (dir, name) →
      dir = 0 ∧ @filename tiny trailing = name.take FILENAME_LEN := by
  let _ := tiny
  have run : ∃ t, knOpenParent trailing rootOnly = .ok ((none, some 0), t) := ⟨_, rfl⟩
  obtain ⟨t, run⟩ := run
  exact ⟨t, run, (filename_looked_up run).mpr (Or.inr (by decide))⟩

omit [Build] in
set_option maxRecDepth 10000 in
/-- For `/a//` the walk looks up `a`, and `filename` gives the empty name. -/
theorem filename_lost : ∃ (_ : Build) (s t : Kernel) (path : List UInt8) (parent : Nat),
    knOpenParent path s = .ok ((none, some parent), t) ∧ lastLookup path s = some (parent, [0x61]) ∧
      filename path = [] :=
  ⟨tiny, rootOnly, _, trailing ++ [slash], 0, rfl, rfl, rfl⟩

end Fuzix
