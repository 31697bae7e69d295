import Fuzix.Netd

/-!
# Every link has one holder

A socket that the kernel has not seen closed holds the link that the kernel names for it. In
fair runs the free links and the held ones are the table, and each callback acts on the link
of the socket that made the connection.
-/

namespace Netd

open Table Run
open Sock (SockType SS_UNUSED SS_INIT SS_UNCONNECTED SS_BOUND SS_LISTENING SS_ACCEPTWAIT SS_CONNECTING
  SS_CONNECTED SS_CLOSED)

/-- The socket has had its link and has not been seen closed. -/
def lively (sl : Slot) : Prop := sl.s_state ≠ SS_UNUSED ∧ sl.s_state ≠ SS_INIT ∧ sl.s_state ≠ SS_CLOSED

/-- The states before a connection. -/
def early (sl : Slot) : Prop := sl.s_state = SS_UNCONNECTED ∨ sl.s_state = SS_BOUND

/-- What a deed is when nothing has gone wrong. -/
def right : Deed → Prop
  | .takes link used => link.isSome ∧ used = false
  | .returns holder user => holder.isSome ∧ holder = user
  | .acts holder maker => holder.isSome ∧ holder = maker
  | .tells user maker => maker = some user
  | .uses conn => conn.isSome

instance (d : Deed) : Decidable (right d) := by
  cases d with
  | takes => exact inferInstanceAs (Decidable (_ ∧ _))
  | returns => exact inferInstanceAs (Decidable (_ ∧ _))
  | acts => exact inferInstanceAs (Decidable (_ ∧ _))
  | tells => exact inferInstanceAs (Decidable (_ = _))
  | uses => exact inferInstanceAs (Decidable (_ = true))

/-- What a request says of the socket that has posted it. -/
structure posted (sl : Slot) (e : Nat) : Prop where
  init : e = SS_UNCONNECTED → sl.s_state = SS_INIT
  early : e = SS_BOUND ∨ e = SS_LISTENING ∨ e = SS_CONNECTING → early sl
  close : e = SS_CLOSED → sl.opened = false

/-- The link `l` and the socket that holds it. -/
structure Held (l u : Nat) (link : Link) (sl : Slot) : Prop where
  user : sl.user = u
  lcn : sl.lcn = l
  lively : lively sl
  dead : link.dead = false
  shutr : link.shutr = false
  /-- Before the connection there is none. -/
  early : early sl → link.conn = none
  type : ∀ c, link.conn = some c → sl.s_type = c.type
  udp : ∀ c, link.conn = some c → c.type = .UDP → link.lcn = l
  /-- A datagram socket is closed when the kernel says so. -/
  plain : sl.s_type = .UDP → link.closed = false

structure Sound [Limits] (s : State) : Prop where
  nodup : s.freelist.Nodup
  free : ∀ l, l ∈ s.freelist ↔ l < NSOCKET ∧ s.holder l = none
  bound : ∀ l u, s.holder l = some u → l < NSOCKET
  held : ∀ l u, s.holder l = some u → Held l u (s.map l) (s.slot (s.map l).socketn)
  live : ∀ n, lively (s.slot n) → s.holder (s.slot n).lcn = some (s.slot n).user ∧ (s.map (s.slot n).lcn).socketn = n
  small : ∀ n, (s.slot n).s_state ≠ SS_UNUSED → n < NSOCKET
  asked : ∀ n e, (s.slot n).event = some e → posted (s.slot n) e
  mine : ∀ c, (s.map (s.appstate c)).conn = some c → (s.map (s.appstate c)).dead ∨ (c.type ≠ .TCP ∧ s.bound c = false) ∨
    (s.holder (s.appstate c)).isSome ∧ s.holder (s.appstate c) = s.maker c
  udp : ∀ n, (s.slot n).s_type = .UDP → ((s.slot n).opened ∨ (s.slot n).event = some SS_CLOSED) → lively (s.slot n)
  deeds : ∀ d ∈ s.deeds, right d

section Parts

variable [Limits] {s : State} {l n u : Nat} {c : Conn}

theorem Sound.note (sound : Sound s) {d : Deed} (fine : right d) : Sound (note s d) := by
  refine { sound with deeds := ?_ }
  intro e member
  rcases List.mem_append.mp member with old | new
  · exact sound.deeds e old
  · rw [List.mem_singleton.mp new]
    exact fine

/-- A change of a link that leaves what the invariant reads. -/
theorem Sound.setLink (sound : Sound s) {f : Link → Link} (socketn : (f (s.map l)).socketn = (s.map l).socketn)
    (lcn : (f (s.map l)).lcn = (s.map l).lcn) (conn : (f (s.map l)).conn = (s.map l).conn)
    (dead : (f (s.map l)).dead = (s.map l).dead) (shutr : (f (s.map l)).shutr = (s.map l).shutr)
    (plain : ∀ u, s.holder l = some u → (s.slot (s.map l).socketn).s_type = .UDP → (f (s.map l)).closed = false) :
    Sound (setLink s l f) := by
  have socket : ∀ k, ((Netd.setLink s l f).map k).socketn = (s.map k).socketn := by
    intro k
    by_cases here : k = l
    · rw [here, setLink_same]
      exact socketn
    · rw [setLink_ne s f here]
  refine { sound with held := ?_, live := ?_, mine := ?_ }
  · intro k v holds
    have was := sound.held k v holds
    rw [socket k]
    by_cases here : k = l
    · rw [here] at was ⊢
      rw [setLink_same]
      exact {
        user := was.user, lcn := was.lcn, lively := was.lively
        dead := dead.trans was.dead
        shutr := shutr.trans was.shutr
        early := fun early => conn.trans (was.early early)
        type := fun c has => was.type c (conn.symm.trans has)
        udp := fun c has type => lcn.trans (was.udp c (conn.symm.trans has) type)
        plain := plain v (here ▸ holds) }
    · rw [setLink_ne s f here]
      exact was
  · intro m alive
    obtain ⟨holds, same⟩ := sound.live m alive
    exact ⟨holds, (socket _).trans same⟩
  · intro c has
    change ((Netd.setLink s l f).map (s.appstate c)).conn = some c at has
    change ((Netd.setLink s l f).map (s.appstate c)).dead = true ∨ (c.type ≠ .TCP ∧ s.bound c = false) ∨
      (s.holder (s.appstate c)).isSome ∧ s.holder (s.appstate c) = s.maker c
    by_cases here : s.appstate c = l
    · rw [here, setLink_same] at has
      have was := sound.mine c
      rw [here] at was ⊢
      rw [setLink_same, dead]
      exact was (conn.symm.trans has)
    · rw [setLink_ne s f here] at has ⊢
      exact sound.mine c has

/-- A change of a slot that leaves its link, its user and its type. -/
theorem Sound.setSlot (sound : Sound s) {f : Slot → Slot} (user : (f (s.slot n)).user = (s.slot n).user)
    (lcn : (f (s.slot n)).lcn = (s.slot n).lcn) (type : (f (s.slot n)).s_type = (s.slot n).s_type)
    (alive : lively (f (s.slot n)) ↔ lively (s.slot n))
    (small : (f (s.slot n)).s_state ≠ SS_UNUSED → n < NSOCKET)
    (before : lively (s.slot n) → early (f (s.slot n)) → (s.map (s.slot n).lcn).conn = none)
    (asked : ∀ e, (f (s.slot n)).event = some e → posted (f (s.slot n)) e)
    (udp : (s.slot n).s_type = .UDP → ((f (s.slot n)).opened ∨ (f (s.slot n)).event = some SS_CLOSED) →
      lively (f (s.slot n))) : Sound (setSlot s n f) := by
  refine { sound with held := ?_, live := ?_, small := ?_, asked := ?_, udp := ?_ }
  · intro k v holds
    have was := sound.held k v holds
    by_cases here : (s.map k).socketn = n
    · change Held k v (s.map k) ((Netd.setSlot s n f).slot (s.map k).socketn)
      rw [here] at was ⊢
      rw [setSlot_same]
      exact {
        user := user.trans was.user
        lcn := lcn.trans was.lcn
        lively := alive.mpr was.lively
        dead := was.dead, shutr := was.shutr
        early := fun early => was.lcn ▸ before was.lively early
        type := fun c has => type.trans (was.type c has)
        udp := was.udp
        plain := fun isUdp => was.plain (type.symm.trans isUdp) }
    · change Held k v (s.map k) ((Netd.setSlot s n f).slot (s.map k).socketn)
      rw [setSlot_ne s f here]
      exact was
  · intro m
    by_cases here : m = n
    · rw [here, setSlot_same]
      intro live
      rw [user, lcn]
      exact sound.live n (alive.mp live)
    · rw [setSlot_ne s f here]
      exact sound.live m
  · intro m
    by_cases here : m = n
    · rw [here, setSlot_same]
      exact small
    · rw [setSlot_ne s f here]
      exact sound.small m
  · intro m
    by_cases here : m = n
    · rw [here, setSlot_same]
      exact asked
    · rw [setSlot_ne s f here]
      exact sound.asked m
  · intro m
    by_cases here : m = n
    · rw [here, setSlot_same, type]
      exact udp
    · rw [setSlot_ne s f here]
      exact sound.udp m

omit [Limits] in
theorem early_lively {sl : Slot} (h : early sl) : lively sl := by
  unfold early at h
  unfold lively
  rcases h with state | state
  · rw [state]
    decide
  · rw [state]
    decide

omit [Limits] in
/-- The states after the early ones. -/
theorem beyond {sl : Slot} (h : sl.s_state = SS_ACCEPTWAIT ∨ sl.s_state = SS_CONNECTED ∨
    sl.s_state = SS_CONNECTING ∨ sl.s_state = SS_LISTENING) : lively sl ∧ ¬ early sl := by
  unfold lively early
  rcases h with state | state | state | state
  · rw [state]
    decide
  · rw [state]
    decide
  · rw [state]
    decide
  · rw [state]
    decide

/-- The socket of a held link. -/
theorem Sound.socket (sound : Sound s) (holds : s.holder l = some u) :
    (s.slot (s.map l).socketn).s_state ≠ SS_UNUSED ∧ (s.map l).socketn < NSOCKET := by
  have alive := (sound.held l u holds).lively
  exact ⟨alive.1, sound.small _ alive.1⟩

/-- Two held links have different sockets. -/
theorem Sound.distinct (sound : Sound s) (holds : s.holder l = some u) {k v : Nat} (other : s.holder k = some v)
    (ne : k ≠ l) : (s.map k).socketn ≠ (s.map l).socketn := by
  intro same
  have first := (sound.held l u holds).lcn
  have second := (sound.held k v other).lcn
  rw [same] at second
  exact ne (second.symm.trans first)

/-- The socket `n` is seen closed and its link `l` is released, be it dead or without a
connection that uIP has. -/
theorem Sound.release (sound : Sound s) {t : State} (holds : s.holder l = some u) (socket : (s.map l).socketn = n)
    (freelist : t.freelist = l :: s.freelist) (holder : t.holder = put s.holder l none)
    (others : ∀ k, k ≠ l → t.map k = s.map k) (slots : ∀ m, m ≠ n → t.slot m = s.slot m)
    (closed : (t.slot n).s_state = SS_CLOSED) (asked : ∀ e, (t.slot n).event = some e → posted (t.slot n) e)
    (udp : (t.slot n).s_type = .UDP → ¬ ((t.slot n).opened ∨ (t.slot n).event = some SS_CLOSED))
    (appstate : t.appstate = s.appstate) (maker : t.maker = s.maker)
    (fewer : ∀ c, s.bound c = false → t.bound c = false)
    (gone : ∀ c, s.appstate c = l → (t.map l).conn = some c →
      (t.map l).dead = true ∨ c.type ≠ .TCP ∧ t.bound c = false)
    (deeds : ∀ d ∈ t.deeds, right d) : Sound t where
  nodup := by
    rw [freelist, List.nodup_cons]
    refine ⟨?_, sound.nodup⟩
    intro member
    have no := ((sound.free l).mp member).2
    rw [holds] at no
    cases no
  free k := by
    rw [freelist, holder, List.mem_cons, sound.free k, put_apply]
    by_cases here : k = l
    · have less := sound.bound l u holds
      simp [here, less]
    · simp [here]
  bound k v := by
    rw [holder, put_apply]
    split
    · intro no
      cases no
    · exact sound.bound k v
  held k v := by
    rw [holder, put_apply]
    split
    · intro no
      cases no
    · rename_i other
      intro has
      have ne := sound.distinct holds has other
      rw [others k other, slots _ (socket ▸ ne)]
      exact sound.held k v has
  live m alive := by
    have other : m ≠ n := by
      intro here
      rw [here] at alive
      exact alive.2.2 closed
    rw [slots m other] at alive ⊢
    obtain ⟨has, same⟩ := sound.live m alive
    have ne : (s.slot m).lcn ≠ l := by
      intro here
      rw [here, socket] at same
      exact other same.symm
    rw [holder, put_ne s.holder none ne, others _ ne]
    exact ⟨has, same⟩
  small m used := by
    by_cases here : m = n
    · rw [here, ← socket]
      exact (sound.socket holds).2
    · rw [slots m here] at used
      exact sound.small m used
  asked m := by
    by_cases here : m = n
    · rw [here]
      exact asked
    · rw [slots m here]
      exact sound.asked m
  mine c has := by
    rw [appstate] at has ⊢
    by_cases here : s.appstate c = l
    · rw [here] at has ⊢
      rcases gone c here has with dead | removed
      · exact Or.inl dead
      · exact Or.inr (Or.inl removed)
    · rw [others _ here] at has ⊢
      rw [holder, put_ne s.holder none here, maker]
      rcases sound.mine c has with dead | removed | kept
      · exact Or.inl dead
      · exact Or.inr (Or.inl ⟨removed.1, fewer c removed.2⟩)
      · exact Or.inr (Or.inr kept)
  udp m := by
    by_cases here : m = n
    · rw [here]
      intro type some
      exact absurd some (udp type)
    · rw [slots m here]
      exact sound.udp m
  deeds := deeds

/-- With a socket that holds no link a link is free. -/
theorem Sound.some_free (sound : Sound s) (less : n < NSOCKET) (idle : ¬ lively (s.slot n)) : s.freelist ≠ [] := by
  intro empty
  have all : ∀ l, l < NSOCKET → ∃ u, s.holder l = some u := by
    intro l small
    cases holds : s.holder l with
    | none =>
      have member := (sound.free l).mpr ⟨small, holds⟩
      rw [empty] at member
      cases member
    | some u => exact ⟨u, rfl⟩
  have into : Set.MapsTo (fun l => (s.map l).socketn) (Finset.range NSOCKET) ((Finset.range NSOCKET).erase n) := by
    intro l member
    obtain ⟨u, holds⟩ := all l (Finset.mem_range.mp member)
    have other : (s.map l).socketn ≠ n := by
      intro here
      exact idle (here ▸ (sound.held l u holds).lively)
    exact Finset.mem_erase.mpr ⟨other, Finset.mem_range.mpr (sound.socket holds).2⟩
  have fewer : ((Finset.range NSOCKET).erase n).card < (Finset.range NSOCKET).card :=
    Finset.card_erase_lt_of_mem (Finset.mem_range.mpr less)
  obtain ⟨k, hk, l, hl, ne, same⟩ := Finset.exists_ne_map_eq_of_card_lt_of_maps_to fewer into
  obtain ⟨v, other⟩ := all k (Finset.mem_range.mp hk)
  obtain ⟨u, holds⟩ := all l (Finset.mem_range.mp hl)
  exact sound.distinct holds other ne same

/-! ## Callbacks -/

/-- The link `l` is held by `u`, which made the connection `c` of it. -/
structure Owned (s : State) (l u : Nat) (c : Conn) : Prop where
  holds : s.holder l = some u
  conn : (s.map l).conn = some c

theorem Sound.alive (sound : Sound s) (owned : Owned s l u c) : lively (s.slot (s.map l).socketn) ∧
    ¬ early (s.slot (s.map l).socketn) ∧ (s.slot (s.map l).socketn).user = u ∧
    (s.slot (s.map l).socketn).lcn = l := by
  have held := sound.held l u owned.holds
  refine ⟨held.lively, ?_, held.user, held.lcn⟩
  intro early
  have none := held.early early
  rw [owned.conn] at none
  cases none

/-- A request that is posted for a socket with a connection is its close. -/
theorem Sound.pending (sound : Sound s) (owned : Owned s l u c) {e : Nat}
    (has : (s.slot (s.map l).socketn).event = some e) {sl : Slot}
    (opened : sl.opened = (s.slot (s.map l).socketn).opened) : posted sl e := by
  obtain ⟨alive, notEarly, _⟩ := sound.alive owned
  have was := sound.asked _ e has
  constructor
  · intro no
    exact absurd (was.init no) alive.2.1
  · intro no
    exact absurd (was.early no) notEarly
  · intro closes
    exact opened.trans (was.close closes)

/-- The states that a callback tells of while the socket is not closed. -/
def later (state : Option Nat) : Prop := ∀ st, state = some st → st = SS_ACCEPTWAIT ∨ st = SS_CONNECTED

theorem Sound.tell (sound : Sound s) (owned : Owned s l u c) {state : Option Nat} (fine : later state) :
    Sound (tell s (s.map l).socketn (some u) state) ∧ Owned (tell s (s.map l).socketn (some u) state) l u c := by
  obtain ⟨alive, notEarly, user, lcn⟩ := sound.alive owned
  have told : ∀ sl : Slot, lively sl → ¬ early sl → lively { sl with s_state := state.getD sl.s_state } ∧
      ¬ early { sl with s_state := state.getD sl.s_state } := by
    intro sl live old
    cases state with
    | none => exact ⟨live, old⟩
    | some st =>
      rcases fine st rfl with same | same
      · exact beyond (Or.inl same)
      · exact beyond (Or.inr (Or.inl same))
  obtain ⟨live, none⟩ := told _ alive notEarly
  refine ⟨Sound.note (Sound.setSlot sound rfl rfl rfl ⟨fun _ => alive, fun _ => live⟩
    (fun _ => (sound.socket owned.holds).2) (fun _ no => absurd no none) ?_ fun _ _ => live) ?_,
    ⟨owned.holds, owned.conn⟩⟩
  · intro e has
    exact sound.pending owned has rfl
  · exact congrArg some user.symm

/-- A change of the flags of an own link. -/
theorem Sound.flags (sound : Sound s) (owned : Owned s l u c) {f : Link → Link}
    (same : ∀ link, (f link).socketn = link.socketn ∧ (f link).lcn = link.lcn ∧ (f link).conn = link.conn ∧
      (f link).dead = link.dead ∧ (f link).shutr = link.shutr ∧ (link.closed = false → (f link).closed = false)) :
    Sound (Netd.setLink s l f) ∧ Owned (Netd.setLink s l f) l u c := by
  obtain ⟨socketn, lcn, conn, dead, shutr, closed⟩ := same (s.map l)
  constructor
  · exact sound.setLink socketn lcn conn dead shutr
      fun v holds udp => closed ((sound.held l v holds).plain udp)
  · refine ⟨owned.holds, ?_⟩
    rw [setLink_same, conn]
    exact owned.conn

theorem Sound.connected (sound : Sound s) (owned : Owned s l u c) (lport : Nat) :
    Sound (connected s l lport (some u)) ∧ Owned (connected s l lport (some u)) l u c := by
  unfold Netd.connected
  split
  · exact sound.tell owned fun st same => Or.inl (Option.some.inj same).symm
  · have fine : later (some SS_CONNECTED) := fun st same => Or.inr (Option.some.inj same).symm
    obtain ⟨told, still⟩ := sound.tell owned fine
    exact told.flags still fun link => ⟨rfl, rfl, rfl, rfl, rfl, id⟩

theorem Sound.tellIf (sound : Sound s) (owned : Owned s l u c) (b : Prop) [Decidable b] :
    Sound (if b then Netd.tell s (s.map l).socketn (some u) none else s) ∧
    Owned (if b then Netd.tell s (s.map l).socketn (some u) none else s) l u c := by
  split
  · exact sound.tell owned fun st no => by cases no
  · exact ⟨sound, owned⟩

theorem Sound.arrived (sound : Sound s) (owned : Owned s l u c) (lport : Nat) (f : Flags) :
    Sound (arrived s l lport (some u) f) ∧ Owned (arrived s l lport (some u) f) l u c := by
  have first : Sound (Netd.note s (.acts (s.holder l) (some u))) :=
    sound.note ⟨by rw [owned.holds]; rfl, owned.holds⟩
  have still : Owned (Netd.note s (.acts (s.holder l) (some u))) l u c := ⟨owned.holds, owned.conn⟩
  unfold Netd.arrived
  dsimp only
  have next : ∀ s', Sound s' → Owned s' l u c →
      Sound (if f.connected then Netd.connected s' l lport (some u) else s') ∧
      Owned (if f.connected then Netd.connected s' l lport (some u) else s') l u c := by
    intro s' sound' owned'
    split
    · exact sound'.connected owned' lport
    · exact ⟨sound', owned'⟩
  obtain ⟨second, still⟩ := next _ first still
  obtain ⟨third, still⟩ := second.tellIf still (f.newdata = true)
  exact third.tellIf still (f.acked = true)

/-- The end of a link in a callback on its connection. -/
theorem Sound.drop (sound : Sound s) (owned : Owned s l u c) (type : c.type ≠ .UDP) (f : Link → Link) :
    Sound (drop (Netd.setLink s l f) l (s.map l).socketn (some u)) := by
  have held := sound.held l u owned.holds
  have slots := drop_slot (Netd.setLink s l f) l (s.map l).socketn (some u)
  have links := drop_map (Netd.setLink s l f) l (s.map l).socketn (some u)
  refine sound.release (n := (s.map l).socketn) owned.holds rfl rfl rfl ?_ ?_ ?_ ?_ ?_ rfl rfl ?_ ?_ ?_
  · intro k other
    rw [links, put_ne _ _ other]
    exact setLink_ne s f other
  · intro m other
    rw [slots, put_ne _ _ other]
    rfl
  · rw [slots, put_same]
  · intro e has
    rw [slots, put_same] at has ⊢
    exact sound.pending owned has rfl
  · rw [slots, put_same]
    intro udp
    exact absurd ((held.type c owned.conn).symm.trans udp) type
  · intro _ no
    exact no
  · intro c' _ _
    left
    rw [links, put_same]
  · intro d member
    rw [drop_deeds] at member
    rcases List.mem_append.mp member with before | last
    · rcases List.mem_append.mp before with old | told
      · exact sound.deeds d old
      · rw [List.mem_singleton.mp told]
        exact congrArg some held.user.symm
    · rw [List.mem_singleton.mp last]
      exact ⟨(congrArg Option.isSome owned.holds).trans rfl, owned.holds⟩

theorem arrived_closed (s : State) (l lport : Nat) (maker : Option Nat) (f : Flags) :
    ((arrived s l lport maker f).map l).closed = (s.map l).closed := by
  have same : ∀ s : State, ((connected s l lport maker).map l).closed = (s.map l).closed := by
    intro s
    unfold connected
    split
    · rfl
    · rw [setLink_same]
      rfl
  unfold arrived
  dsimp only
  split_ifs
  all_goals first
    | exact same _
    | rfl

omit [Limits] in
/-- The end of `netd_appcall` does nothing more for a link that a poll has closed. -/
theorem ended_closed {l : Nat} (maker : Option Nat) (shutr : (s.map l).shutr = false) (shutw : (s.map l).shutw = true) :
    ended s l maker { noFlags with closed := true } = s := by
  simp [ended, noFlags, shutr, shutw]

/-- The end of a link that has not been changed before. -/
theorem Sound.drop' (sound : Sound s) (owned : Owned s l u c) (type : c.type ≠ .UDP) :
    Sound (Netd.drop s l (s.map l).socketn (some u)) := by
  have plain : Netd.setLink s l id = s := by
    unfold Netd.setLink
    rw [id, put_self]
  have dropped := sound.drop owned type id
  rw [plain] at dropped
  exact dropped

theorem Sound.ended (sound : Sound s) (owned : Owned s l u c) (type : c.type ≠ .UDP) (f : Flags) :
    Sound (ended s l (some u) f) := by
  have shutr := (sound.held l u owned.holds).shutr
  unfold Netd.ended
  split
  · exact sound.drop owned type _
  · split
    · exact sound.drop' owned type
    · split
      · rw [shutr]
        simp only [Bool.false_eq_true, false_and, if_false]
        exact (sound.tellIf owned _).1
      · exact sound

theorem Sound.appcall (sound : Sound s) (c : Nat) (f : Flags) (outstanding : Bool) (lport : Nat)
    (fine : (s.map (s.appstate (.tcp c))).dead = true ∨ (s.map (s.appstate (.tcp c))).conn = some (.tcp c) ∧
      (f.poll = true → (s.map (s.appstate (.tcp c))).closed = true → outstanding = false)) :
    Sound (appcall s c f outstanding lport) := by
  unfold Netd.appcall
  dsimp only
  split
  · exact sound
  · rename_i alive
    rcases fine with dead | ⟨conn, quiet⟩
    · exact absurd dead alive
    · rcases sound.mine (.tcp c) conn with dead | no | ⟨some, mine⟩
      · exact absurd dead alive
      · exact absurd rfl no.1
      · obtain ⟨u, holds⟩ := Option.isSome_iff_exists.mp some
        rw [← mine, holds]
        obtain ⟨next, owned⟩ := sound.arrived ⟨holds, conn⟩ lport f
        have closed := arrived_closed s (s.appstate (.tcp c)) lport (Option.some u) f
        revert next owned closed
        generalize Netd.arrived s (s.appstate (.tcp c)) lport (Option.some u) f = t
        intro next owned closed
        unfold pollClose
        split
        · rename_i both
          have none : outstanding = false := quiet both.1 (closed.symm.trans both.2)
          rw [none]
          have dropped := next.drop owned (by simp [Conn.type]) fun link => { link with closed := false, shutw := true }
          have link := drop_map (Netd.setLink t (s.appstate (.tcp c)) fun link =>
            { link with closed := false, shutw := true }) (s.appstate (.tcp c)) (t.map (s.appstate (.tcp c))).socketn
            (Option.some u)
          have shutr := (next.held _ u owned.holds).shutr
          rw [if_neg (by decide), ended_closed]
          · exact dropped
          · rw [link, put_same, setLink_same]
            exact shutr
          · rw [link, put_same, setLink_same]
        · exact next.ended owned (by simp [Conn.type]) f

theorem Sound.unbind (sound : Sound s) (c : Conn) : Sound { s with bound := put s.bound c false } := by
  refine { sound with mine := ?_ }
  intro c' has
  rcases sound.mine c' has with dead | gone | kept
  · exact Or.inl dead
  · right
    left
    refine ⟨gone.1, ?_⟩
    change put s.bound c false c' = false
    rw [put_apply]
    split
    · rfl
    · exact gone.2
  · exact Or.inr (Or.inr kept)

theorem Sound.sending (sound : Sound s) (owned : Owned s l u c) (f : Flags) :
    Sound (sending s l (some u) f) ∧ Owned (sending s l (some u) f) l u c := by
  have first : Sound (Netd.note s (.acts (s.holder l) (some u))) :=
    sound.note ⟨by rw [owned.holds]; rfl, owned.holds⟩
  exact first.tellIf ⟨owned.holds, owned.conn⟩ (f.poll = true ∧ f.tosend = true)

omit [Limits] in
theorem sending_same (s : State) (l : Nat) (maker : Option Nat) (f : Flags) :
    (sending s l maker f).map = s.map ∧ (sending s l maker f).s_num = s.s_num := by
  unfold sending
  dsimp only
  split
  · exact ⟨rfl, rfl⟩
  · exact ⟨rfl, rfl⟩

theorem Sound.dgramcall (sound : Sound s) {c : Conn} (bound : s.bound c = true) (f : Flags)
    (fine : (s.map (s.appstate c)).dead = true ∨ (s.map (s.appstate c)).conn = some c ∧
      (f.poll = true → (s.map (s.appstate c)).closed = true → s.s_num = (s.map (s.appstate c)).socketn)) :
    Sound (dgramcall s c f) := by
  unfold Netd.dgramcall
  dsimp only
  split
  · exact sound
  · rename_i alive
    rcases fine with dead | ⟨conn, quiet⟩
    · exact absurd dead alive
    · rcases sound.mine c conn with dead | gone | ⟨some, mine⟩
      · exact absurd dead alive
      · rw [gone.2] at bound
        cases bound
      · obtain ⟨u, holds⟩ := Option.isSome_iff_exists.mp some
        rw [← mine, holds]
        obtain ⟨next, owned⟩ := sound.sending ⟨holds, conn⟩ f
        obtain ⟨map, num⟩ := sending_same s (s.appstate c) (Option.some u) f
        revert next owned map num
        generalize Netd.sending s (s.appstate c) (Option.some u) f = t
        intro next owned map num
        have held := next.held _ u owned.holds
        split
        · rename_i both
          have raw : c.type ≠ .UDP := by
            intro udp
            have plain := held.plain ((held.type c owned.conn).trans udp)
            rw [plain] at both
            cases both.2
          rw [map] at both
          have number : t.s_num = (t.map (s.appstate c)).socketn := by
            rw [map, num]
            exact quiet both.1 both.2
          rw [number]
          exact (next.drop' owned raw).unbind c
        · exact (next.tellIf owned (f.newdata = true)).1

/-! ## Requests -/

/-- What a socket that holds no link posts changes no other. -/
theorem Sound.setIdle (sound : Sound s) {f : Slot → Slot} (idle : ¬ lively (s.slot n)) (still : ¬ lively (f (s.slot n)))
    (less : n < NSOCKET) (asked : ∀ e, (f (s.slot n)).event = some e → posted (f (s.slot n)) e)
    (udp : ¬ ((f (s.slot n)).opened ∨ (f (s.slot n)).event = some SS_CLOSED)) : Sound (Netd.setSlot s n f) := by
  refine { sound with held := ?_, live := ?_, small := ?_, asked := ?_, udp := ?_ }
  · intro k v holds
    have was := sound.held k v holds
    have other : (s.map k).socketn ≠ n := by
      intro here
      exact idle (here ▸ was.lively)
    change Held k v (s.map k) ((Netd.setSlot s n f).slot (s.map k).socketn)
    rw [setSlot_ne s f other]
    exact was
  · intro m
    by_cases here : m = n
    · rw [here, setSlot_same]
      intro no
      exact absurd no still
    · rw [setSlot_ne s f here]
      exact sound.live m
  · intro m
    by_cases here : m = n
    · rw [here]
      intro _
      exact less
    · rw [setSlot_ne s f here]
      exact sound.small m
  · intro m
    by_cases here : m = n
    · rw [here, setSlot_same]
      exact asked
    · rw [setSlot_ne s f here]
      exact sound.asked m
  · intro m
    by_cases here : m = n
    · rw [here, setSlot_same]
      intro _ no
      exact absurd no udp
    · rw [setSlot_ne s f here]
      exact sound.udp m

omit [Limits] in
theorem init_eq {rest : List Nat} (free : s.freelist = l :: rest) (n : Nat) :
    (init s n).freelist = rest ∧ (init s n).map = put s.map l { blank with socketn := n } ∧
    (init s n).holder = put s.holder l (some (s.slot n).user) ∧
    (init s n).slot = put s.slot n { s.slot n with lcn := l, s_state := SS_UNCONNECTED, opened := true } ∧
    (init s n).appstate = s.appstate ∧ (init s n).maker = s.maker ∧ (init s n).bound = s.bound ∧
    (init s n).deeds = s.deeds ++ [.takes (some l) (s.holder l).isSome] := by
  unfold init get_map
  rw [free]
  refine ⟨rfl, ?_, rfl, rfl, rfl, rfl, rfl, rfl⟩
  change put (put s.map l blank) l _ = _
  rw [put_put]
  exact congrArg (put s.map l) (congrArg (fun link : Link => { link with socketn := n }) (put_same s.map l blank))

/-- A new socket gets a free link. -/
theorem Sound.init (sound : Sound s) (idle : (s.slot n).s_state = SS_INIT) (quiet : (s.slot n).event = none) :
    Sound (init s n) := by
  have notLively : ¬ lively (s.slot n) := fun live => live.2.1 idle
  have less : n < NSOCKET := by
    refine sound.small n ?_
    rw [idle]
    decide
  have some := sound.some_free less notLively
  cases free : s.freelist with
  | nil => exact absurd free some
  | cons l rest =>
    obtain ⟨freelist, map, holder, slot, appstate, maker, bound, deeds⟩ := init_eq free n
    obtain ⟨small, unheld⟩ := (sound.free l).mp (free ▸ List.mem_cons_self)
    have nodup := sound.nodup
    rw [free, List.nodup_cons] at nodup
    have socket : ∀ k v, s.holder k = Option.some v → (s.map k).socketn ≠ n := by
      intro k v holds here
      exact notLively (here ▸ (sound.held k v holds).lively)
    have other : ∀ k v, s.holder k = Option.some v → k ≠ l := by
      intro k v holds here
      rw [here, unheld] at holds
      cases holds
    constructor
    · rw [freelist]
      exact nodup.2
    · intro k
      rw [freelist, holder, put_apply]
      have was := sound.free k
      rw [free, List.mem_cons] at was
      by_cases here : k = l
      · simp [here, nodup.1]
      · simpa [here] using was
    · intro k v
      rw [holder, put_apply]
      split
      · rename_i here
        intro _
        rw [here]
        exact small
      · exact sound.bound k v
    · intro k v holds
      rw [holder, put_apply] at holds
      rw [map, slot]
      by_cases here : k = l
      · rw [if_pos here] at holds
        injection holds with holds
        rw [here, put_same, put_same]
        exact {
          user := holds, lcn := rfl, lively := by unfold lively; simp [SS_UNUSED, SS_INIT, SS_UNCONNECTED, SS_CLOSED]
          dead := rfl, shutr := rfl, early := fun _ => rfl
          type := fun c no => by cases no
          udp := fun c no => by cases no
          plain := fun _ => rfl }
      · rw [if_neg here] at holds
        rw [put_ne _ _ here, put_ne _ _ (socket k v holds)]
        exact sound.held k v holds
    · intro m alive
      rw [slot] at alive ⊢
      rw [holder, map]
      by_cases here : m = n
      · rw [here, put_same, put_same, put_same]
        exact ⟨rfl, rfl⟩
      · rw [put_ne _ _ here] at alive ⊢
        obtain ⟨holds, same⟩ := sound.live m alive
        rw [put_ne _ _ (other _ _ holds), put_ne _ _ (other _ _ holds)]
        exact ⟨holds, same⟩
    · intro m used
      rw [slot] at used
      by_cases here : m = n
      · rw [here]
        exact less
      · rw [put_ne _ _ here] at used
        exact sound.small m used
    · intro m e has
      rw [slot] at has ⊢
      by_cases here : m = n
      · rw [here, put_same] at has
        have no : (s.slot n).event = Option.some e := has
        rw [quiet] at no
        cases no
      · rw [put_ne _ _ here] at has ⊢
        exact sound.asked m e has
    · intro c has
      rw [map, appstate] at has
      rw [map, appstate, bound, holder, maker]
      by_cases here : s.appstate c = l
      · rw [here, put_same] at has
        cases has
      · rw [put_ne _ _ here] at has
        rw [put_ne _ _ here, put_ne _ _ here]
        exact sound.mine c has
    · intro m
      rw [slot]
      by_cases here : m = n
      · rw [here, put_same]
        intro _ _
        unfold lively
        simp [SS_UNUSED, SS_INIT, SS_UNCONNECTED, SS_CLOSED]
      · rw [put_ne _ _ here]
        exact sound.udp m
    · intro d member
      rw [deeds] at member
      rcases List.mem_append.mp member with old | new
      · exact sound.deeds d old
      · rw [List.mem_singleton.mp new, unheld]
        exact ⟨rfl, rfl⟩

omit [Limits] in
theorem joined_eq (s : State) (n : Nat) (c : Conn) (state : Nat) :
    (answer (joined s n c) n state).freelist = s.freelist ∧ (answer (joined s n c) n state).holder = s.holder ∧
    (answer (joined s n c) n state).map = put s.map (s.slot n).lcn { s.map (s.slot n).lcn with
      conn := some c, lcn := if c.type = .UDP then (s.slot n).lcn else (s.map (s.slot n).lcn).lcn } ∧
    (answer (joined s n c) n state).slot = put s.slot n { s.slot n with s_state := state } ∧
    (answer (joined s n c) n state).appstate = put s.appstate c (s.slot n).lcn ∧
    (answer (joined s n c) n state).maker = put s.maker c (some (s.slot n).user) ∧
    (answer (joined s n c) n state).bound = put s.bound c true ∧
    (answer (joined s n c) n state).deeds = s.deeds :=
  ⟨rfl, rfl, rfl, rfl, rfl, rfl, rfl, rfl⟩

/-- A socket gets a connection. -/
theorem Sound.joined (sound : Sound s) (before : early (s.slot n)) (quiet : (s.slot n).event = none) {c : Conn}
    (type : (s.slot n).s_type = c.type) {state : Nat} (fine : state = SS_CONNECTING ∨ state = SS_CONNECTED) :
    Sound (answer (joined s n c) n state) := by
  have alive := early_lively before
  obtain ⟨holds, socket⟩ := sound.live n alive
  have was := sound.held _ _ holds
  rw [socket] at was
  have after : ∀ sl : Slot, lively { sl with s_state := state } ∧ ¬ early { sl with s_state := state } := by
    intro sl
    rcases fine with same | same
    · exact beyond (Or.inr (Or.inr (Or.inl same)))
    · exact beyond (Or.inr (Or.inl same))
  obtain ⟨freelist, holder, map, slot, appstate, maker, bound, deeds⟩ := joined_eq s n c state
  have sockets : ∀ k, ((answer (Netd.joined s n c) n state).map k).socketn = (s.map k).socketn := by
    intro k
    rw [map]
    by_cases here : k = (s.slot n).lcn
    · rw [here, put_same]
    · rw [put_ne _ _ here]
  constructor
  · rw [freelist]
    exact sound.nodup
  · rw [freelist, holder]
    exact sound.free
  · rw [holder]
    exact sound.bound
  · intro k v has
    rw [holder] at has
    rw [sockets k, map, slot]
    by_cases here : k = (s.slot n).lcn
    · rw [here] at has ⊢
      rw [holds] at has
      injection has with same
      rw [socket, put_same, put_same]
      exact {
        user := same
        lcn := rfl
        lively := (after _).1
        dead := was.dead, shutr := was.shutr
        early := fun no => absurd no (after _).2
        type := fun c' new => (Option.some.inj new) ▸ type
        udp := fun c' new udp => if_pos ((Option.some.inj new).symm ▸ udp)
        plain := was.plain }
    · rw [put_ne _ _ here, put_ne _ _ (socket ▸ sound.distinct holds has here)]
      exact sound.held k v has
  · intro m live
    rw [slot] at live ⊢
    rw [holder, sockets]
    by_cases here : m = n
    · rw [here, put_same]
      exact ⟨holds, socket⟩
    · rw [put_ne _ _ here] at live ⊢
      exact sound.live m live
  · intro m used
    rw [slot] at used
    by_cases here : m = n
    · rw [here]
      exact sound.small n alive.1
    · rw [put_ne _ _ here] at used
      exact sound.small m used
  · intro m e has
    rw [slot] at has ⊢
    by_cases here : m = n
    · rw [here, put_same] at has
      have no : (s.slot n).event = some e := has
      rw [quiet] at no
      cases no
    · rw [put_ne _ _ here] at has ⊢
      exact sound.asked m e has
  · intro c' has
    rw [map, appstate] at has
    rw [map, appstate, bound, holder, maker]
    by_cases here : c' = c
    · rw [here, put_same, put_same, holds]
      exact Or.inr (Or.inr ⟨rfl, (put_same s.maker c _).symm⟩)
    · rw [put_ne _ _ here] at has ⊢
      rw [put_ne _ _ here, put_ne _ _ here]
      by_cases there : s.appstate c' = (s.slot n).lcn
      · rw [there, put_same] at has
        injection has with same
        exact absurd same.symm here
      · rw [put_ne _ _ there] at has ⊢
        exact sound.mine c' has
  · intro m
    rw [slot]
    by_cases here : m = n
    · rw [here, put_same]
      intro _ _
      exact (after _).1
    · rw [put_ne _ _ here]
      exact sound.udp m
  · rw [deeds]
    exact sound.deeds

/-- An answer that leaves the socket as it is but for its state. -/
theorem Sound.answer (sound : Sound s) (before : early (s.slot n)) (quiet : (s.slot n).event = none) {state : Nat}
    (fine : state = SS_BOUND ∨ state = SS_LISTENING) : Sound (answer s n state) := by
  have alive := early_lively before
  obtain ⟨holds, socket⟩ := sound.live n alive
  have was := sound.held _ _ holds
  rw [socket] at was
  have after : lively { s.slot n with s_state := state } := by
    rcases fine with same | same
    · exact early_lively (Or.inr same)
    · exact (beyond (Or.inr (Or.inr (Or.inr same)))).1
  refine sound.setSlot rfl rfl rfl ⟨fun _ => alive, fun _ => after⟩ (fun _ => sound.small n alive.1)
    (fun _ _ => was.early before) ?_ fun _ _ => after
  intro e has
  have no : (s.slot n).event = some e := has
  rw [quiet] at no
  cases no

theorem Sound.connecting (sound : Sound s) (before : early (s.slot n)) (quiet : (s.slot n).event = none)
    (new : Option Nat) (fine : (s.slot n).s_type = .TCP → new.isSome) : Sound (connecting s n new) := by
  unfold Netd.connecting
  split
  · rename_i type
    have no := fine type
    cases no
  · rename_i c type
    exact sound.joined before quiet (c := .tcp c) type (Or.inl rfl)
  · rename_i c type
    exact sound.joined before quiet (c := .udp c) type (Or.inr rfl)
  · rename_i c type
    exact sound.joined before quiet (c := .raw c) type (Or.inr rfl)
  · exact sound

theorem Sound.listening (sound : Sound s) (before : early (s.slot n)) (quiet : (s.slot n).event = none) (port : Nat) :
    Sound (listening s n port) := by
  have set : Sound (Netd.setLink s (s.slot n).lcn fun link => { link with port := port }) :=
    sound.setLink rfl rfl rfl rfl rfl fun u holds udp => (sound.held _ u holds).plain udp
  exact set.answer before quiet (Or.inr rfl)

omit [Limits] in
theorem closing_udp (udp : (s.slot n).s_type = .UDP) (has : (s.map (s.slot n).lcn).conn = some c)
    (lcn : (s.map (s.slot n).lcn).lcn = l) : (closing s n).freelist = l :: s.freelist ∧
    (closing s n).holder = put s.holder l none ∧ (closing s n).map = s.map ∧
    (closing s n).slot = put s.slot n { s.slot n with s_state := SS_CLOSED } ∧
    (closing s n).appstate = s.appstate ∧ (closing s n).maker = s.maker ∧ (closing s n).bound = put s.bound c false ∧
    (closing s n).deeds = s.deeds ++ [.uses (some c)] ++ [.returns (s.holder l) (some (s.slot n).user)] := by
  unfold closing
  dsimp only
  rw [has, lcn]
  split
  · exact ⟨rfl, rfl, rfl, rfl, rfl, rfl, rfl, rfl⟩
  · rename_i no
    exact absurd udp no

/-- A close of a socket whose link has a connection and has not been given to another. -/
theorem Sound.closing (sound : Sound s) (quiet : (s.slot n).event = none) (opened : (s.slot n).opened = false)
    (alive : (s.slot n).s_type = .UDP → lively (s.slot n)) (conn : (s.map (s.slot n).lcn).conn.isSome)
    (socket : (s.map (s.slot n).lcn).socketn = n) : Sound (closing s n) := by
  obtain ⟨c, has⟩ := Option.isSome_iff_exists.mp conn
  by_cases udp : (s.slot n).s_type = .UDP
  · obtain ⟨holds, _⟩ := sound.live n (alive udp)
    have held := sound.held _ _ holds
    rw [socket] at held
    have type : c.type = .UDP := (held.type c has).symm.trans udp
    obtain ⟨freelist, holder, map, slot, appstate, maker, bound, deeds⟩ :=
      closing_udp udp has (held.udp c has type)
    refine sound.release (n := n) holds socket freelist holder ?_ ?_ ?_ ?_ ?_ appstate maker ?_ ?_ ?_
    · intro k _
      rw [map]
    · intro m other
      rw [slot, put_ne _ _ other]
    · rw [slot, put_same]
    · intro e some
      rw [slot, put_same] at some
      have no : (s.slot n).event = Option.some e := some
      rw [quiet] at no
      cases no
    · rw [slot, put_same]
      intro _ open'
      rcases open' with isOpen | posted
      · exact absurd (opened.symm.trans isOpen) (by decide)
      · exact absurd (quiet.symm.trans posted) (by decide)
    · intro c' no
      rw [bound, put_apply]
      split
      · rfl
      · exact no
    · intro c' _ same
      rw [map, has] at same
      injection same with same
      right
      rw [bound, ← same, put_same, type]
      exact ⟨by decide, rfl⟩
    · intro d member
      rw [deeds] at member
      rcases List.mem_append.mp member with before | last
      · rcases List.mem_append.mp before with old | used
        · exact sound.deeds d old
        · rw [List.mem_singleton.mp used]
          rfl
      · rw [List.mem_singleton.mp last, holds]
        exact ⟨rfl, rfl⟩
  · have same : Netd.closing s n = Netd.setLink (Netd.note s (.uses (s.map (s.slot n).lcn).conn)) (s.slot n).lcn
        fun link => { link with closed := true } := by
      unfold Netd.closing
      dsimp only
      split
      · rename_i no
        exact absurd no udp
      · rfl
    rw [same]
    refine (sound.note (d := .uses _) conn).setLink rfl rfl rfl rfl rfl ?_
    intro u _ no
    have type : (s.slot (s.map (s.slot n).lcn).socketn).s_type = .UDP := no
    rw [socket] at type
    exact absurd type udp

/-! ## Steps -/

/-- The connection was made for the link that it is with. -/
def own (s : State) (c : Conn) : Prop := (s.map (s.appstate c)).conn = some c

/-- No new socket fails when the daemon knows it, and no stream connection is refused for want of
memory. A close comes for a socket that has been connected, while its link has not been given
to another. A callback finds a dead link, or a link of the connection; a link that is to be
closed is polled when nothing is outstanding, and a datagram connection of such a link after a
message for its own socket. -/
def fair (s : State) : Action → Prop
  | .fails _ => False
  | .dokernel n new _ =>
    ((s.slot n).event = some SS_CONNECTING → (s.slot n).s_type = .TCP → new.isSome) ∧
    ((s.slot n).event = some SS_CLOSED →
      (s.map (s.slot n).lcn).conn.isSome ∧ (s.map (s.slot n).lcn).socketn = n)
  | .tcp c f outstanding _ => (s.map (s.appstate (.tcp c))).dead = true ∨ own s (.tcp c) ∧
      (f.poll = true → (s.map (s.appstate (.tcp c))).closed = true → outstanding = false)
  | .udp c f => (s.map (s.appstate (.udp c))).dead = true ∨ own s (.udp c) ∧
      (f.poll = true → (s.map (s.appstate (.udp c))).closed = true →
        s.s_num = (s.map (s.appstate (.udp c))).socketn)
  | .raw c f => (s.map (s.appstate (.raw c))).dead = true ∨ own s (.raw c) ∧
      (f.poll = true → (s.map (s.appstate (.raw c))).closed = true →
        s.s_num = (s.map (s.appstate (.raw c))).socketn)
  | _ => True

instance (s : State) (a : Action) : Decidable (fair s a) := by
  cases a with
  | fails => exact inferInstanceAs (Decidable False)
  | dokernel => exact inferInstanceAs (Decidable (_ ∧ _))
  | tcp c f => exact inferInstanceAs (Decidable ((_ = _) ∨ (_ = _) ∧ _))
  | udp c f => exact inferInstanceAs (Decidable ((_ = _) ∨ (_ = _) ∧ _))
  | raw c f => exact inferInstanceAs (Decidable ((_ = _) ∨ (_ = _) ∧ _))
  | _ => exact inferInstanceAs (Decidable True)

theorem Sound.before (sound : Sound s) (n : Nat) (alive : lively (s.slot n)) (before : early (s.slot n)) :
    (s.map (s.slot n).lcn).conn = none := by
  obtain ⟨holds, socket⟩ := sound.live n alive
  have held := sound.held _ _ holds
  rw [socket] at held
  exact held.early before

theorem Sound.dokernel (sound : Sound s) {state : Nat} (has : (s.slot n).event = some state) (new : Option Nat)
    (port : Nat) (fine : fair s (.dokernel n new port)) : Sound (dokernel s n state new port) := by
  have asked := sound.asked n state has
  have seen : Sound (Netd.setSlot { s with s_num := n } n fun sl => { sl with event := none }) := by
    have numbered : Sound { s with s_num := n } := { sound with }
    refine numbered.setSlot rfl rfl rfl Iff.rfl (sound.small n) ?_ ?_ ?_
    · exact sound.before n
    · intro e no
      cases no
    · intro udp some
      refine sound.udp n udp ?_
      rcases some with opened | no
      · exact Or.inl opened
      · cases no
  have slot : (Netd.setSlot { s with s_num := n } n fun sl => { sl with event := none }).slot n =
      { s.slot n with event := none } := setSlot_same _ n _
  unfold Netd.dokernel
  dsimp only
  split_ifs with isInit isBound isConnecting isClosed isListening
  · exact seen.init (by rw [slot]; exact asked.init isInit) (by rw [slot])
  · exact seen.answer (by rw [slot]; exact asked.early (Or.inl isBound)) (by rw [slot]) (Or.inl rfl)
  · refine seen.connecting (by rw [slot]; exact asked.early (Or.inr (Or.inr isConnecting))) (by rw [slot]) new ?_
    rw [slot]
    exact fine.1 (isConnecting ▸ has)
  · obtain ⟨conn, socket⟩ := fine.2 (isClosed ▸ has)
    refine seen.closing (by rw [slot]) (by rw [slot]; exact asked.close isClosed) ?_ (by rw [slot]; exact conn)
      (by rw [slot]; exact socket)
    rw [slot]
    intro udp
    exact sound.udp n udp (Or.inr (isClosed ▸ has))
  · exact seen.listening (by rw [slot]; exact asked.early (Or.inr (Or.inl isListening))) (by rw [slot]) port
  · exact seen

/-- A request is posted for a socket that a process has. -/
theorem Sound.post (sound : Sound s) (opened : (s.slot n).opened = true) {state : Nat}
    (asked : posted (s.slot n) state) : Sound (Netd.post s n state) := by
  refine sound.setSlot rfl rfl rfl Iff.rfl (sound.small n) ?_ ?_ ?_
  · exact sound.before n
  · intro e new
    injection new with new
    rw [← new]
    exact ⟨asked.init, asked.early, asked.close⟩
  · intro type _
    exact sound.udp n type (Or.inl opened)

omit [Limits] in
theorem early_posted {state : Nat} (before : early (s.slot n))
    (which : state = SS_BOUND ∨ state = SS_LISTENING ∨ state = SS_CONNECTING) : posted (s.slot n) state := by
  constructor
  · intro no
    rw [no] at which
    exact absurd which (by decide)
  · intro _
    exact before
  · intro no
    rw [no] at which
    exact absurd which (by decide)

theorem Sound.step (sound : Sound s) {a : Action} {t : State} (fine : fair s a) (run : a.apply s = some t) :
    Sound t := by
  cases a with
  | socket n type =>
    simp only [Action.apply, Option.ite_none_right_eq_some, Option.some.injEq] at run
    obtain ⟨⟨less, unused⟩, same⟩ := run
    rw [← same]
    have counted : Sound { s with users := s.users + 1 } := { sound with }
    refine counted.setIdle (fun live => live.1 unused) (fun live => live.2.1 rfl) less ?_ ?_
    · intro e new
      injection new with new
      rw [← new]
      constructor
      · intro _
        rfl
      · intro no
        exact absurd no (by decide)
      · intro no
        exact absurd no (by decide)
    · intro no
      rcases no with no | no
      · cases no
      · exact absurd (Option.some.inj no) (by decide)
  | fails n => exact absurd fine id
  | bind n =>
    simp only [Action.apply, Option.ite_none_right_eq_some, Option.some.injEq] at run
    obtain ⟨⟨opened, state⟩, same⟩ := run
    rw [← same]
    exact sound.post opened (early_posted (Or.inl state) (Or.inl rfl))
  | listen n =>
    simp only [Action.apply, Option.ite_none_right_eq_some, Option.some.injEq] at run
    obtain ⟨⟨opened, _, state⟩, same⟩ := run
    rw [← same]
    exact sound.post opened (early_posted (Or.inr state) (Or.inr (Or.inl rfl)))
  | connect n =>
    simp only [Action.apply, Option.ite_none_right_eq_some, Option.some.injEq] at run
    obtain ⟨⟨opened, state⟩, same⟩ := run
    rw [← same]
    exact sound.post opened (early_posted (Or.inr state) (Or.inr (Or.inr rfl)))
  | close n =>
    simp only [Action.apply, Option.ite_none_right_eq_some, Option.some.injEq] at run
    obtain ⟨opened, same⟩ := run
    rw [← same]
    refine sound.setSlot rfl rfl rfl Iff.rfl (sound.small n) (sound.before n) ?_ ?_
    · intro e new
      injection new with new
      rw [← new]
      constructor
      · intro no
        exact absurd no (by decide)
      · intro no
        exact absurd no (by decide)
      · intro _
        rfl
    · intro type _
      exact sound.udp n type (Or.inl opened)
  | leave n =>
    simp only [Action.apply, Option.ite_none_right_eq_some, Option.some.injEq] at run
    obtain ⟨⟨gone, state⟩, same⟩ := run
    rw [← same]
    have dead : ¬ lively (s.slot n) := fun live => live.2.2 state
    refine sound.setSlot rfl rfl rfl ⟨fun live => absurd rfl live.1, fun live => absurd live dead⟩
      (fun no => absurd rfl no) (fun live => absurd live dead) ?_ ?_
    · intro e has
      have was := sound.asked n e has
      constructor
      · intro no
        have init := was.init no
        rw [state] at init
        exact absurd init (by decide)
      · intro no
        exact absurd (early_lively (was.early no)) dead
      · exact was.close
    · intro type some
      rcases some with opened | closes
      · exact absurd (sound.udp n type (Or.inl opened)) dead
      · exact absurd (sound.udp n type (Or.inr closes)) dead
  | dokernel n new port =>
    obtain ⟨state, has, last⟩ := Option.bind_eq_some_iff.mp run
    simp only [Option.ite_none_right_eq_some, Option.some.injEq] at last
    rw [← last.2]
    exact sound.dokernel has new port fine
  | tcp c f outstanding lport =>
    simp only [Action.apply, Option.some.injEq] at run
    rw [← run]
    exact sound.appcall c f outstanding lport fine
  | udp c f =>
    simp only [Action.apply, Option.ite_none_right_eq_some, Option.some.injEq] at run
    rw [← run.2]
    exact sound.dgramcall run.1 f fine
  | raw c f =>
    simp only [Action.apply, Option.ite_none_right_eq_some, Option.some.injEq] at run
    rw [← run.2]
    exact sound.dgramcall run.1 f fine

theorem start_sound : Sound start where
  nodup := List.nodup_reverse.mpr List.nodup_range
  free l := by simp [start]
  bound l u no := by cases no
  held l u no := by cases no
  live n alive := absurd rfl alive.1
  small n used := absurd rfl used
  asked n e no := by cases no
  mine c no := by cases no
  udp n no := by cases no
  deeds d no := by cases no

end Parts

/-! ## Eight sockets -/

@[reducible] def eight : Limits := ⟨8⟩

/-- A stream socket that connects and is closed; the daemon has read the close. -/
def session : List Action :=
  [.socket 0 .TCP, .dokernel 0 none 0, .bind 0, .dokernel 0 none 0, .connect 0, .dokernel 0 (some 3) 0,
    .tcp 3 { noFlags with connected := true } false 4096, .close 0, .dokernel 0 none 0]

end Netd
