import Fuzix.Setid

/-!
# Set-id files over runs

A file is vouched for while the process that set its set-uid bit was root or the owner, and
the owner is still the same. All the calls keep this but a change of the owner.
-/

namespace Setid

open Table Run

/-- A regular file. -/
def regular (ino : Inode) : Prop := ino.i_mode &&& F_MASK = F_REG

/-- What `execve` takes for a program; sockets have this bit too. -/
def program (ino : Inode) : Prop := ino.i_mode &&& F_REG ≠ 0

def set_uid (ino : Inode) : Prop := ino.i_mode &&& SET_UID ≠ 0

instance (ino : Inode) : Decidable (regular ino) := inferInstanceAs (Decidable (_ = _))
instance (ino : Inode) : Decidable (program ino) := inferInstanceAs (Decidable (_ ≠ _))
instance (ino : Inode) : Decidable (set_uid ino) := inferInstanceAs (Decidable (_ ≠ _))

/-- The bit was set with the effective id of the owner or of root, while the owner was that
of now. -/
def vouched (ino : Inode) : Prop :=
  ∃ v, ino.setter = some v ∧ v.owner = ino.i_uid ∧ (v.euid = ino.i_uid ∨ v.euid = 0)

def honest (ino : Inode) : Prop := program ino → set_uid ino → vouched ino

def Honest (s : System) : Prop := ∀ i, honest (s.inode i)

theorem program_of_regular {ino : Inode} (reg : regular ino) : program ino := by
  intro zero
  have part : ino.i_mode &&& F_REG = (ino.i_mode &&& F_MASK) &&& F_REG := by
    rw [UInt16.and_assoc]
    rfl
  rw [part, show ino.i_mode &&& F_MASK = F_REG from reg] at zero
  exact absurd zero (by decide)

/-! ## What is kept of an inode -/

/-- The part of an inode that tells whether it is honest. -/
def core (ino : Inode) : UInt16 × UInt16 × Option Setter := (ino.i_mode, ino.i_uid, ino.setter)

theorem honest_congr {a b : Inode} (same : core a = core b) (h : honest a) : honest b := by
  obtain ⟨mode, rest⟩ := Prod.mk.injEq .. ▸ same
  obtain ⟨uid, setter⟩ := Prod.mk.injEq .. ▸ rest
  unfold honest program set_uid vouched at h ⊢
  rw [← mode, ← uid, ← setter]
  exact h

theorem honest_setMode (ino : Inode) {euid : UInt16} (mode : UInt16) (right : euid = ino.i_uid ∨ euid = 0) :
    honest (ino.setMode euid mode) := by
  intro _ set
  have bit : ¬ mode &&& SET_UID = 0 := set
  exact ⟨⟨euid, ino.i_uid⟩, if_neg bit, rfl, right⟩

variable {s t : System} {u : Proc} {i : Nat}

theorem Honest.setInode (h : Honest s) {ino : Inode} (right : honest ino) : Honest (s.setInode i ino) := by
  intro j
  by_cases same : j = i
  · rw [same, s.setInode_same]
    exact right
  · rw [s.setInode_ne ino same]
    exact h j

/-- Nothing but links, entries, references and ids of processes differs. -/
structure Alike (s t : System) : Prop where
  inode : ∀ j, core (t.inode j) = core (s.inode j)
  proc : t.proc = s.proc

theorem Alike.refl (s : System) : Alike s s := ⟨fun _ => rfl, rfl⟩

theorem Alike.trans {r : System} (first : Alike s t) (second : Alike t r) : Alike s r :=
  ⟨fun j => (second.inode j).trans (first.inode j), second.proc.trans first.proc⟩

theorem Alike.honest (alike : Alike s t) (h : Honest s) : Honest t :=
  fun j => honest_congr (alike.inode j).symm (h j)

theorem Alike.setInode (s : System) {ino : Inode} (same : core ino = core (s.inode i)) : Alike s (s.setInode i ino) := by
  refine ⟨?_, rfl⟩
  intro j
  by_cases here : j = i
  · rw [here, s.setInode_same]
    exact same
  · rw [s.setInode_ne ino here]

theorem ch_link_alike (s : System) (u : Proc) (room : Bool) (wd : Nat) (oldname newname : String)
    (nindex : Option Nat) : Alike s (ch_link s u room wd oldname newname nindex).1 := by
  unfold ch_link
  split_ifs
  all_goals first
    | exact Alike.refl s
    | exact Alike.setInode s rfl

theorem unlinki_alike (s : System) (u : Proc) (room : Bool) (ino pino : Nat) (fname : String) :
    Alike s (unlinki s u room ino pino fname).1 := by
  have linked := ch_link_alike s u room pino fname "" none
  unfold unlinki
  split
  · exact Alike.refl s
  · split
    · rename_i heq
      rw [heq] at linked
      exact linked
    · rename_i heq
      rw [heq] at linked
      exact linked.trans (Alike.setInode _ rfl)

theorem Honest.i_deref (h : Honest s) (dirty : Bool) (i : Nat) : Honest (i_deref s dirty i) := by
  unfold Setid.i_deref
  split
  · refine h.setInode ?_
    intro no
    exact absurd (UInt16.zero_and : (0 : UInt16) &&& F_REG = 0) no
  · exact h

theorem i_deref_proc (s : System) (dirty : Bool) (i : Nat) : (i_deref s dirty i).proc = s.proc := by
  unfold i_deref
  split
  · rfl
  · rfl

/-- A new file belongs to its maker and has no set-uid bit. -/
theorem Honest.newfile (h : Honest s) (u : Proc) (out : Outside) (pino : Nat) (name : String) :
    Honest (newfile s u out pino name).1 ∧ (newfile s u out pino name).1.proc = s.proc ∧
    ∀ i, (newfile s u out pino name).2 = .ok i →
      ((newfile s u out pino name).1.inode i).i_uid = u.u_euid := by
  unfold Setid.newfile
  split
  · exact ⟨h, rfl, fun _ no => by cases no⟩
  · split
    · exact ⟨h, rfl, fun _ no => by cases no⟩
    · split
      · exact ⟨h, rfl, fun _ no => by cases no⟩
      · rename_i k _
        split
        · exact ⟨h, rfl, fun _ no => by cases no⟩
        · dsimp only
          have made := ch_link_alike (s.setInode k (Inode.setMode { s.inode k with
            i_uid := u.u_euid, i_gid := u.u_egid, i_nlink := 1, entries := fun _ => none } u.u_euid F_REG))
            u out.room pino "" name (some k)
          have kept := made.honest (h.setInode (honest_setMode _ F_REG (Or.inl rfl)))
          split
          · rename_i heq
            rw [heq] at made kept
            exact ⟨kept, made.proc, fun _ no => by cases no⟩
          · rename_i heq
            rw [heq] at made kept
            refine ⟨kept, made.proc, ?_⟩
            intro i found
            injection found with found
            rw [← found]
            have uid := congrArg (fun c => c.2.1) (made.inode k)
            rw [System.setInode_same] at uid
            exact uid

/-! ## One call -/

section Step

variable {p : Nat}

theorem Honest.setMode (h : Honest s) (mode : UInt16) {euid : UInt16}
    (right : euid = (s.inode i).i_uid ∨ euid = 0) : Honest (s.setInode i ((s.inode i).setMode euid mode)) :=
  h.setInode (honest_setMode (s.inode i) mode right)

theorem Honest.openInode (h : Honest s) (p : Nat) (path : Option Path) (creat excl : Bool) (mode : UInt16)
    (out : Outside) : Honest (openInode s p path creat excl mode out).1 ∧
    (openInode s p path creat excl mode out).1.proc = s.proc := by
  unfold Setid.openInode
  dsimp only
  split
  · split
    · exact ⟨h, rfl⟩
    · exact ⟨h, rfl⟩
  · rename_i parent path _ _
    split
    · exact ⟨h, rfl⟩
    · obtain ⟨kept, proc, owner⟩ := h.newfile (s.proc p) out parent (filename path)
      split
      · rename_i heq
        rw [heq] at kept proc
        exact ⟨kept, proc⟩
      · rename_i k heq
        rw [heq] at kept proc owner
        exact ⟨kept.setMode _ (Or.inl (owner k rfl).symm), proc⟩
  · exact ⟨h, rfl⟩

theorem Honest.mknod (h : Honest s) (p : Nat) (path : Option Path) (mode : UInt16) (out : Outside) :
    Honest (mknod s p path mode out).1 ∧ (mknod s p path mode out).1.proc = s.proc := by
  unfold Setid.mknod
  split
  · exact ⟨h, rfl⟩
  · dsimp only
    split
    · exact ⟨h, rfl⟩
    · rename_i parent path _ _
      obtain ⟨kept, proc, owner⟩ := h.newfile (s.proc p) out parent (filename path)
      split
      · rename_i heq
        rw [heq] at kept proc
        exact ⟨kept, proc⟩
      · rename_i k heq
        rw [heq] at kept proc owner
        exact ⟨kept.setMode _ (Or.inl (owner k rfl).symm), proc⟩
    · exact ⟨h, rfl⟩

theorem Honest.chmod_op (h : Honest s) (p : Nat) (mode : UInt16) (i : Nat) :
    Honest (chmod_op s p mode i).1 ∧ (chmod_op s p mode i).1.proc = s.proc := by
  unfold Setid.chmod_op
  split
  · exact ⟨h, rfl⟩
  · rename_i allowed
    split
    · exact ⟨h, rfl⟩
    · refine ⟨h.setMode _ ?_, rfl⟩
      by_cases own : (s.inode i).i_uid = (s.proc p).u_euid
      · exact Or.inl own.symm
      · right
        by_contra other
        exact allowed ⟨own, by simpa [super] using other⟩

/-- The change of the owner is fine if the file is not a set-uid program or stays with its owner. -/
theorem Honest.chown_op (h : Honest s) (p : Nat) {owner : UInt16} (group : UInt16) {i : Nat}
    (fine : chown_denied s p group i = false → (s.inode i).rdonly = false → program (s.inode i) →
      set_uid (s.inode i) → owner = (s.inode i).i_uid) :
    Honest (chown_op s p owner group i).1 ∧ (chown_op s p owner group i).1.proc = s.proc := by
  unfold Setid.chown_op
  split
  · exact ⟨h, rfl⟩
  · rename_i allowed
    split
    · exact ⟨h, rfl⟩
    · rename_i writable
      refine ⟨h.setInode ?_, rfl⟩
      intro prog set
      have same := fine (Bool.not_eq_true _ ▸ allowed) (Bool.not_eq_true _ ▸ writable) prog set
      rw [same]
      exact h i prog set

theorem Honest.onPath (h : Honest s) (p : Nat) (path : Option Path) {op : Nat → System × Except Errno Nat}
    (each : ∀ i, (n_open s (s.proc p) path).ino = some i → Honest (op i).1 ∧ (op i).1.proc = s.proc) :
    Honest (onPath s p path op).1 ∧ (onPath s p path op).1.proc = s.proc := by
  unfold Setid.onPath
  dsimp only
  split
  · exact ⟨h, rfl⟩
  · rename_i k found
    exact each k found

theorem Honest.onFile (h : Honest s) (p fd : Nat) {op : Nat → System × Except Errno Nat}
    (each : ∀ i, getinode (s.proc p) fd = some i → Honest (op i).1 ∧ (op i).1.proc = s.proc) :
    Honest (onFile s p fd op).1 ∧ (onFile s p fd op).1.proc = s.proc := by
  unfold Setid.onFile
  split
  · exact ⟨h, rfl⟩
  · rename_i k found
    exact each k found

theorem link_alike (s : System) (p : Nat) (name1 name2 : Option Path) (out : Outside) :
    Alike s (link s p name1 name2 out).1 := by
  unfold link onPath
  dsimp only
  split
  · exact Alike.refl s
  · rename_i k _
    split
    · exact Alike.refl s
    · split
      · exact Alike.refl s
      · split
        · exact Alike.refl s
        · rename_i parent2 path _ _
          split
          · exact Alike.refl s
          · have linked := ch_link_alike s (s.proc p) out.room parent2 "" (filename path) (some k)
            split
            · rename_i heq
              rw [heq] at linked
              exact linked
            · rename_i heq
              rw [heq] at linked
              exact linked.trans (Alike.setInode _ rfl)
        · exact Alike.refl s

theorem renameLinks_alike (s : System) (p : Nat) (out : Outside) (srci srcp dstp : Nat) (src dst : String) :
    Alike s (renameLinks s p out srci srcp dstp src dst).1 := by
  have linked := ch_link_alike s (s.proc p) out.room dstp "" dst (some srci)
  unfold renameLinks
  split
  · rename_i heq
    rw [heq] at linked
    exact linked
  · rename_i t heq
    rw [heq] at linked
    have removed := ch_link_alike t (s.proc p) out.room₂ srcp src "" none
    split
    · rename_i heq
      rw [heq] at removed
      exact linked.trans removed
    · rename_i heq
      rw [heq] at removed
      exact linked.trans removed

theorem Honest.unlink (h : Honest s) (p : Nat) (path : Option Path) (out : Outside) :
    Honest (unlink s p path out).1 ∧ (unlink s p path out).1.proc = s.proc := by
  unfold Setid.unlink
  dsimp only
  split
  · rename_i k pino path _ _
    have alike := unlinki_alike s (s.proc p) out.room k pino (filename path)
    split
    · rename_i heq
      rw [heq] at alike
      exact ⟨(alike.honest h).i_deref _ _, (i_deref_proc _ _ _).trans alike.proc⟩
    · rename_i heq
      rw [heq] at alike
      exact ⟨(alike.honest h).i_deref _ _, (i_deref_proc _ _ _).trans alike.proc⟩
  · exact ⟨h, rfl⟩

theorem Honest.renameLinks (h : Honest s) (p : Nat) (out : Outside) (srci srcp dstp : Nat) (src dst : String) :
    Honest (renameLinks s p out srci srcp dstp src dst).1 ∧
    (renameLinks s p out srci srcp dstp src dst).1.proc = s.proc := by
  have alike := renameLinks_alike s p out srci srcp dstp src dst
  exact ⟨alike.honest h, alike.proc⟩

theorem Honest.rename (h : Honest s) (p : Nat) (src dst : Option Path) (out : Outside) :
    Honest (rename s p src dst out).1 ∧ (rename s p src dst out).1.proc = s.proc := by
  unfold Setid.rename
  dsimp only
  split
  · exact ⟨h, rfl⟩
  · rename_i srci srcp src dst _ _
    split
    · exact ⟨h, rfl⟩
    · split
      · exact ⟨h, rfl⟩
      · rename_i dstp _
        split_ifs
        · exact ⟨h, rfl⟩
        · exact ⟨h, rfl⟩
        · exact ⟨h, rfl⟩
        · exact ⟨h, rfl⟩
        · split
          · exact h.renameLinks p out srci srcp dstp (filename src) (filename dst)
          · rename_i dsti _
            have alike := unlinki_alike s (s.proc p) out.room₃ dsti dstp (filename dst)
            split
            · rename_i heq
              rw [heq] at alike
              exact ⟨alike.honest h, alike.proc⟩
            · rename_i t heq
              rw [heq] at alike
              have gone := (alike.honest h).i_deref out.dirty dsti
              obtain ⟨kept, proc⟩ := gone.renameLinks p out srci srcp dstp (filename src) (filename dst)
              exact ⟨kept, proc.trans ((i_deref_proc _ _ _).trans alike.proc)⟩
  · exact ⟨h, rfl⟩

/-- What `access` leaves is what it found, on every path. -/
theorem access_same (s : System) (p : Nat) (path : Option Path) (mode : UInt16) :
    (access s p path mode).1 = s := by
  unfold access
  split
  · rfl
  · dsimp only
    unfold System.setProc
    dsimp only
    rw [put_same, put_put]
    exact congrArg (fun proc => { s with proc := proc }) (put_self s.proc p)

/-- The user ids of a process. -/
def ids (u : Proc) : UInt16 × UInt16 := (u.p_uid, u.u_euid)

theorem setProc_ids (s : System) (p : Nat) (u : Proc) (same : ids u = ids (s.proc p)) (q : Nat) :
    ids ((s.setProc p u).proc q) = ids (s.proc q) := by
  by_cases here : q = p
  · rw [here, s.setProc_same]
    exact same
  · rw [s.setProc_ne u here]

theorem setFile_ids (s : System) (p fd : Nat) (i : Option Nat) (q : Nat) :
    ids ((s.setProc p ((s.proc p).setFile fd i)).proc q) = ids (s.proc q) :=
  setProc_ids s p ((s.proc p).setFile fd i) rfl q

theorem refs_alike (s : System) (i c_refs : Nat) : Alike s (s.setInode i ((s.inode i).refs c_refs)) :=
  Alike.setInode s rfl

theorem Honest.open' (h : Honest s) (p : Nat) (path : Option Path) (r w creat excl : Bool) (mode : UInt16)
    (out : Outside) : Honest (open' s p path r w creat excl mode out).1 ∧
    ∀ q, ids ((open' s p path r w creat excl mode out).1.proc q) = ids (s.proc q) := by
  unfold Setid.open'
  split
  · exact ⟨h, fun _ => rfl⟩
  · split
    · exact ⟨h, fun _ => rfl⟩
    · split
      · exact ⟨h, fun _ => rfl⟩
      · obtain ⟨kept, proc⟩ := h.openInode p path creat excl mode out
        split
        · rename_i heq
          rw [heq] at kept proc
          exact ⟨kept, fun q => congrArg (fun f => ids (f q)) proc⟩
        · rename_i t k heq
          rw [heq] at kept proc
          dsimp only at kept proc ⊢
          split
          · exact ⟨kept, fun q => congrArg (fun f => ids (f q)) proc⟩
          · constructor
            · exact (refs_alike t k ((t.inode k).c_refs + 1)).honest kept
            · intro q
              exact (setFile_ids _ p _ (some k) q).trans (congrArg (fun f => ids (f q)) proc)

theorem Honest.close (h : Honest s) (p fd : Nat) (out : Outside) : Honest (close s p fd out).1 ∧
    ∀ q, ids ((close s p fd out).1.proc q) = ids (s.proc q) := by
  unfold Setid.close
  split
  · exact ⟨h, fun _ => rfl⟩
  · rename_i k _
    constructor
    · have kept : Honest (s.setProc p ((s.proc p).setFile fd none)) := h
      exact ((refs_alike _ k _).honest kept).i_deref out.dirty k
    · intro q
      have deref := congrArg (fun f => ids (f q)) (i_deref_proc ((s.setProc p ((s.proc p).setFile fd none)).setInode k
        (Inode.refs (s.inode k) ((s.inode k).c_refs - 1))) out.dirty k)
      exact deref.trans (setFile_ids s p fd none q)

theorem Honest.execve (h : Honest s) (p : Nat) (path : Option Path) (load : Load) :
    Honest (execve s p path load).1 := by
  unfold Setid.execve Setid.onPath
  dsimp only
  split
  · exact h
  · split
    · exact h
    · split
      · exact h
      · exact h
      · exact h

/-- The effective user id of a process that runs a file. -/
theorem exec_ids_ids (s : System) (p i : Nat) : ids (exec_ids s p i) = ids (s.proc p) ∨
    set_uid (s.inode i) ∧ ids (exec_ids s p i) = ((s.proc p).p_uid, (s.inode i).i_uid) := by
  by_cases bit : (s.inode i).i_mode &&& SET_UID = 0
  · left
    simp [ids, exec_ids, bit]
  · right
    exact ⟨bit, by simp [ids, exec_ids, bit]⟩

theorem exec_denied_program (allowed : exec_denied s p i = false) : program (s.inode i) := by
  intro no
  have denied : exec_denied s p i = true := by simp [exec_denied, no]
  rw [denied] at allowed
  cases allowed

/-- What `execve` makes of the ids of the process `q`. -/
def takes (s t : System) (p : Nat) (path : Option Path) (q : Nat) : Prop :=
  ids (t.proc q) = ids (s.proc q) ∨
  q = p ∧ ∃ i, (n_open s (s.proc p) path).ino = some i ∧ program (s.inode i) ∧ set_uid (s.inode i) ∧
    ids (t.proc q) = ((s.proc q).p_uid, (s.inode i).i_uid)

theorem exec_takes {path : Option Path} (found : (n_open s (s.proc p) path).ino = some i)
    (allowed : exec_denied s p i = false) (q : Nat) : takes s (s.setProc p (exec_ids s p i)) p path q := by
  by_cases here : q = p
  · unfold takes
    rw [here, s.setProc_same]
    rcases exec_ids_ids s p i with same | ⟨set, changed⟩
    · exact Or.inl same
    · exact Or.inr ⟨rfl, i, found, exec_denied_program allowed, set, changed⟩
  · left
    rw [s.setProc_ne _ here]

theorem execve_takes (s : System) (p : Nat) (path : Option Path) (load : Load) (q : Nat) :
    takes s (execve s p path load).1 p path q := by
  unfold execve onPath
  dsimp only
  split
  · exact Or.inl rfl
  · rename_i i found
    split
    · exact Or.inl rfl
    · rename_i allowed
      have taken := exec_takes found (Bool.not_eq_true _ ▸ allowed) q
      split
      · exact Or.inl rfl
      · exact taken
      · exact taken

end Step

/-! ## Fair steps -/

/-- The file and the new owner of a change of the owner that succeeds. -/
def gives (s : System) : Action → Option (Nat × UInt16)
  | .chown p path owner group => (n_open s (s.proc p) path).ino.bind (fun i =>
      if chown_denied s p group i ∨ (s.inode i).rdonly then none else some (i, owner))
  | .fchown p fd owner group => (getinode (s.proc p) fd).bind (fun i =>
      if chown_denied s p group i ∨ (s.inode i).rdonly then none else some (i, owner))
  | _ => none

/-- No set-uid program is given to another owner. -/
def fair (s : System) (a : Action) : Prop :=
  ∀ x ∈ gives s a, program (s.inode x.1) → set_uid (s.inode x.1) → x.2 = (s.inode x.1).i_uid

theorem fair_chown {p : Nat} {path : Option Path} {owner group : UInt16} (fine : fair s (.chown p path owner group))
    {i : Nat} (found : (n_open s (s.proc p) path).ino = some i) (allowed : chown_denied s p group i = false)
    (writable : (s.inode i).rdonly = false) (prog : program (s.inode i)) (set : set_uid (s.inode i)) :
    owner = (s.inode i).i_uid := by
  refine fine (i, owner) ?_ prog set
  simp [gives, found, allowed, writable]

theorem fair_fchown {p fd : Nat} {owner group : UInt16} (fine : fair s (.fchown p fd owner group))
    {i : Nat} (found : getinode (s.proc p) fd = some i) (allowed : chown_denied s p group i = false)
    (writable : (s.inode i).rdonly = false) (prog : program (s.inode i)) (set : set_uid (s.inode i)) :
    owner = (s.inode i).i_uid := by
  refine fine (i, owner) ?_ prog set
  simp [gives, found, allowed, writable]

theorem Honest.step (h : Honest s) {a : Action} (fine : fair s a) : Honest (a.apply s).1 := by
  cases a with
  | creat p path r w make excl mode out => exact (h.open' p path r w make excl mode out).1
  | close p fd out => exact (h.close p fd out).1
  | mknod p path mode out => exact (h.mknod p path mode out).1
  | access p path mode => exact (access_same s p path mode).symm ▸ h
  | chmod p path mode => exact (h.onPath p path fun i _ => h.chmod_op p mode i).1
  | fchmod p fd mode => exact (h.onFile p fd fun i _ => h.chmod_op p mode i).1
  | chown p path owner group =>
    exact (h.onPath p path fun i found => h.chown_op p group (fair_chown fine found)).1
  | fchown p fd owner group =>
    exact (h.onFile p fd fun i found => h.chown_op p group (fair_fchown fine found)).1
  | link p name1 name2 out => exact (link_alike s p name1 name2 out).honest h
  | unlink p path out => exact (h.unlink p path out).1
  | rename p src dst out => exact (h.rename p src dst out).1
  | setuid p uid =>
    change Honest (setuid s p uid).1
    unfold setuid
    split
    · exact h
    · exact h
  | setgid p gid =>
    change Honest (setgid s p gid).1
    unfold setgid
    split
    · exact h
    · exact h
  | umask p mask => exact h
  | execve p path load => exact h.execve p path load

/-! ## Processes without a root id -/

def rootless (u : Proc) : Prop := u.p_uid ≠ 0 ∧ u.u_euid ≠ 0

theorem rootless_congr {u v : Proc} (same : ids v = ids u) (h : rootless u) : rootless v := by
  have uid : v.p_uid = u.p_uid := congrArg Prod.fst same
  have euid : v.u_euid = u.u_euid := congrArg Prod.snd same
  exact ⟨uid ▸ h.1, euid ▸ h.2⟩

/-- The call executes a file of root that a process with effective id root made set-uid while
root owned it. -/
def runsRoot (s : System) (q : Nat) (a : Action) : Prop :=
  ∃ path load i, a = .execve q path load ∧ (n_open s (s.proc q) path).ino = some i ∧
    set_uid (s.inode i) ∧ (s.inode i).i_uid = 0 ∧ (s.inode i).setter = some ⟨0, 0⟩

theorem setuid_rootless (s : System) (p : Nat) (uid : UInt16) {q : Nat} (h : rootless (s.proc q)) :
    rootless ((setuid s p uid).1.proc q) := by
  unfold setuid
  split
  · rename_i allowed
    by_cases here : q = p
    · rw [here] at h ⊢
      rw [s.setProc_same]
      have same : (s.proc p).p_uid = uid := by
        rcases allowed with root | same
        · exact absurd (by simpa [super] using root) h.2
        · exact same
      exact ⟨same ▸ h.1, same ▸ h.1⟩
    · rw [s.setProc_ne _ here]
      exact h
  · exact h

theorem step_rootless (honest : Honest s) (a : Action) (fine : fair s a) {q : Nat} (h : rootless (s.proc q)) :
    rootless ((a.apply s).1.proc q) ∨ runsRoot s q a := by
  cases a with
  | creat p path r w make excl mode out =>
    exact Or.inl (rootless_congr ((honest.open' p path r w make excl mode out).2 q) h)
  | close p fd out => exact Or.inl (rootless_congr ((honest.close p fd out).2 q) h)
  | mknod p path mode out => exact Or.inl ((honest.mknod p path mode out).2.symm ▸ h)
  | access p path mode => exact Or.inl ((access_same s p path mode).symm ▸ h)
  | chmod p path mode => exact Or.inl ((honest.onPath p path fun i _ => honest.chmod_op p mode i).2.symm ▸ h)
  | fchmod p fd mode => exact Or.inl ((honest.onFile p fd fun i _ => honest.chmod_op p mode i).2.symm ▸ h)
  | chown p path owner group =>
    exact Or.inl ((honest.onPath p path fun i found => honest.chown_op p group (fair_chown fine found)).2.symm ▸ h)
  | fchown p fd owner group =>
    exact Or.inl ((honest.onFile p fd fun i found => honest.chown_op p group (fair_fchown fine found)).2.symm ▸ h)
  | link p name1 name2 out => exact Or.inl ((link_alike s p name1 name2 out).proc.symm ▸ h)
  | unlink p path out => exact Or.inl ((honest.unlink p path out).2.symm ▸ h)
  | rename p src dst out => exact Or.inl ((honest.rename p src dst out).2.symm ▸ h)
  | setuid p uid => exact Or.inl (setuid_rootless s p uid h)
  | setgid p gid =>
    left
    change rootless ((setgid s p gid).1.proc q)
    unfold setgid
    split
    · exact rootless_congr (setProc_ids s p { s.proc p with u_gid := gid, u_egid := gid } rfl q) h
    · exact h
  | umask p mask =>
    exact Or.inl (rootless_congr (setProc_ids s p { s.proc p with u_mask := mask &&& 0o777 } rfl q) h)
  | execve p path load =>
    rcases execve_takes s p path load q with same | ⟨here, i, found, prog, set, changed⟩
    · exact Or.inl (rootless_congr same h)
    · by_cases root : (s.inode i).i_uid = 0
      · right
        rw [here]
        obtain ⟨v, setter, owner, right⟩ := honest i prog set
        refine ⟨path, load, i, rfl, found, set, root, ?_⟩
        rw [root] at owner right
        have euid : v.euid = 0 := right.elim id id
        rw [setter, ← owner]
        exact congrArg some (by cases v; simp_all)
      · left
        have uid : ((execve s p path load).1.proc q).p_uid = (s.proc q).p_uid := congrArg Prod.fst changed
        have euid : ((execve s p path load).1.proc q).u_euid = (s.inode i).i_uid := congrArg Prod.snd changed
        exact ⟨ne_of_eq_of_ne uid h.1, ne_of_eq_of_ne euid root⟩

/-! ## Runs -/

/-- In the run the process `q` has executed a set-uid file that root made. -/
def ranRoot (step : System → Action → System → Prop) (s : System) (as : List Action) (q : Nat) : Prop :=
  ∃ before a after t, as = before ++ a :: after ∧ Steps step s before t ∧ runsRoot t q a

theorem ranRoot.snoc {step : System → Action → System → Prop} {as : List Action} {q : Nat}
    (h : ranRoot step s as q) (b : Action) : ranRoot step s (as ++ [b]) q := by
  obtain ⟨before, a, after, t, same, run, root⟩ := h
  refine ⟨before, a, after ++ [b], t, ?_, run, root⟩
  rw [same, List.append_assoc, List.cons_append]

/-- A fair call. -/
def fairly (s : System) (a : Action) (t : System) : Prop := fair s a ∧ (a.apply s).1 = t

theorem run_honest {as : List Action} (run : Steps fairly s as t) (start : Honest s) : Honest t := by
  refine run.keeps ?_ start
  intro u a v h step
  rw [← step.2]
  exact h.step step.1

theorem run_rootless {as : List Action} (run : Steps fairly s as t) (start : Honest s) (q : Nat)
    (h : rootless (s.proc q)) : rootless (t.proc q) ∨ ranRoot fairly s as q := by
  induction run with
  | nil => exact Or.inl h
  | snoc before last ih =>
    rename_i r v as a
    rcases ih with still | ran
    · have honest := run_honest before start
      rcases step_rootless honest a last.1 still with kept | root
      · left
        rw [← last.2]
        exact kept
      · right
        exact ⟨as, a, [], r, rfl, before, root⟩
    · exact Or.inr (ran.snoc a)

theorem gives_applies {a : Action} {i : Nat} {owner : UInt16} (given : gives s a = some (i, owner)) :
    ((a.apply s).1.inode i).i_mode = (s.inode i).i_mode ∧ ((a.apply s).1.inode i).i_uid = owner ∧
    ((a.apply s).1.inode i).setter = (s.inode i).setter := by
  cases a with
  | chown p path w group =>
    obtain ⟨k, found, rest⟩ := Option.bind_eq_some_iff.mp given
    simp only [Option.ite_none_left_eq_some, not_or, Option.some.injEq, Prod.mk.injEq, Bool.not_eq_true] at rest
    obtain ⟨⟨allowed, writable⟩, same, new⟩ := rest
    rw [← same, ← new]
    simp [Action.apply, chown, onPath, found, chown_op, allowed, writable]
  | fchown p fd w group =>
    obtain ⟨k, found, rest⟩ := Option.bind_eq_some_iff.mp given
    simp only [Option.ite_none_left_eq_some, not_or, Option.some.injEq, Prod.mk.injEq, Bool.not_eq_true] at rest
    obtain ⟨⟨allowed, writable⟩, same, new⟩ := rest
    rw [← same, ← new]
    simp [Action.apply, fchown, onFile, found, chown_op, allowed, writable]
  | _ => cases given

/-- In every run that gives no set-uid program to another owner the set-uid bits are vouched
for, a process without a root id gets one just by a program that root made set-uid, and
`access` leaves everything as it was. A set-uid file that is given to another owner is not
vouched for any more. -/
theorem setid_integrity {as : List Action} (start : Honest s) (run : Steps fairly s as t) :
    (∀ i, regular (t.inode i) → set_uid (t.inode i) → vouched (t.inode i)) ∧
    (∀ q, rootless (s.proc q) → rootless (t.proc q) ∨ ranRoot fairly s as q) ∧
    (∀ p path mode, (access t p path mode).1 = t) ∧
    (∀ a i owner, gives t a = some (i, owner) → regular (t.inode i) → set_uid (t.inode i) →
      owner ≠ (t.inode i).i_uid → regular ((a.apply t).1.inode i) ∧ set_uid ((a.apply t).1.inode i) ∧
        ¬ vouched ((a.apply t).1.inode i)) := by
  have honest := run_honest run start
  refine ⟨fun i reg set => honest i (program_of_regular reg) set, fun q => run_rootless run start q,
    access_same t, ?_⟩
  intro a i owner given reg set other
  obtain ⟨mode, uid, setter⟩ := gives_applies given
  refine ⟨?_, ?_, ?_⟩
  · unfold regular
    rw [mode]
    exact reg
  · unfold set_uid
    rw [mode]
    exact set
  · intro kept
    obtain ⟨v, was, before, _⟩ := honest i (program_of_regular reg) set
    obtain ⟨w, is, after, _⟩ := kept
    rw [setter, was] at is
    injection is with same
    rw [uid, ← same, before] at after
    exact other after.symm

/-! ## Two users -/

/-- A directory for all and two processes of two users. -/
def users : System where
  inode i := if i = 1 then ⟨0o40777, 2, 0, 0, 0, 0, false, fun _ => none, none⟩
    else ⟨0, 0, 0, 0, 0, 0, false, fun _ => none, none⟩
  proc p := ⟨if p = 0 then 100 else 101, 100, if p = 0 then 100 else 101, 100, [], 0, 1, 1, fun _ => none⟩
  srch_mt i := i
  s_mntpt _ := none

theorem users_honest : Honest users := by
  intro i prog
  by_cases root : i = 1
  · rw [root] at prog
    exact absurd prog (by decide)
  · have blank : (users.inode i).i_mode = 0 := by simp [users, root]
    unfold program at prog
    rw [blank] at prog
    exact absurd prog (by decide)

def helpful : Outside := ⟨some 2, true, true, true, true, none, true⟩

def tool : Option Path := some ⟨false, ["tool"]⟩

/-- The user 100 makes a set-uid file. -/
def made : System := (Action.apply users (.creat 0 tool false true true false 0o4755 helpful)).1

/-- User 101 runs it, and has the effective id of its owner. -/
theorem setid_integrity_users :
    let ran := (Action.apply made (.execve 1 tool .loaded)).1
    vouched (ran.inode 2) ∧ rootless (ran.proc 1) ∧ ids (ran.proc 1) = (101, 100) := by
  intro ran
  have run : Steps fairly users [.creat 0 tool false true true false 0o4755 helpful, .execve 1 tool .loaded] ran :=
    Steps.cons ⟨fun _ no => (by cases no), rfl⟩ (Steps.cons ⟨fun _ no => (by cases no), rfl⟩ (Steps.nil ran))
  obtain ⟨kept, _, _, _⟩ := setid_integrity users_honest run
  have after : ids (ran.proc 1) = (101, 100) := by decide +kernel
  refine ⟨kept 2 (by decide +kernel) (by decide +kernel), ?_, after⟩
  have uid : (ran.proc 1).p_uid = 101 := congrArg Prod.fst after
  have euid : (ran.proc 1).u_euid = 100 := congrArg Prod.snd after
  exact ⟨by rw [uid]; decide, by rw [euid]; decide⟩

/-- A call. -/
def calls (s : System) (a : Action) (t : System) : Prop := (a.apply s).1 = t

/-- The user 100 makes a set-uid file and gives it to root, and user 101 runs it. -/
def gift : List Action :=
  [.creat 0 tool false true true false 0o4755 helpful, .chown 0 tool 0 100, .execve 1 tool .loaded]

def given : System := (Action.apply made (.chown 0 tool 0 100)).1

theorem given_setter (path : Option Path) (load : Load) (same : Action.execve 1 tool .loaded = .execve 1 path load) :
    (n_open given (given.proc 1) path).ino = some 2 ∧ (given.inode 2).setter = some ⟨100, 100⟩ := by
  injection same with _ same
  rw [← same]
  exact ⟨by decide +kernel, by decide +kernel⟩

theorem gift_not_root : ¬ ranRoot calls users gift 1 := by
  intro ran
  obtain ⟨before, a, after, t, same, run, path, load, i, exec, found, _, _, setter⟩ := ran
  have reached : t = before.foldl (fun s a => (Action.apply s a).1) users := Steps.computed run
  rcases before with _ | ⟨_, _ | ⟨_, _ | ⟨_, rest⟩⟩⟩
  · injection same with same
    rw [exec] at same
    cases same
  · injection same with _ same
    injection same with same
    rw [exec] at same
    cases same
  · injection same with first same
    injection same with second same
    injection same with third
    rw [← first, ← second] at reached
    have here : t = given := reached
    rw [here] at found setter
    obtain ⟨file, other⟩ := given_setter path load (third.trans exec)
    rw [file] at found
    injection found with found
    rw [← found, other] at setter
    exact absurd setter (by decide)
  · injection same with _ same
    injection same with _ same
    injection same with _ same
    cases rest with
    | nil => cases same
    | cons _ _ => cases same

/-- The one user gets the effective id of root from a file that the other made. -/
theorem gift_to_root : ∃ t, Honest users ∧ Steps calls users gift t ∧
    (∃ i, regular (t.inode i) ∧ set_uid (t.inode i) ∧ ¬ vouched (t.inode i)) ∧
    rootless (users.proc 1) ∧ (t.proc 1).u_euid = 0 ∧ ¬ ranRoot calls users gift 1 := by
  let ran := (Action.apply given (.execve 1 tool .loaded)).1
  have run : Steps calls users gift ran :=
    Steps.cons rfl (Steps.cons rfl (Steps.cons rfl (Steps.nil ran)))
  have file : core (ran.inode 2) = (0o104755, 0, some ⟨100, 100⟩) := by decide +kernel
  have setter : (ran.inode 2).setter = some ⟨100, 100⟩ := congrArg (fun c => c.2.2) file
  have owner : (ran.inode 2).i_uid = 0 := congrArg (fun c => c.2.1) file
  refine ⟨ran, users_honest, run, ⟨2, by decide +kernel, by decide +kernel, ?_⟩, ⟨by decide, by decide⟩,
    by decide +kernel, gift_not_root⟩
  intro kept
  obtain ⟨v, is, same, _⟩ := kept
  rw [setter] at is
  injection is with here
  rw [owner, ← here] at same
  exact absurd same (by decide)

end Setid
