import Devos.Library.Runs
import Devos.Security.Directory
import Devos.Fs.Links

/-! The process's `root` and `pwd`, and the reference counts of the inodes in memory, over calls of
`sys_encr` and `sys_decr` and refreshes of the file explorer. -/

namespace Devos.Kernel

open Fs Loops Runs Security

/-- The current process's `root` and `pwd`, and `i_count` by inode number. -/
structure Context where
  root : Option Word
  pwd : Option Word
  iCount : Word → ℕ

/-- The tree as one call finds it. `scanned` lists what a directory walk's pointer runs over, from the
third entry of the directory on. -/
structure Names where
  isDir : Word → Bool
  mayExec : Word → Bool
  entries : Word → List Entry
  scanned : Word → List Entry

def slash : Byte := 47

def rootInode : Word := 1

namespace Names

variable (t : Names)

def findEntry (dir : Word) (name : List Byte) : Option Word :=
  if name = [] then none
  else ((t.entries dir).find? fun e => decide (e.inode ≠ 0 ∧ e.name = name.take nameLen)).map Entry.inode

/-- The inodes that the walk gets, up to the first free entry and without hidden names. -/
def children (dir : Word) : List Word :=
  (((t.scanned dir).takeWhile fun e => e.inode ≠ 0).filter fun e => e.name.head? ≠ some hiddenMark).map Entry.inode

end Names

namespace Context

variable (s : Context)

def iget (n : Word) : Context := { s with iCount := Function.update s.iCount n (s.iCount n + 1) }

def iput (n : Word) : Except Fault Context :=
  if s.iCount n = 0 then .error .panic
  else .ok { s with iCount := Function.update s.iCount n (s.iCount n - 1) }

-- `iput(NULL)` returns
def iputNull : Option Word → Except Fault Context
  | none => .ok s
  | some n => s.iput n

def setRoot (r : Option Word) : Context := { s with root := r }

def setPwd (r : Option Word) : Context := { s with pwd := r }

def descend (t : Names) : Context → Word → List (List Byte) → Except Fault (Option Word × Context)
  | s, inode, [] =>
    if ¬ (t.isDir inode ∧ t.mayExec inode) then (s.iput inode).map fun s => (none, s) else .ok (some inode, s)
  | s, inode, name :: rest =>
    if ¬ (t.isDir inode ∧ t.mayExec inode) then (s.iput inode).map fun s => (none, s)
    else
      match t.findEntry inode name with
      | none => (s.iput inode).map fun s => (none, s)
      | some inr => (s.iput inode).bind fun s => descend t (s.iget inr) inr rest

def live : Option Word → Option Word
  | none => none
  | some n => if s.iCount n = 0 then none else some n

def getDir (t : Names) (path : List Byte) : Except Fault (Option Word × Context) :=
  match s.live s.root, s.live s.pwd with
  | some root, some pwd =>
    match path with
    | [] => .ok (none, s)
    | c :: rest =>
      if c = slash then descend t (s.iget root) root (rest.splitOn slash).dropLast
      else descend t (s.iget pwd) pwd (path.splitOn slash).dropLast
  -- no root inode, or no cwd inode
  | _, _ => .error .panic

def basename (path : List Byte) : List Byte := (path.splitOn slash).getLastD []

def namei (t : Names) (path : List Byte) : Except Fault (Option Word × Context) :=
  (s.getDir t path).bind fun (dir, s) =>
    match dir with
    | none => .ok (none, s)
    | some dir =>
      if basename path = [] then .ok (some dir, s)
      else
        match t.findEntry dir (basename path) with
        | none => (s.iput dir).map fun s => (none, s)
        | some inr => (s.iput dir).map fun s => (some inr, s.iget inr)

end Context

/-- The stack of a directory walk, and the references that it holds. -/
abbrev Held := List Word × Context

def visit (t : Names) (w : Held) (n : Word) : Except Fault Held :=
  let s := w.2.iget n
  if t.isDir n then if w.1.length < stackSize then .ok (n :: w.1, s) else .error .overrun
  else (s.iput n).map fun s => (w.1, s)

def visitAll (t : Names) : List Word → Held → Except Fault Held
  | [], w => .ok w
  | n :: rest, w => (visit t w n).bind (visitAll t rest)

/-- One round of the loop of `encrypt_directory` or `decrypt_directory` on `target`. -/
def walkRound (t : Names) (target : Word) (w : Held) : Pass Held (Except Fault Context) :=
  match w.1 with
  | [] => .leave (.ok w.2)
  | dir :: stack =>
    let after := (visitAll t (t.children dir) (stack, w.2)).bind fun w =>
      if dir ≠ target then (w.2.iput dir).map fun s => (w.1, s) else .ok w
    match after with
    | .error f => .leave (.error f)
    | .ok w => .again w

def walkDirectory (t : Names) (passes : ℕ) (target : Word) (s : Context) : Except Fault Context :=
  (iterate (walkRound t target) passes ([target], s)).getD (.error .hang)

/-- What a call of `sys_encr` or `sys_decr` finds besides the tree: whether a key is set, and whether
the table lets the walk of a directory start. -/
structure Chances where
  keySet : Bool
  admitted : Bool

namespace Context

variable (s : Context)

-- `encrypt_file` and `decrypt_file` count nothing
def crypt (t : Names) (c : Chances) (passes : ℕ) (path : List Byte) : Except Fault Context :=
  (((s.iget rootInode).setRoot (some rootInode)).namei t path).bind fun (node, s) =>
    let walked : Except Fault Context :=
      match node with
      | none => .ok s
      | some n => if c.keySet ∧ t.isDir n ∧ c.admitted then walkDirectory t passes n s else .ok s
    walked.bind fun s => (s.iputNull node).bind fun s =>
      (s.iput rootInode).map fun s => (s.setPwd none).setRoot none

def sysEncr (t : Names) (c : Chances) (passes : ℕ) (path : List Byte) : Except Fault Context :=
  s.crypt t c passes path

def sysDecr (t : Names) (c : Chances) (passes : ℕ) (path : List Byte) : Except Fault Context :=
  s.crypt t c passes path

def showEntry (t : Names) (dirPath name : List Byte) : Except Fault Context :=
  let path := if dirPath = [slash] then dirPath ++ name else dirPath ++ [slash] ++ name
  (s.namei t path).bind fun (node, s) => s.iputNull node

def showEntries (t : Names) (dirPath : List Byte) : List (List Byte) → Context → Except Fault Context
  | [], s => .ok s
  | name :: rest, s => (s.showEntry t dirPath name).bind (showEntries t dirPath rest)

-- a node that is NULL is read at address 0
def getChildrenFromFs (t : Names) (initFlag : Bool) (dirPath : List Byte) (names : Fin 10 → List Byte) :
    Except Fault Context :=
  let s := ((s.iget rootInode).setPwd (some rootInode)).setRoot (some rootInode)
  let opened := if initFlag then (s.namei t dirPath).bind fun (node, s) => s.iputNull node else .ok s
  opened.bind fun s => (showEntries t dirPath (List.ofFn names) s).bind fun s =>
    (s.iput rootInode).map fun s => (s.setRoot none).setPwd none

/-- What a process has from `fork`: counted references to two directories. -/
structure Valid (s : Context) : Prop where
  root : ∃ n, s.root = some n ∧ s.iCount n ≠ 0
  pwd : ∃ n, s.pwd = some n ∧ s.iCount n ≠ 0

end Context

inductive ContextCall where
  | encr (t : Names) (c : Chances) (path : List Byte)
  | decr (t : Names) (c : Chances) (path : List Byte)
  | refresh (t : Names) (initFlag : Bool) (dirPath : List Byte) (names : Fin 10 → List Byte)

def ContextCall.names : ContextCall → Names
  | .encr t _ _ => t
  | .decr t _ _ => t
  | .refresh t _ _ _ => t

def ContextCall.run (passes : ℕ) (s : Context) : ContextCall → Except Fault Context
  | .encr t c path => s.sysEncr t c passes path
  | .decr t c path => s.sysDecr t c passes path
  | .refresh t initFlag dirPath names => s.getChildrenFromFs t initFlag dirPath names

def contextSystem : System Context ContextCall where
  init := Context.Valid
  step s a s' := ∃ passes, a.run passes s = .ok s'

/-- No directory is below itself. -/
def Names.Acyclic (t : Names) : Prop := ∀ d, ¬ Relation.TransGen (fun d n => n ∈ t.children d) d d

namespace Context

section References

variable {s : Context} {t : Names} {n : Word} {l l' : List Word}

/-- `s` with one more reference to each of `l`. -/
def held (s : Context) (l : List Word) : Context := { s with iCount := fun n => s.iCount n + l.count n }

lemma held_nil (s : Context) : s.held [] = s := by
  simp [held]

lemma held_perm (s : Context) (h : l.Perm l') : s.held l = s.held l' := by
  simp only [held, h.count_eq]

lemma iget_held (s : Context) (l : List Word) (n : Word) : (s.held l).iget n = s.held (n :: l) := by
  refine congrArg (fun f => { s with iCount := f }) ?_
  funext m
  by_cases h : m = n
  · subst h
    rw [Function.update_self, List.count_cons_self]
    rfl
  · rw [Function.update_of_ne h, List.count_cons_of_ne (Ne.symm h)]
    rfl

lemma iget_eq (s : Context) (n : Word) : s.iget n = s.held [n] := by
  rw [← iget_held, held_nil]

lemma iput_held (s : Context) (l : List Word) (n : Word) : (s.held (n :: l)).iput n = .ok (s.held l) := by
  have hcount : (s.held (n :: l)).iCount n = (s.held l).iCount n + 1 := by
    change s.iCount n + (n :: l).count n = _
    rw [List.count_cons_self]
    rfl
  rw [iput, if_neg (by omega), hcount, Nat.add_sub_cancel]
  refine congrArg Except.ok ?_
  rw [← iget_held]
  refine congrArg (fun f => { s with iCount := f }) ?_
  change Function.update (Function.update _ n _) n _ = _
  rw [Function.update_idem, Function.update_eq_self]
  rfl

lemma iput_iget (s : Context) (n : Word) : (s.iget n).iput n = .ok s := by
  rw [iget_eq, iput_held, held_nil]

/-- The reference that a lookup returns with. -/
def take (s : Context) (r : Option Word) : Context := s.held r.toList

lemma iputNull_take (s : Context) (r : Option Word) : (s.take r).iputNull r = .ok s := by
  cases r with
  | none => rw [iputNull, take, Option.toList_none, held_nil]
  | some n => rw [iputNull, take, Option.toList_some, iput_held, held_nil]

lemma descend_spec (t : Names) (names : List (List Byte)) (s : Context) (inode : Word) :
    ∃ r, descend t (s.iget inode) inode names = .ok (r, s.take r) := by
  have hback : ∃ r : Option Word,
      ((s.iget inode).iput inode).map (fun s => ((none : Option Word), s)) = .ok (r, s.take r) := by
    refine ⟨none, ?_⟩
    rw [iput_iget, take, Option.toList_none, held_nil]
    rfl
  induction names generalizing s inode with
  | nil =>
    rw [descend]
    split
    · exact hback
    · refine ⟨some inode, ?_⟩
      rw [take, Option.toList_some, iget_eq]
  | cons name rest ih =>
    rw [descend]
    split
    · exact hback
    · cases t.findEntry inode name with
      | none => exact hback
      | some inr =>
        dsimp only
        rw [iput_iget]
        refine ih s inr ⟨none, ?_⟩
        rw [iput_iget, take, Option.toList_none, held_nil]
        rfl

lemma live_some (h : s.iCount n ≠ 0) : s.live (some n) = some n := if_neg h

lemma getDir_spec (h : s.Valid) (t : Names) (path : List Byte) :
    ∃ r, s.getDir t path = .ok (r, s.take r) := by
  obtain ⟨root, hroot, hroot₀⟩ := h.root
  obtain ⟨pwd, hpwd, hpwd₀⟩ := h.pwd
  rw [getDir, hroot, hpwd, live_some hroot₀, live_some hpwd₀]
  match path with
  | [] => exact ⟨none, by rw [take, Option.toList_none, held_nil]⟩
  | c :: rest =>
    dsimp only
    split
    · exact descend_spec t _ s root
    · exact descend_spec t _ s pwd

lemma namei_spec (h : s.Valid) (t : Names) (path : List Byte) :
    ∃ r, s.namei t path = .ok (r, s.take r) := by
  obtain ⟨r, hr⟩ := getDir_spec h t path
  rw [namei, hr]
  cases r with
  | none => exact ⟨none, rfl⟩
  | some dir =>
    dsimp only [Except.bind]
    split
    · exact ⟨some dir, rfl⟩
    · cases t.findEntry dir (basename path) with
      | none =>
        refine ⟨none, ?_⟩
        dsimp only
        rw [take, Option.toList_some, ← iget_eq, iput_iget, take, Option.toList_none, held_nil]
        rfl
      | some inr =>
        refine ⟨some inr, ?_⟩
        dsimp only
        rw [take, Option.toList_some, ← iget_eq, iput_iget, take, Option.toList_some, ← iget_eq]
        rfl

lemma valid_of_getDir {x : Option Word × Context} {path : List Byte} (h : s.getDir t path = .ok x) : s.Valid := by
  have hlive : ∀ {r : Option Word} {n}, s.live r = some n → ∃ n, r = some n ∧ s.iCount n ≠ 0 := by
    intro r n hr
    cases r with
    | none => cases hr
    | some m =>
      rw [live] at hr
      split_ifs at hr with hm
      exact ⟨m, rfl, hm⟩
  rw [getDir] at h
  cases hr : s.live s.root with
  | none =>
    rw [hr] at h
    cases h
  | some root =>
    cases hp : s.live s.pwd with
    | none =>
      rw [hr, hp] at h
      cases h
    | some pwd => exact ⟨hlive hr, hlive hp⟩

lemma namei_ok {x : Option Word × Context} {path : List Byte} (h : s.namei t path = .ok x) :
    ∃ r, x = (r, s.take r) := by
  have hvalid : s.Valid := by
    rw [namei] at h
    cases hg : s.getDir t path with
    | error f =>
      rw [hg] at h
      cases h
    | ok y => exact valid_of_getDir hg
  obtain ⟨r, hr⟩ := namei_spec hvalid t path
  exact ⟨r, Except.ok.inj (h.symm.trans hr)⟩

end References

section Walk

variable {s s' : Context} {t : Names} {n target : Word} {l stack : List Word} {w : Held}

lemma visit_held (h : visit t (stack, s.held l) n = .ok w) :
    ∃ new, (∀ m ∈ new, m = n) ∧ w = (new ++ stack, s.held (new ++ l)) := by
  rw [visit] at h
  dsimp only at h
  split_ifs at h
  · cases h
    exact ⟨[n], fun m hm => List.mem_singleton.mp hm, by rw [iget_held]; rfl⟩
  · rw [iput_iget] at h
    cases h
    exact ⟨[], fun m hm => absurd hm (List.not_mem_nil), rfl⟩

lemma visitAll_held {ns : List Word} (h : visitAll t ns (stack, s.held l) = .ok w) :
    ∃ new, (∀ m ∈ new, m ∈ ns) ∧ w = (new ++ stack, s.held (new ++ l)) := by
  induction ns generalizing stack l with
  | nil =>
    cases h
    exact ⟨[], fun m hm => absurd hm List.not_mem_nil, rfl⟩
  | cons n rest ih =>
    rw [visitAll] at h
    cases hv : visit t (stack, s.held l) n with
    | error f =>
      rw [hv] at h
      cases h
    | ok w' =>
      rw [hv] at h
      obtain ⟨new, hnew, rfl⟩ := visit_held hv
      obtain ⟨more, hmore, rfl⟩ := ih h
      refine ⟨more ++ new, fun m hm => ?_, by rw [List.append_assoc, List.append_assoc]⟩
      rcases List.mem_append.mp hm with hm | hm
      · exact List.mem_cons_of_mem _ (hmore m hm)
      · exact hnew m hm ▸ List.mem_cons_self

/-- The walk holds one reference to every directory on its stack but the target. -/
def WalkHeld (t : Names) (target : Word) (s : Context) (w : Held) : Prop :=
  w.2 = s.held (w.1.filter (· ≠ target)) ∧
    ∀ m ∈ w.1, Relation.ReflTransGen (fun d n => n ∈ t.children d) target m

lemma walkRound_held (hacyclic : t.Acyclic) {w' : Held} (hw : WalkHeld t target s w)
    (h : walkRound t target w = .again w') : WalkHeld t target s w' := by
  obtain ⟨stack, u⟩ := w
  obtain ⟨hu, hbelow⟩ := hw
  dsimp only at hu hbelow
  subst hu
  cases stack with
  | nil => cases h
  | cons dir stack =>
    rw [walkRound] at h
    dsimp only at h
    split at h
    · cases h
    · rename_i v hv
      cases h
      cases ha : visitAll t (t.children dir) (stack, s.held ((dir :: stack).filter (· ≠ target))) with
      | error f =>
        rw [ha] at hv
        cases hv
      | ok v =>
        rw [ha] at hv
        obtain ⟨new, hnew, rfl⟩ := visitAll_held ha
        have hdir := hbelow dir List.mem_cons_self
        have hne : ∀ m ∈ new, m ≠ target := by
          rintro m hm rfl
          exact hacyclic m (Relation.TransGen.tail' hdir (hnew m hm))
        have hall : ∀ m ∈ new ++ stack, Relation.ReflTransGen (fun d n => n ∈ t.children d) target m := by
          intro m hm
          rcases List.mem_append.mp hm with hm | hm
          · exact hdir.tail (hnew m hm)
          · exact hbelow m (List.mem_cons_of_mem _ hm)
        have hfilter : (new ++ stack).filter (· ≠ target) = new ++ stack.filter (· ≠ target) := by
          rw [List.filter_append, List.filter_eq_self.mpr fun m hm => decide_eq_true (hne m hm)]
        dsimp only [Except.bind] at hv
        split_ifs at hv with ht
        · rw [List.filter_cons_of_pos (by simpa using ht), held_perm s List.perm_middle, iput_held] at hv
          cases hv
          refine ⟨?_, hall⟩
          dsimp only
          rw [hfilter]
        · cases hv
          refine ⟨?_, hall⟩
          dsimp only
          rw [hfilter, List.filter_cons_of_neg (by simpa using ht)]

/-- A directory walk that comes back has returned every reference that it took. -/
lemma walkDirectory_held (hacyclic : t.Acyclic) {passes : ℕ} (h : walkDirectory t passes target s = .ok s') :
    s' = s := by
  rw [walkDirectory] at h
  cases hi : iterate (walkRound t target) passes ([target], s) with
  | none =>
    rw [hi] at h
    cases h
  | some r =>
    rw [hi, Option.getD_some] at h
    have hstart : WalkHeld t target s ([target], s) := by
      refine ⟨?_, fun m hm => List.mem_singleton.mp hm ▸ .refl⟩
      dsimp only
      rw [List.filter_cons_of_neg (by simp), List.filter_nil, held_nil]
    refine iterate_invariant (WalkHeld t target s) (Q := fun r => r = .ok s' → s' = s)
      (fun _ _ hw ha => walkRound_held hacyclic hw ha) ?_ hstart hi h
    rintro ⟨stack, u⟩ r ⟨hu, -⟩ hl he
    cases stack with
    | nil =>
      cases hl
      cases he
      exact hu.trans (held_nil s)
    | cons dir stack =>
      rw [walkRound] at hl
      dsimp only at hl
      split at hl
      · cases hl
        cases he
      · cases hl

end Walk

section Calls

variable {s s' : Context} {t : Names} {path : List Byte}

lemma crypt_ok {c : Chances} {passes : ℕ} (h : s.crypt t c passes path = .ok s') :
    s'.root = none ∧ s'.pwd = none ∧ (t.Acyclic → s'.iCount = s.iCount) := by
  obtain ⟨x, hn, h⟩ := bind_eq_ok h
  obtain ⟨r, rfl⟩ := namei_ok hn
  obtain ⟨u, hwalk, h⟩ := bind_eq_ok h
  obtain ⟨v, hnode, h⟩ := bind_eq_ok h
  obtain ⟨w, hroot, rfl⟩ := map_eq_ok h
  refine ⟨rfl, rfl, fun hacyclic => ?_⟩
  have hu : u = ((s.iget rootInode).setRoot (some rootInode)).take r := by
    cases r with
    | none => exact (Except.ok.inj hwalk).symm
    | some n =>
      dsimp only at hwalk
      split_ifs at hwalk
      · exact walkDirectory_held hacyclic hwalk
      · exact (Except.ok.inj hwalk).symm
  rw [hu, iputNull_take] at hnode
  cases hnode
  have hcount : ((s.setRoot (some rootInode)).iget rootInode).iput rootInode = .ok w := hroot
  rw [iput_iget] at hcount
  cases hcount
  rfl

lemma showEntry_ok {dirPath name : List Byte} (h : s.showEntry t dirPath name = .ok s') : s' = s := by
  obtain ⟨x, hn, h⟩ := bind_eq_ok h
  obtain ⟨r, rfl⟩ := namei_ok hn
  exact (Except.ok.inj ((iputNull_take s r).symm.trans h)).symm

lemma showEntries_ok {dirPath : List Byte} {names : List (List Byte)}
    (h : s.showEntries t dirPath names = .ok s') : s' = s := by
  induction names generalizing s with
  | nil => exact (Except.ok.inj h).symm
  | cons name rest ih =>
    obtain ⟨u, hu, h⟩ := bind_eq_ok h
    exact (ih h).trans (showEntry_ok hu)

lemma getChildrenFromFs_ok {initFlag : Bool} {dirPath : List Byte} {names : Fin 10 → List Byte}
    (h : s.getChildrenFromFs t initFlag dirPath names = .ok s') :
    s'.root = none ∧ s'.pwd = none ∧ s'.iCount = s.iCount := by
  obtain ⟨u, hopened, h⟩ := bind_eq_ok h
  obtain ⟨v, hshown, h⟩ := bind_eq_ok h
  obtain ⟨w, hroot, rfl⟩ := map_eq_ok h
  refine ⟨rfl, rfl, ?_⟩
  have hu : u = ((s.iget rootInode).setPwd (some rootInode)).setRoot (some rootInode) := by
    dsimp only at hopened
    split_ifs at hopened
    · obtain ⟨x, hn, hopened⟩ := bind_eq_ok hopened
      obtain ⟨r, rfl⟩ := namei_ok hn
      exact (Except.ok.inj ((iputNull_take _ r).symm.trans hopened)).symm
    · exact (Except.ok.inj hopened).symm
  rw [showEntries_ok hshown, hu] at hroot
  have hcount : (((s.setPwd (some rootInode)).setRoot (some rootInode)).iget rootInode).iput rootInode = .ok w :=
    hroot
  rw [iput_iget] at hcount
  cases hcount
  rfl

end Calls

end Context

section Runs

open Context

variable {s s' : Context} {calls : List ContextCall} {ok : Context → ContextCall → Prop}

lemma step_leaves {a : ContextCall} (h : contextSystem.step s a s') :
    s'.root = none ∧ s'.pwd = none ∧ (a.names.Acyclic → s'.iCount = s.iCount) := by
  obtain ⟨passes, h⟩ := h
  cases a with
  | encr t c path => exact crypt_ok h
  | decr t c path => exact crypt_ok h
  | refresh t initFlag dirPath names =>
    obtain ⟨hr, hp, hc⟩ := getChildrenFromFs_ok h
    exact ⟨hr, hp, fun _ => hc⟩

/-- Every call that comes back gives back what it took, unless a directory is below itself. -/
theorem counts_kept (h : contextSystem.Trace (fun _ a => a.names.Acyclic) s calls s') :
    s'.iCount = s.iCount := by
  induction h with
  | nil => rfl
  | snoc _ hok hstep ih => exact ((step_leaves hstep).2.2 hok).trans ih

/-- What a run should leave alone, and what no later lookup should come to. -/
structure ContextKept (s s' : Context) : Prop where
  root : s'.root = s.root
  pwd : s'.pwd = s.pwd
  iCount : s'.iCount = s.iCount
  lookups : ∀ t path, s'.namei t path ≠ .error .panic

lemma no_root_panics (hr : s.root = none) (t : Names) (path : List Byte) : s.namei t path = .error .panic := by
  rw [namei, getDir, hr]
  rfl

lemma root_taken (h : contextSystem.Trace ok s calls s') (hne : calls ≠ []) : s'.root = none := by
  cases h with
  | nil => exact absurd rfl hne
  | snoc _ _ hstep => exact (step_leaves hstep).1

lemma contextKept_iff (hs : s.Valid) (h : contextSystem.Trace ok s calls s') : ContextKept s s' ↔ calls = [] := by
  constructor
  · intro hkept
    by_contra hne
    obtain ⟨n, hn, -⟩ := hs.root
    have hroot := hkept.root
    rw [root_taken h hne, hn] at hroot
    cases hroot
  · intro hc
    cases h with
    | nil =>
      refine ⟨rfl, rfl, rfl, fun t path hp => ?_⟩
      obtain ⟨r, hr⟩ := namei_spec hs t path
      rw [hr] at hp
      cases hp
    | snoc _ _ _ => exact absurd hc (by simp)

/-- Every call of `sys_encr` or `sys_decr` and every refresh takes `root` and `pwd` away from the
process, whose next lookup panics. -/
theorem context_kept (s s' : Context) (calls : List ContextCall) (hs : s.Valid)
    (h : contextSystem.Trace (fun _ _ => True) s calls s') : ContextKept s s' ↔ calls = [] :=
  contextKept_iff hs h

/-- A file and a directory with one file. -/
def twoFiles : Names where
  isDir n := n = 1 ∨ n = 3
  mayExec _ := true
  entries n := if n = 1 then [⟨2, [97]⟩, ⟨3, [98]⟩] else if n = 3 then [⟨4, [99]⟩] else []
  scanned n := if n = 1 then [⟨2, [97]⟩, ⟨3, [98]⟩] else if n = 3 then [⟨4, [99]⟩] else []

def atRoot : Context := ⟨some 1, some 1, fun n => if n = 1 then 2 else 0⟩

lemma atRoot_valid : atRoot.Valid := ⟨⟨1, rfl, by decide⟩, ⟨1, rfl, by decide⟩⟩

lemma atRoot_encr :
    ∃ s', contextSystem.Trace (fun _ _ => True) atRoot [.encr twoFiles ⟨true, true⟩ [slash]] s' := by
  have hrun : ∃ s', atRoot.sysEncr twoFiles ⟨true, true⟩ 3 [slash] = .ok s' := ⟨_, rfl⟩
  obtain ⟨s', hs'⟩ := hrun
  have hnil : contextSystem.Trace (fun _ _ => True) atRoot [] atRoot := .nil
  exact ⟨s', hnil.snoc trivial ⟨3, hs'⟩⟩

theorem context_kept_encr :
    ∃ s', contextSystem.Trace (fun _ _ => True) atRoot [.encr twoFiles ⟨true, true⟩ [slash]] s' ∧
      (ContextKept atRoot s' ↔ [ContextCall.encr twoFiles ⟨true, true⟩ [slash]] = []) := by
  obtain ⟨s', hs'⟩ := atRoot_encr
  exact ⟨s', hs', context_kept atRoot s' _ atRoot_valid hs'⟩

/-- After `encr /` the process has no root, and its next lookup panics. -/
theorem encr_takes_root :
    ∃ s', contextSystem.Trace (fun _ _ => True) atRoot [.encr twoFiles ⟨true, true⟩ [slash]] s' ∧
      ¬ ContextKept atRoot s' ∧ ∀ path, s'.namei twoFiles path = .error .panic := by
  obtain ⟨s', hs'⟩ := atRoot_encr
  have hne : [ContextCall.encr twoFiles ⟨true, true⟩ [slash]] ≠ [] := by simp
  have hlost : ¬ ContextKept atRoot s' := fun h => hne ((contextKept_iff atRoot_valid hs').mp h)
  exact ⟨s', hs', hlost, no_root_panics (root_taken hs' hne) twoFiles⟩

end Runs

end Devos.Kernel
