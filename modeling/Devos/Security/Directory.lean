import Devos.Library.Runs
import Devos.Security.EncryptFile

/-! `sys_encr` and `sys_decr` on a path, with the directory walks of `security.c`, step by step. -/

namespace Devos.Security

open Fs Runs

abbrev stackSize : ℕ := 100
abbrev dirEntriesPerBlock : ℕ := 64

structure DirEntry where
  inode : Word
  name : Byte

def dirEntry (b : Block) (k : ℕ) : DirEntry := ⟨b.word (8 * k), b.byte (16 * k + 2)⟩

def hiddenMark : Byte := 46

inductive Direction where
  | encr
  | decr

structure Request where
  direction : Direction
  inodes : Word → MInode
  target : Word

/-- Where the call stands: at a single file, at the test of the stack, behind `decrypt_file` of a
directory, at entry `k` of a directory, or at its end. -/
inductive Place where
  | file
  | next (stack : List Word)
  | opened (stack : List Word) (dir : Word)
  | scan (stack : List Word) (dir : Word) (k : ℕ)
  | done

structure WalkState where
  table : HashTable
  volume : Volume
  log : List Word
  place : Place

namespace Request

variable (q : Request)

def isDir (n : Word) : Prop := sIsDir (q.inodes n).iMode = true

instance (n : Word) : Decidable (q.isDir n) := inferInstanceAs (Decidable (_ = true))

def transformFile (keyToUse : CString) (hashToUse : HKey) (scratch : ℕ → Block) (s : WalkState)
    (n : Word) : Except Fault FileResult :=
  match q.direction with
  | .encr => encryptFile keyToUse scratch s.table s.volume (q.inodes n) ⟨n, hashToUse⟩
  | .decr => decryptFile keyToUse hashToUse scratch s.table s.volume (q.inodes n)

def start (hashToUse : HKey) (table : HashTable) : Option Place :=
  if q.isDir q.target then
    (searchFunc table q.target).map fun index =>
      match q.direction with
      | .encr => if index ≠ errNotFnd then .done else .next [q.target]
      | .decr =>
        if index = errNotFnd then .done
        else if compareHash hashToUse (table (Fin.ofNat tableSize index.toNat)).hKey = -einval then .done
        else .next [q.target]
  else some .file

def dirBlock (n : Word) : Word := (q.inodes n).iZone 0

end Request

/-- What `current_dir` points to: an entry of the block, or whatever lies behind the buffer. -/
def Reads (q : Request) (s : WalkState) (dir : Word) (k : ℕ) (e : DirEntry) : Prop :=
  k < dirEntriesPerBlock → e = dirEntry (s.volume.data (q.dirBlock dir)) k

inductive WalkEvent where
  | handed (n : Word) (hashToUse : HKey)
  | look

def WalkState.after (s : WalkState) (r : FileResult) (place : Place) : WalkState :=
  ⟨r.table, r.volume, s.log ++ r.log, place⟩

def WalkState.at (s : WalkState) (place : Place) : WalkState := { s with place := place }

def Hands (q : Request) (s : WalkState) (n : Word) (hashToUse : HKey) (place : Place) (s' : WalkState) :
    Prop :=
  ∃ keyToUse scratch r, q.transformFile keyToUse hashToUse scratch s n = .ok r ∧ s' = s.after r place

inductive WalkStep (q : Request) (s : WalkState) : WalkEvent → WalkState → Prop
  | file {h s'} : s.place = .file → Hands q s q.target h .done s' → WalkStep q s (.handed q.target h) s'
  | empty : s.place = .next [] → WalkStep q s .look (s.at .done)
  | pop {stack dir} : s.place = .next (dir :: stack) → q.direction = .encr →
      s.volume.readable (q.dirBlock dir) = true → WalkStep q s .look (s.at (.scan stack dir 2))
  | popDecr {stack dir h s'} : s.place = .next (dir :: stack) → q.direction = .decr →
      Hands q s dir h (.opened stack dir) s' → WalkStep q s (.handed dir h) s'
  | opened {stack dir} : s.place = .opened stack dir → s.volume.readable (q.dirBlock dir) = true →
      WalkStep q s .look (s.at (.scan stack dir 2))
  | hidden {stack dir k e} : s.place = .scan stack dir k → Reads q s dir k e → e.inode ≠ 0 →
      e.name = hiddenMark → WalkStep q s .look (s.at (.scan stack dir (k + 1)))
  | push {stack dir k e} : s.place = .scan stack dir k → Reads q s dir k e → e.inode ≠ 0 →
      e.name ≠ hiddenMark → q.isDir e.inode → stack.length < stackSize →
      WalkStep q s .look (s.at (.scan (e.inode :: stack) dir (k + 1)))
  | entry {stack dir k e h s'} : s.place = .scan stack dir k → Reads q s dir k e → e.inode ≠ 0 →
      e.name ≠ hiddenMark → ¬ q.isDir e.inode → Hands q s e.inode h (.scan stack dir (k + 1)) s' →
      WalkStep q s (.handed e.inode h) s'
  | last {stack dir k e h s'} : s.place = .scan stack dir k → Reads q s dir k e → e.inode = 0 →
      q.direction = .encr → Hands q s dir h (.next stack) s' → WalkStep q s (.handed dir h) s'
  | lastDecr {stack dir k e} : s.place = .scan stack dir k → Reads q s dir k e → e.inode = 0 →
      q.direction = .decr → WalkStep q s .look (s.at (.next stack))

def walkSystem (q : Request) (v : Volume) : System WalkState WalkEvent where
  init s := s.volume = v ∧ s.log = [] ∧ ∃ h, q.start h s.table = some s.place
  step := WalkStep q

/-- Nothing is transformed when the table turns the inode away: `add_func` finds its number, or
`remove_func` does not find it with that digest. -/
def Refused (q : Request) (table : HashTable) (n : Word) (hashToUse : HKey) : Prop :=
  match q.direction with
  | .encr => ∃ z, scheme.Found (view table) n z
  | .decr => ¬ ∃ z, scheme.Found (view table) n z ∧ (table z).hKey = hashToUse

lemma transformFile_cases {q : Request} {keyToUse : CString} {hashToUse : HKey} {scratch : ℕ → Block}
    {s : WalkState} {n : Word} (hn : n ≠ 0) (hnum : (q.inodes n).iNum = n) {r : FileResult}
    (h : q.transformFile keyToUse hashToUse scratch s n = .ok r) :
    (Refused q s.table n hashToUse ∧ r.volume = s.volume ∧ r.log = []) ∨
      ¬ Refused q s.table n hashToUse ∧ ∃ transform w,
        walk transform s.volume (q.inodes n) = .ok w ∧ r.volume = w.volume ∧ r.log = w.log := by
  rw [Request.transformFile] at h
  cases hd : q.direction with
  | encr =>
    rw [hd] at h
    dsimp only at h
    have h' : encryptFile keyToUse scratch s.table s.volume (q.inodes n)
        ⟨(q.inodes n).iNum, hashToUse⟩ = .ok r := by rwa [hnum]
    rcases encryptFile_cases (by rwa [hnum]) h' with ⟨hfound, rfl⟩ | ⟨w, s', hw, hwalk, rfl⟩
    · rw [hnum] at hfound
      exact Or.inl ⟨by rwa [Refused, hd], rfl, rfl⟩
    · rw [hnum] at hw
      refine Or.inr ⟨?_, _, s', hwalk, rfl, rfl⟩
      rw [Refused, hd]
      rintro ⟨z, hz⟩
      exact LinearProbing.Scheme.found_not_missing hz hw
  | decr =>
    rw [hd] at h
    dsimp only at h
    rw [Refused, hd]
    rcases decryptFile_cases (by rwa [hnum]) h with ⟨z, w, hz, hh, _, hwalk, _, hv, hl⟩ |
      ⟨hno, _, _, hv, hl⟩
    · rw [hnum] at hz
      exact Or.inr ⟨not_not.mpr ⟨z, hz, hh⟩, _, w, hwalk, hv, hl⟩
    · rw [hnum] at hno
      exact Or.inl ⟨hno, hv, hl⟩

end Devos.Security
