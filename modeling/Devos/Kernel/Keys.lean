import Devos.Security.Table
import Devos.Security.Cipher
import Devos.Library.Runs

/-! The keys of the processes and of the kernel, and the steps that change them or use them. -/

namespace Devos.Kernel

open Loops Security Runs

structure Task where
  key : CString
  hKey : HKey
  kTimeout : ℕ

/-- What `key_to_use` and `hash_to_use` point to. -/
inductive KeyPtr (n : ℕ) where
  | null
  | global
  | own (p : Fin n)
  deriving DecidableEq

inductive Activity where
  | idle
  | reading
  | writing (isEncr : Bool)
  | encrypting
  | decrypting
  deriving DecidableEq

/-- The last call that assigned `key_to_use`: its process, and whether that process had a key of its
own then. This is history; no step reads it. -/
structure Assignment (n : ℕ) where
  process : Fin n
  hadOwn : Bool

structure Sys (n : ℕ) where
  task : Fin n → Option Task
  activity : Fin n → Activity
  encryptionKey : CString
  hKey : HKey
  globalTimeout : ℕ        -- `task[0]->k_timeout`
  keyToUse : KeyPtr n
  hashToUse : KeyPtr n
  jiffies : ℕ
  assigned : Option (Assignment n)

def hz : ℕ := 100
def lockTimeout : ℕ := 45
def glokTimeout : ℕ := 120
def kLocal : ℤ := 1
def kGlobal : ℤ := 2

def hash (str : CString) : HKey := fun i =>
  -- the characters are signed
  let h : BitVec 32 := forLoop 0 (i + 1)
    (fun j h => h * 33 + (str.char (j % str.strlen)).signExtend 32) 5381
  BitVec.ofNat 8 (0x41 + h.toNat % 25)

variable {n : ℕ}

namespace Sys

def ownPtr (t : Task) (p : Fin n) : KeyPtr n := if t.key.strlen = 0 then .global else .own p

def effective (s : Sys n) (t : Task) : CString :=
  if t.key.strlen = 0 then s.encryptionKey else t.key

def deref (s : Sys n) : KeyPtr n → Option CString
  | .null => none
  | .global => some s.encryptionKey
  | .own p => (s.task p).map Task.key

def setTask (s : Sys n) (p : Fin n) (t : Task) : Sys n :=
  { s with task := Function.update s.task p (some t) }

def assign (s : Sys n) (p : Fin n) (t : Task) : Sys n :=
  { s with
    keyToUse := ownPtr t p
    hashToUse := ownPtr t p
    assigned := some ⟨p, t.key.strlen ≠ 0⟩ }

def setKey (s : Sys n) (p : Fin n) (t : Task) (key : CString) (globKey : ℤ) : Sys n :=
  if isPowerOfTwo key.strlen then
    if globKey = kLocal then
      let t := { t with key := key, hKey := hash key, kTimeout := s.jiffies + hz * lockTimeout }
      (s.setTask p t).assign p t
    else
      let s := { s with
        encryptionKey := key
        hKey := hash key
        globalTimeout := s.jiffies + hz * glokTimeout }
      s.assign p t
  else s

def clearHash (h : HKey) : HKey := Function.update h 0 0

def clearKey (s : Sys n) (p : Fin n) (t : Task) (globFlag : ℤ) : Sys n :=
  if globFlag = kGlobal then { s with encryptionKey := .empty, hKey := clearHash s.hKey }
  else s.setTask p { t with key := .empty, hKey := clearHash t.hKey }

def charSet : List Byte :=
  "abcdefghijklmnopqrstuvwxyzABCDEFGHIJKLMNOPQRSTUVWXYZ123456789".toList.map
    (fun c => BitVec.ofNat 8 c.toNat)

def Generated (level : ℕ) (key : CString) : Prop :=
  key.chars.Nodup ∧ (∀ c, c ∈ key.chars → c ∈ charSet) ∧ key.strlen = 2 * 2 ^ level

def Expired (s : Sys n) (q : Fin n) : Prop :=
  ∃ t, s.task q = some t ∧ 0 < t.kTimeout ∧ t.kTimeout < s.jiffies

instance (s : Sys n) (q : Fin n) : Decidable (s.Expired q) :=
  match h : s.task q with
  | none => .isFalse (by rintro ⟨t, ht, _⟩; rw [h] at ht; cases ht)
  | some t => decidable_of_iff (0 < t.kTimeout ∧ t.kTimeout < s.jiffies) (by
      constructor
      · exact fun hh => ⟨t, h, hh⟩
      · rintro ⟨t', ht', hh⟩
        rw [h] at ht'
        cases ht'
        exact hh)

/-- The timeouts in `schedule`, called by process `p`: whichever task has timed out, the local key
cleared is the one of the current process. -/
def checkTimeouts (s : Sys n) (p : Fin n) (t : Task) : Sys n :=
  let s₁ := if ∃ q, s.Expired q then s.clearKey p t kLocal else s
  let s₂ := { s₁ with
    task := fun q =>
      if s.Expired q then (s₁.task q).map (fun t => { t with kTimeout := 0 }) else s₁.task q }
  if 0 < s.globalTimeout ∧ s.globalTimeout < s.jiffies then
    { s₂ with encryptionKey := .empty, hKey := clearHash s.hKey, globalTimeout := 0 }
  else s₂

def transforms (s : Sys n) (p : Fin n) (t : Task) (inTable : Bool) : Bool :=
  match s.activity p with
  | .idle => false
  | .reading => 0 < (s.effective t).strlen && inTable
  | .writing isEncr => (0 < (s.effective t).strlen && inTable) || isEncr
  | .encrypting => true
  | .decrypting => true

def setActivity (s : Sys n) (p : Fin n) (a : Activity) : Sys n :=
  { s with activity := Function.update s.activity p a }

end Sys

inductive Event (n : ℕ) where
  | keyset (p : Fin n) (key : CString) (globFlag : ℤ)
  | keyclear (p : Fin n) (globFlag : ℤ)
  | keygen (p : Fin n) (level : ℕ) (key : CString)
  | encr (p : Fin n)
  | decr (p : Fin n)
  | read (p : Fin n)
  | write (p : Fin n)
  | block (p : Fin n) (inTable : Bool)
  | finish (p : Fin n)
  | schedule (p : Fin n)
  | tick
  | exit (p : Fin n)
  | release (p : Fin n)

-- `sys_encr` and `sys_decr` up to the first block
def startCipher (s : Sys n) (p : Fin n) (t : Task) (a : Activity) : Sys n :=
  if (s.effective t).strlen = 0 then s.assign p t else (s.assign p t).setActivity p a

/-- One step of the system. Calls are made by idle processes; a zombie keeps its task until it is
released. -/
inductive Step : Sys n → Event n → Sys n → Prop
  -- a longer key runs past `_key[KEY_SIZE]`
  | keyset {s p t key globFlag} : s.task p = some t → s.activity p = .idle → key.strlen < keySize →
      Step s (.keyset p key globFlag) (s.setKey p t key globFlag)
  | keyclear {s p t globFlag} : s.task p = some t → s.activity p = .idle →
      Step s (.keyclear p globFlag) (s.clearKey p t globFlag)
  | keygen {s p t level key} : s.task p = some t → s.activity p = .idle → Sys.Generated level key →
      key.strlen < keySize → Step s (.keygen p level key) (s.setKey p t key kGlobal)
  | encr {s p t} : s.task p = some t → s.activity p = .idle →
      Step s (.encr p) (startCipher s p t .encrypting)
  | decr {s p t} : s.task p = some t → s.activity p = .idle →
      Step s (.decr p) (startCipher s p t .decrypting)
  | read {s p t} : s.task p = some t → s.activity p = .idle →
      Step s (.read p) (s.setActivity p .reading)
  | write {s p t} : s.task p = some t → s.activity p = .idle →
      Step s (.write p) (s.setActivity p (.writing false))
  | block {s p t inTable} : s.task p = some t → s.activity p ≠ .idle →
      Step s (.block p inTable) (match s.activity p with
        | .writing _ => s.setActivity p (.writing (s.transforms p t inTable))
        | _ => s)
  | finish {s p t} : s.task p = some t → s.activity p ≠ .idle →
      Step s (.finish p) (s.setActivity p .idle)
  | schedule {s p t} : s.task p = some t → Step s (.schedule p) (s.checkTimeouts p t)
  | tick {s} : Step s .tick { s with jiffies := s.jiffies + 1 }
  | exit {s p t} : s.task p = some t → s.activity p = .idle → Step s (.exit p) s
  | release {s p t} : s.task p = some t → s.activity p = .idle →
      Step s (.release p) { s with task := Function.update s.task p none }

def keyless : Task := ⟨.empty, anyHKey, 0⟩

def booted (n : ℕ) : Sys n where
  task _ := some keyless
  activity _ := .idle
  encryptionKey := .empty
  hKey := anyHKey
  globalTimeout := 0
  keyToUse := .null
  hashToUse := .null
  jiffies := 0
  assigned := none

def keySystem (n : ℕ) : System (Sys n) (Event n) where
  init s := s = booted n
  step := Step

end Devos.Kernel
