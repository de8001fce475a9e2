import Devos.Kernel.Interleaving

/-! Which interleavings keep the file's bytes together while it is encrypted or decrypted. -/

namespace Devos.Kernel

open Security Fs Runs LinearProbing

def Walker.Passed : Walker → ℕ → Prop
  | .waiting, _ => False
  | .at i, j => j < i
  | .found i _, j => j < i
  | .done _, _ => True

def Job.Listed (q : Job) (t : Walker) : Prop :=
  match q.mode with
  | .encrypt => t ≠ .waiting
  | .decrypt => t = .waiting

def Job.Cipher (q : Job) (t : Walker) (j : ℕ) : Prop :=
  match q.mode with
  | .encrypt => t.Passed j
  | .decrypt => ¬ t.Passed j

def Walker.Clear (t : Walker) (j : ℕ) : Prop := t = .waiting ∨ t.Passed j

/-- The steps of the runs that come out right: the other processes work on a block only where the walk
is not under way or has passed it, a write that has met the file encrypted is not continued after the
number is gone from the table, a read of encrypted blocks starts on a block boundary, and the walk does
not stop before an allocated block. -/
def Orderly {ι : Type*} (q : Job) (w : World ι) : Act ι → Prop
  | .find => ∀ i, w.walker = .at i → ¬ Mapped w.volume w.inode i →
      ∀ j, i ≤ j → ¬ Allocated w.volume w.inode j
  | .copy p =>
    match w.procs p with
    | .read s => ¬ Allocated w.volume w.inode (s.fPos / blockSize)
    | .readFound s _ => w.walker.Clear (s.fPos / blockSize) ∧
        (s.fPos % blockSize = 0 ∨ ¬ q.Listed w.walker)
    | _ => True
  | .store p =>
    match w.procs p with
    | .writeFound s _ => w.walker.Clear s.block ∧ (s.isEncr = true → q.Listed w.walker)
    | _ => True
  | _ => True

def CopiesPlain {ι : Type*} (q : Job) (w : World ι) (p : ι) (w' : World ι) : Prop :=
  ∃ s src, (w.procs p = .read s ∨ ∃ nr, w.procs p = .readFound s nr) ∧
    w'.procs p = .read (s.take src) ∧
    ∀ k, k < readChunk s → ¬ Lost q.key.toCString (s.fPos % blockSize + k) →
      src k = (w.plain (s.fPos / blockSize)).byte (s.fPos % blockSize + k)

section Ciphers

variable {key : Key} {b c plain scratch : Block}

lemma cipher_iff_listed {q : Job} {t : Walker} {j : ℕ} (h : t.Clear j) : q.Cipher t j ↔ q.Listed t := by
  have hpassed : t.Passed j ↔ t ≠ .waiting := by
    rcases h with rfl | h
    · exact iff_of_false id (fun hne => hne rfl)
    · refine iff_of_true h ?_
      rintro rfl
      exact h
  rw [Job.Cipher, Job.Listed]
  cases q.mode with
  | encrypt => exact hpassed
  | decrypt => exact (not_congr hpassed).trans not_not

lemma shows_of_encrypt (hb : Agrees key.toCString b plain)
    (h : encryptBlock key.toCString scratch b b = .ok c) : Shows key.toCString c plain := by
  rw [encryptBlock_eq] at h
  cases h
  intro x hx hlast hne
  have hne' : cell key.strlen (encryptOrder key.toCString) x ≠ lastCell := hne
  rw [transpose_byte _ _ _ _ hx, if_neg hne']
  refine hb _ (encryptCell_lt key hx) ?_
  rintro (he | he)
  · exact hne he
  · exact hlast (cell_injective (strlen_pos key) (encryptOrder_below _) he)

lemma agrees_of_decrypt (hinv : Inverse key.toCString) (hb : Shows key.toCString b plain)
    (h : decryptBlock key.toCString scratch b b = .ok c) : Agrees key.toCString c plain := by
  rw [decryptBlock_eq] at h
  cases h
  intro y hy hlost
  have hne : ¬ cell key.strlen (decryptOrder key.toCString) y = lastCell := by
    intro he
    exact hlost (Or.inr ((decryptCell_eq_last hinv y).mp he))
  have hback : encryptCell key.toCString (cell key.strlen (decryptOrder key.toCString) y) = y :=
    encryptCell_decryptCell hinv y
  rw [transpose_byte _ _ _ _ hy, if_neg hne, hb _ (decryptCell_lt key hy) hne, hback]
  rw [hback]
  exact fun he => hlost (Or.inl he)

lemma shows_zero_iff (hinv : Inverse key.toCString) :
    Shows key.toCString Block.zero plain ↔ Agrees key.toCString Block.zero plain := by
  constructor
  · intro h y hy hlost
    have hne : ¬ cell key.strlen (decryptOrder key.toCString) y = lastCell := by
      intro he
      exact hlost (Or.inr ((decryptCell_eq_last hinv y).mp he))
    have hback : encryptCell key.toCString (cell key.strlen (decryptOrder key.toCString) y) = y :=
      encryptCell_decryptCell hinv y
    have hx := h _ (decryptCell_lt key hy) hne (by
      rw [hback]
      exact fun he => hlost (Or.inl he))
    rw [hback] at hx
    exact hx
  · intro h x hx hlast hne
    refine h _ (encryptCell_lt key hx) ?_
    rintro (he | he)
    · exact hne he
    · exact hlast (cell_injective (strlen_pos key) (encryptOrder_below _) he)

lemma agrees_overlay (hb : Agrees key.toCString b plain) (from_ chunk : ℕ) (buf : ℕ → Byte) :
    Agrees key.toCString (overlay b from_ chunk buf) (overlay plain from_ chunk buf) := by
  intro y hy hlost
  rw [overlay_byte _ _ _ _ hy, overlay_byte _ _ _ _ hy, hb y hy hlost]

end Ciphers

section Tables

variable {table : HashTable} {n : Word} {keys : KeyView}

lemma found_after_add (hn : n ≠ 0) {hKey : HKey} {w : Fin tableSize}
    (hw : scheme.Missing (view table) n w) :
    scheme.Found (view (Function.update table w ⟨n, hKey⟩)) n w := by
  rw [found_iff hn, Function.update_self]
  refine ⟨rfl, passes_iff.mpr fun a ha => ?_⟩
  have hne : a ≠ w := by
    rintro rfl
    exact absurd ha (lt_irrefl _)
  rw [Function.update_of_ne hne]
  exact passes_iff.mp hw.2 a ha

end Tables

section Buffers

variable {q : Job} {table : HashTable} {n : Word} {scratchD scratchE b b' plain : Block} {isEncr f : Bool}
  {c chunk : ℕ} {buf : ℕ → Byte}

lemma isEncrypted_listed (q : Job) (hn : n ≠ 0) (hin : ∃ z, scheme.Found (view table) n z) :
    isEncrypted q.keys table n = .ok true := by
  have hk : 0 < q.keys.effective.strlen := strlen_pos q.key
  rw [isEncrypted_found hn hin, decide_eq_true hk]

lemma buffer_listed (hinv : Inverse q.key.toCString) (hn : n ≠ 0)
    (hin : ∃ z, scheme.Found (view table) n z) (hb : Shows q.key.toCString b plain)
    (h : writeBuffer q.keys table n scratchD scratchE isEncr b c chunk buf = .ok (f, b')) :
    Shows q.key.toCString b' (overlay plain c chunk buf) := by
  rw [writeBuffer, isEncrypted_listed q hn hin] at h
  simp only [Except.bind, if_true, Bool.or_true] at h
  cases hd : decryptBlock q.keys.keyToUse scratchD b b with
  | error e =>
    rw [hd] at h
    cases h
  | ok d =>
    rw [hd] at h
    dsimp only at h
    cases he : encryptBlock q.keys.keyToUse scratchE (overlay d c chunk buf) (overlay d c chunk buf) with
    | error e =>
      rw [he] at h
      cases h
    | ok e =>
      rw [he] at h
      cases h
      exact shows_of_encrypt (agrees_overlay (agrees_of_decrypt hinv hb hd) c chunk buf) he

lemma buffer_absent (hn : n ≠ 0) (hno : ¬ Stored table n) (hb : Agrees q.key.toCString b plain)
    (h : writeBuffer q.keys table n scratchD scratchE false b c chunk buf = .ok (f, b')) :
    Agrees q.key.toCString b' (overlay plain c chunk buf) := by
  rw [writeBuffer] at h
  cases hi : isEncrypted q.keys table n with
  | error e =>
    rw [hi] at h
    cases h
  | ok found =>
    rw [hi, isEncrypted_absent hn hno hi] at h
    cases h
    exact agrees_overlay hb c chunk buf

end Buffers

section Blocks

variable {v v' : Volume} {inode inode' : MInode}

def StandsAt (v : Volume) (inode : MInode) (i : ℕ) (z : Word) : Prop :=
  i < maxBlocks ∧ z ≠ 0 ∧ zoneAt v inode i = z

def Walker.Placed (v : Volume) (inode : MInode) : Walker → Prop
  | .found i z => StandsAt v inode i z
  | _ => True

def Transfer.Placed (v : Volume) (inode : MInode) : Transfer → Prop
  | .readFound s z => StandsAt v inode (s.fPos / blockSize) z
  | .writeFound s z => StandsAt v inode s.block z
  | _ => True

lemma standsAt_of_bmap {i : ℕ} {z : Word} (h : bmap v inode i = .ok z) (h₀ : z ≠ 0) :
    StandsAt v inode i z := ⟨bmap_ok_lt h, h₀, (zone_of_bmap h h₀).symm⟩

lemma StandsAt.stored_eq {i : ℕ} {z : Word} (h : StandsAt v inode i z) : stored v inode i = v.data z := by
  obtain ⟨hi, h₀, rfl⟩ := h
  rw [Fs.stored_eq v inode hi, if_neg h₀]

lemma stored_of_not_allocated {i : ℕ} (h : ¬ Allocated v inode i) : stored v inode i = Block.zero := by
  have hnone : content v inode i = none := if_neg h
  rw [stored, hnone]
  rfl

lemma placed_of_stable
    (hr : ∀ i, zoneAt v inode i ≠ 0 → zoneAt v' inode' i = zoneAt v inode i) :
    (∀ t : Walker, t.Placed v inode → t.Placed v' inode') ∧
      ∀ t : Transfer, t.Placed v inode → t.Placed v' inode' := by
  have hstands : ∀ i z, StandsAt v inode i z → StandsAt v' inode' i z := by
    rintro i z ⟨hi, h₀, rfl⟩
    exact ⟨hi, h₀, hr i h₀⟩
  constructor
  · intro t ht
    cases t with
    | found i z => exact hstands _ _ ht
    | waiting => trivial
    | «at» i => trivial
    | done i => trivial
  · intro t ht
    cases t with
    | readFound s z => exact hstands _ _ ht
    | writeFound s z => exact hstands _ _ ht
    | idle => trivial
    | read s => trivial
    | write s => trivial

end Blocks

section Runs

variable {ι : Type*} {q : Job} {w w' : World ι} {a : Act ι}

structure Sound (q : Job) (w : World ι) : Prop where
  num_ne : w.inode.iNum ≠ 0
  consistent : Consistent w.volume w.inode
  listed : q.Listed w.walker → ∃ z, scheme.Found (view w.table) w.inode.iNum z
  absent : ¬ q.Listed w.walker → ¬ Stored w.table w.inode.iNum
  once : w.walker = .waiting → ∀ z z', (w.table z).iNum = w.inode.iNum →
    (w.table z').iNum = w.inode.iNum → z = z'
  cipher : ∀ j, q.Cipher w.walker j → Shows q.key.toCString (stored w.volume w.inode j) (w.plain j)
  clear : ∀ j, ¬ q.Cipher w.walker j → Agrees q.key.toCString (stored w.volume w.inode j) (w.plain j)
  walker : w.walker.Placed w.volume w.inode
  procs : ∀ p, (w.procs p).Placed w.volume w.inode

lemma Sound.keeps (hs : Sound q w) {v : Volume} {inode : MInode}
    (hk : Keeps w.volume w.inode v inode) : Sound q { w with volume := v, inode := inode } := by
  have hplaced := placed_of_stable (fun i => hk.stable (blockRef i))
  refine ⟨?_, hk.consistent, ?_, ?_, ?_, ?_, ?_, hplaced.1 _ hs.walker,
    fun p => hplaced.2 _ (hs.procs p)⟩
  · rw [hk.iNum]
    exact hs.num_ne
  · rw [hk.iNum]
    exact hs.listed
  · rw [hk.iNum]
    exact hs.absent
  · rw [hk.iNum]
    exact hs.once
  · intro j
    dsimp only
    rw [hk.same]
    exact hs.cipher j
  · intro j
    dsimp only
    rw [hk.same]
    exact hs.clear j

lemma Sound.put (hs : Sound q w) {i : ℕ} {z : Word} (hz : StandsAt w.volume w.inode i z) {b : Block}
    {t : Walker} {plain : ℕ → Block} (hwait : t = .waiting → w.walker = .waiting)
    (hlisted : q.Listed t ↔ q.Listed w.walker)
    (hother : ∀ j, j ≠ i → (q.Cipher t j ↔ q.Cipher w.walker j) ∧ plain j = w.plain j)
    (hshows : q.Cipher t i → Shows q.key.toCString b (plain i))
    (hagrees : ¬ q.Cipher t i → Agrees q.key.toCString b (plain i))
    (ht : t.Placed w.volume w.inode) :
    Sound q { w with volume := w.volume.put z b, walker := t, plain := plain } := by
  obtain ⟨hi, h₀, rfl⟩ := hz
  have hput := stored_put hs.consistent hi h₀ b
  have hstable : ∀ j, zoneAt w.volume w.inode j ≠ 0 →
      zoneAt (w.volume.put (zoneAt w.volume w.inode i) b) w.inode j = zoneAt w.volume w.inode j :=
    fun j _ => refAt_put hs.consistent (blockRef_isData i) b (blockRef j)
  have hplaced := placed_of_stable hstable
  refine ⟨hs.num_ne, consistent_put hs.consistent (blockRef_isData i) b, fun h => hs.listed (hlisted.mp h),
    fun h => hs.absent (fun h' => h (hlisted.mpr h')), fun h => hs.once (hwait h), ?_, ?_,
    hplaced.1 _ ht, fun p => hplaced.2 _ (hs.procs p)⟩
  · intro j hj
    dsimp only at hj ⊢
    rw [hput]
    by_cases hji : j = i
    · subst hji
      rw [if_pos rfl]
      exact hshows hj
    · rw [if_neg hji, (hother j hji).2]
      exact hs.cipher j ((hother j hji).1.mp hj)
  · intro j hj
    dsimp only at hj ⊢
    rw [hput]
    by_cases hji : j = i
    · subst hji
      rw [if_pos rfl]
      exact hagrees hj
    · rw [if_neg hji, (hother j hji).2]
      exact hs.clear j (fun h => hj ((hother j hji).1.mpr h))

lemma Sound.grow (hs : Sound q w) (pos : ℕ) : Sound q { w with inode := w.inode.grow pos } := by
  have hstable : ∀ i, zoneAt w.volume w.inode i ≠ 0 →
      zoneAt w.volume (w.inode.grow pos) i = zoneAt w.volume w.inode i :=
    fun i _ => refAt_grow w.volume w.inode pos (blockRef i)
  have hplaced := placed_of_stable hstable
  refine ⟨hs.num_ne, consistent_grow hs.consistent pos, hs.listed, hs.absent, hs.once, ?_, ?_,
    hplaced.1 _ hs.walker, fun p => hplaced.2 _ (hs.procs p)⟩
  · intro j
    dsimp only
    rw [stored_grow]
    exact hs.cipher j
  · intro j
    dsimp only
    rw [stored_grow]
    exact hs.clear j

lemma Sound.walk (hs : Sound q w) {t : Walker} (hwait : t ≠ .waiting)
    (hlisted : q.Listed t ↔ q.Listed w.walker)
    (hcipher : ∀ j, q.Cipher t j → Shows q.key.toCString (stored w.volume w.inode j) (w.plain j))
    (hclear : ∀ j, ¬ q.Cipher t j → Agrees q.key.toCString (stored w.volume w.inode j) (w.plain j))
    (ht : t.Placed w.volume w.inode) : Sound q { w with walker := t } :=
  ⟨hs.num_ne, hs.consistent, fun h => hs.listed (hlisted.mp h), fun h => hs.absent (fun h' => h (hlisted.mpr h')),
    fun h => absurd h hwait, hcipher, hclear, ht, hs.procs⟩

lemma listed_iff {t t' : Walker} (h : t ≠ .waiting) (h' : t' ≠ .waiting) : q.Listed t ↔ q.Listed t' := by
  rw [Job.Listed, Job.Listed]
  cases q.mode with
  | encrypt => exact iff_of_true h h'
  | decrypt => exact iff_of_false h h'

lemma cipher_congr {t t' : Walker} {j : ℕ} (h : t.Passed j ↔ t'.Passed j) :
    q.Cipher t j ↔ q.Cipher t' j := by
  rw [Job.Cipher, Job.Cipher]
  cases q.mode with
  | encrypt => exact h
  | decrypt => exact not_congr h

lemma sound_start (hs : Sound q w) (hw : w.walker = .waiting) {table : HashTable}
    (h : q.enter w.table w.inode.iNum table) : Sound q { w with table := table, walker := .at 0 } := by
  have hpassed : ∀ j, q.Cipher (.at 0) j ↔ q.Cipher w.walker j := by
    intro j
    rw [hw]
    exact cipher_congr (iff_of_false (Nat.not_lt_zero j) id)
  refine ⟨hs.num_ne, hs.consistent, ?_, ?_, fun h => (by cases h),
    fun j hj => hs.cipher j ((hpassed j).mp hj), fun j hj => hs.clear j (fun h' => hj ((hpassed j).mpr h')),
    trivial, hs.procs⟩
  · intro hl
    rw [Job.enter] at h
    rw [Job.Listed] at hl
    cases hm : q.mode with
    | encrypt =>
      rw [hm] at h
      obtain ⟨status, hadd, hne⟩ := h
      rcases addFunc_cases hs.num_ne hadd with ⟨x, hx, _, rfl⟩ | ⟨_, _, hst, _⟩
      · exact ⟨x, found_after_add hs.num_ne hx⟩
      · exact absurd hst hne
    | decrypt =>
      rw [hm] at hl
      cases hl
  · intro hl
    rw [Job.enter] at h
    rw [Job.Listed] at hl
    cases hm : q.mode with
    | encrypt =>
      rw [hm] at hl
      exact absurd (fun h => by cases h) hl
    | decrypt =>
      rw [hm] at h
      have hlisted : q.Listed w.walker := by
        rw [Job.Listed, hm]
        exact hw
      obtain ⟨z, hz⟩ := hs.listed hlisted
      have hnum := ((found_iff hs.num_ne).mp hz).1
      exact absent_after_remove hs.num_ne (fun z' hz' => hs.once hw z' z hz' hnum) h

lemma sound_stop (hinv : Inverse q.key.toCString) (hs : Sound q w) {i : ℕ} (hw : w.walker = .at i)
    (hrest : ∀ j, i ≤ j → ¬ Allocated w.volume w.inode j) : Sound q { w with walker := .done i } := by
  have hswap : ∀ j, i ≤ j → (Shows q.key.toCString (stored w.volume w.inode j) (w.plain j) ↔
      Agrees q.key.toCString (stored w.volume w.inode j) (w.plain j)) := by
    intro j hj
    rw [stored_of_not_allocated (hrest j hj)]
    exact shows_zero_iff hinv
  have hearly : ∀ j, j < i → (q.Cipher (.done i) j ↔ q.Cipher w.walker j) := by
    intro j hj
    rw [hw]
    exact cipher_congr (iff_of_true trivial hj)
  refine hs.walk (fun h => by cases h) (listed_iff (fun h => by cases h) (fun h => ?_)) ?_ ?_ trivial
  · rw [hw] at h
    cases h
  · intro j hj
    by_cases hji : j < i
    · exact hs.cipher j ((hearly j hji).mp hj)
    · by_cases hc : q.Cipher w.walker j
      · exact hs.cipher j hc
      · exact (hswap j (not_lt.mp hji)).mpr (hs.clear j hc)
  · intro j hj
    by_cases hji : j < i
    · exact hs.clear j (fun h => hj ((hearly j hji).mpr h))
    · by_cases hc : q.Cipher w.walker j
      · exact (hswap j (not_lt.mp hji)).mp (hs.cipher j hc)
      · exact hs.clear j hc

lemma sound_transform (hinv : Inverse q.key.toCString) (hs : Sound q w) {i : ℕ} {z : Word}
    (hw : w.walker = .found i z) {scratch b : Block}
    (h : q.transform scratch (w.volume.data z) = .ok b) :
    Sound q { w with walker := .at (i + 1), volume := w.volume.put z b } := by
  have hz : StandsAt w.volume w.inode i z := by
    have hp := hs.walker
    rw [hw] at hp
    exact hp
  have hother : ∀ j, j ≠ i → (q.Cipher (.at (i + 1)) j ↔ q.Cipher w.walker j) ∧ w.plain j = w.plain j := by
    intro j hj
    rw [hw]
    refine ⟨cipher_congr ?_, rfl⟩
    change j < i + 1 ↔ j < i
    omega
  have hhere : (q.Cipher (.at (i + 1)) i ↔ ¬ q.Cipher w.walker i) ∧
      (q.Cipher (.at (i + 1)) i → Shows q.key.toCString b (w.plain i)) ∧
      (¬ q.Cipher (.at (i + 1)) i → Agrees q.key.toCString b (w.plain i)) := by
    have hold := hz.stored_eq
    have hc := hs.cipher i
    have hcl := hs.clear i
    rw [hold, hw] at hc hcl
    rw [hw]
    rw [Job.transform] at h
    simp only [Job.Cipher] at hc hcl ⊢
    have hnew : Walker.Passed (.at (i + 1)) i := Nat.lt_succ_self i
    have hnot : ¬ Walker.Passed (.found i z) i := lt_irrefl i
    cases hm : q.mode with
    | encrypt =>
      rw [hm] at h
      simp only [hm] at hc hcl ⊢
      refine ⟨iff_of_true hnew hnot, fun _ => shows_of_encrypt (hcl hnot) h, fun hn => absurd hnew hn⟩
    | decrypt =>
      rw [hm] at h
      simp only [hm] at hc hcl ⊢
      refine ⟨iff_of_false (not_not.mpr hnew) (not_not.mpr hnot), fun hn => absurd hnew hn,
        fun _ => agrees_of_decrypt hinv (hc hnot) h⟩
  refine hs.put hz (fun h => by cases h) (listed_iff (fun h => by cases h) (fun h => ?_)) hother hhere.2.1
    hhere.2.2 trivial
  rw [hw] at h
  cases h

variable [DecidableEq ι]

lemma Sound.set (hs : Sound q w) (p : ι) {t : Transfer} (ht : t.Placed w.volume w.inode) :
    Sound q (w.set p t) := by
  refine ⟨hs.num_ne, hs.consistent, hs.listed, hs.absent, hs.once, hs.cipher, hs.clear,
    hs.walker, ?_⟩
  intro p'
  change (Function.update w.procs p t p').Placed w.volume w.inode
  by_cases hp : p' = p
  · rw [hp, Function.update_self]
    exact ht
  · rw [Function.update_of_ne hp]
    exact hs.procs p'

lemma sound_store (hinv : Inverse q.key.toCString) (hs : Sound q w) {p : ι} {s : Pending} {z : Word}
    (hp : w.procs p = .writeFound s z) (hclear : w.walker.Clear s.block)
    (hflag : s.isEncr = true → q.Listed w.walker) {scratchD scratchE : Block} {f : Bool} {b : Block}
    (h : writeBuffer q.keys w.table w.inode.iNum scratchD scratchE s.isEncr (w.volume.data z)
      (s.pos % blockSize) s.chunk (fun k => s.buf (s.i + k)) = .ok (f, b)) :
    Sound q { w.set p (.write (s.advance f)) with
      volume := w.volume.put z b
      inode := w.inode.grow (s.pos + s.chunk)
      plain := Function.update w.plain s.block
        (overlay (w.plain s.block) (s.pos % blockSize) s.chunk (fun k => s.buf (s.i + k))) } := by
  have hz : StandsAt w.volume w.inode s.block z := by
    have hpl := hs.procs p
    rw [hp] at hpl
    exact hpl
  have hiff : q.Cipher w.walker s.block ↔ q.Listed w.walker := cipher_iff_listed hclear
  have hold := hz.stored_eq
  have hput : Sound q { w with
      volume := w.volume.put z b
      plain := Function.update w.plain s.block
        (overlay (w.plain s.block) (s.pos % blockSize) s.chunk (fun k => s.buf (s.i + k))) } := by
    refine hs.put hz id Iff.rfl (fun j hj => ⟨Iff.rfl, Function.update_of_ne hj _ _⟩) ?_ ?_ hs.walker
    · intro hc
      rw [Function.update_self]
      have hshows := hs.cipher s.block hc
      rw [hold] at hshows
      exact buffer_listed hinv hs.num_ne (hs.listed (hiff.mp hc)) hshows h
    · intro hc
      rw [Function.update_self]
      have hno : ¬ q.Listed w.walker := fun hl => hc (hiff.mpr hl)
      have hflag' : s.isEncr = false := by
        cases hf : s.isEncr with
        | true => exact absurd (hflag hf) hno
        | false => rfl
      have hagrees := hs.clear s.block hc
      rw [hold] at hagrees
      rw [hflag'] at h
      exact buffer_absent hs.num_ne (hs.absent hno) hagrees h
  have hwrite : (Transfer.write (s.advance f)).Placed w.volume w.inode := trivial
  exact (hput.grow (s.pos + s.chunk)).set p hwrite

lemma sound_step (hinv : Inverse q.key.toCString) (hs : Sound q w) (hok : Orderly q w a)
    (h : Interleaved q w a w') : Sound q w' := by
  cases h with
  | start hw he => exact sound_start hs hw he
  | @find i block hw hb h₀ hr =>
    have hpassed : ∀ j, q.Cipher (.found i block) j ↔ q.Cipher w.walker j := by
      intro j
      rw [hw]
      exact cipher_congr Iff.rfl
    refine hs.walk (fun h => by cases h) (listed_iff (fun h => by cases h) (fun h => ?_))
      (fun j hj => hs.cipher j ((hpassed j).mp hj))
      (fun j hj => hs.clear j (fun h' => hj ((hpassed j).mpr h'))) (standsAt_of_bmap hb h₀)
    rw [hw] at h
    cases h
  | @stop i block hw hb hstop =>
    refine sound_stop hinv hs hw (hok i hw fun hm => ?_)
    obtain ⟨h₀, hr⟩ := (mapped_of_bmap hb).mpr hm
    rcases hstop with h | h
    · exact h₀ h
    · rw [h] at hr
      cases hr
  | transform hw ht => exact sound_transform hinv hs hw ht
  | callRead _ => exact hs.set _ trivial
  | callWrite _ => exact hs.set _ trivial
  | readHole _ _ _ => exact hs.set _ trivial
  | readFind _ _ hb h₀ _ => exact hs.set _ (standsAt_of_bmap hb h₀)
  | readBad _ _ _ _ _ => exact hs.set _ trivial
  | readCopy _ _ => exact hs.set _ trivial
  | readDone _ _ => exact hs.set _ trivial
  | @writeFind p s block v inode _ _ hcb h₀ _ =>
    obtain ⟨hk, hblock⟩ := createBlock_spec hs.consistent hcb
    obtain ⟨hmax, hz⟩ := hblock h₀
    exact (hs.keeps hk).set p (t := .writeFound s block) ⟨hmax, h₀, hz.symm⟩
  | @writeFull p s block v inode _ _ hcb _ =>
    obtain ⟨hk, _⟩ := createBlock_spec hs.consistent hcb
    exact (hs.keeps hk).set p (t := .idle) trivial
  | writeStore hp hw =>
    rw [Orderly, hp] at hok
    exact sound_store hinv hs hp hok.1 hok.2 hw
  | writeDone _ _ => exact hs.set _ trivial

lemma copies_plain (hinv : Inverse q.key.toCString) (hs : Sound q w) {p : ι} (hok : Orderly q w (.copy p))
    (h : Interleaved q w (.copy p) w') : CopiesPlain q w p w' := by
  cases h with
  | @readHole _ s hp _ hb =>
    refine ⟨s, _, Or.inl hp, w.procs_set p _, ?_⟩
    intro k hk hlost
    have hk' : k < min (1024 - s.fPos % 1024) s.left := hk
    have hlt : s.fPos % blockSize + k < blockSize := by
      change s.fPos % 1024 + k < 1024
      omega
    rw [Orderly, hp] at hok
    have hzero := stored_of_not_allocated hok
    have hagrees : Agrees q.key.toCString Block.zero (w.plain (s.fPos / blockSize)) := by
      by_cases hc : q.Cipher w.walker (s.fPos / blockSize)
      · have hshows := hs.cipher _ hc
        rw [hzero] at hshows
        exact (shows_zero_iff hinv).mp hshows
      · have hclear := hs.clear _ hc
        rwa [hzero] at hclear
    rw [← hagrees _ hlt hlost]
    rfl
  | @readCopy _ s nr scratch src hp hsrc =>
    refine ⟨s, src, Or.inr ⟨nr, hp⟩, w.procs_set p _, ?_⟩
    intro k hk hlost
    have hk' : k < min (1024 - s.fPos % 1024) s.left := hk
    have hlt : s.fPos % blockSize + k < blockSize := by
      change s.fPos % 1024 + k < 1024
      omega
    have hz : StandsAt w.volume w.inode (s.fPos / blockSize) nr := by
      have hpl := hs.procs p
      rw [hp] at hpl
      exact hpl
    rw [Orderly, hp] at hok
    obtain ⟨hclear, hstart⟩ := hok
    have hiff := cipher_iff_listed (q := q) hclear
    have hold := hz.stored_eq
    by_cases hl : q.Listed w.walker
    · have hstart' : s.fPos % blockSize = 0 := hstart.resolve_right (not_not.mpr hl)
      have hshows := hs.cipher _ (hiff.mpr hl)
      rw [hold] at hshows
      rw [readSource, isEncrypted_listed q hs.num_ne (hs.listed hl)] at hsrc
      simp only [Except.bind, if_true] at hsrc
      cases hd : decryptBlock q.keys.keyToUse scratch (w.volume.data nr) scratch with
      | error e =>
        rw [hd] at hsrc
        cases hsrc
      | ok d =>
        rw [hd] at hsrc
        cases hsrc
        have hd' : decryptBlock q.key.toCString scratch (w.volume.data nr) (w.volume.data nr) = .ok d := by
          rw [decryptBlock_eq, ← hd]
          exact (decryptBlock_eq q.key _ _ _).symm
        rw [hstart', Nat.zero_add] at hlt hlost ⊢
        exact agrees_of_decrypt hinv hshows hd' k hlt hlost
    · have hagrees := hs.clear _ (fun hc => hl (hiff.mp hc))
      rw [hold] at hagrees
      rw [readSource] at hsrc
      cases hi : isEncrypted q.keys w.table w.inode.iNum with
      | error e =>
        rw [hi] at hsrc
        cases hsrc
      | ok found =>
        rw [hi, isEncrypted_absent hs.num_ne (hs.absent hl) hi] at hsrc
        cases hsrc
        exact hagrees _ hlt hlost

lemma sound_init (hw : (raceSystem ι q).init w) : Sound q w := by
  obtain ⟨hn, hc, hwait, hidle, hbefore⟩ := hw
  have hplaced : ∀ p, (w.procs p).Placed w.volume w.inode := by
    intro p
    rw [hidle p]
    trivial
  have hwalker : w.walker.Placed w.volume w.inode := by
    rw [hwait]
    trivial
  rw [Job.Before] at hbefore
  cases hm : q.mode with
  | encrypt =>
    rw [hm] at hbefore
    have hno : ¬ q.Listed w.walker := by
      rw [Job.Listed, hm]
      exact not_not.mpr hwait
    have hplain : ∀ j, ¬ q.Cipher w.walker j := by
      intro j
      rw [Job.Cipher, hm, hwait]
      exact id
    refine ⟨hn, hc, fun h => absurd h hno, fun _ => hbefore.1, ?_, fun j h => absurd h (hplain j), ?_,
      hwalker, hplaced⟩
    · exact fun _ z _ hz _ => absurd ⟨z, hz⟩ hbefore.1
    · intro j _ y _ _
      rw [hbefore.2 j]
  | decrypt =>
    rw [hm] at hbefore
    obtain ⟨⟨z, hz, honce⟩, hshows⟩ := hbefore
    have hlisted : q.Listed w.walker := by
      rw [Job.Listed, hm]
      exact hwait
    have hcipher : ∀ j, q.Cipher w.walker j := by
      intro j
      rw [Job.Cipher, hm, hwait]
      exact id
    refine ⟨hn, hc, fun _ => ⟨z, hz⟩, fun h => absurd hlisted h, ?_, fun j _ => hshows j,
      fun j h => absurd (hcipher j) h, hwalker, hplaced⟩
    exact fun _ x y hx hy => (honce x hx).trans (honce y hy).symm

lemma sound_of_reach (hinv : Inverse q.key.toCString) (h : (raceSystem ι q).Reach (Orderly q) w) :
    Sound q w :=
  System.Reach.invariant (I := fun w => Sound q w) (fun _ hw => sound_init hw)
    (fun _ _ _ hs hok hstep => sound_step hinv hs hok hstep) h

/-- In orderly runs every read copies the file's plain bytes, and when the walk is over every block is
the encryption, or the decryption, of the bytes that the writes have left. -/
theorem walk_atomic (q : Job) (hd : q.key.chars.Nodup) (ι : Type*) [DecidableEq ι] :
    (∀ w, (raceSystem ι q).Reach (Orderly q) w → ∀ p w', Orderly q w (.copy p) →
      Interleaved q w (.copy p) w' → CopiesPlain q w p w') ∧
    ∀ w, (raceSystem ι q).Reach (Orderly q) w → ∀ i, w.walker = .done i → ∀ j,
      match q.mode with
      | .encrypt => Shows q.key.toCString (stored w.volume w.inode j) (w.plain j)
      | .decrypt => Agrees q.key.toCString (stored w.volume w.inode j) (w.plain j) := by
  have hinv := inverse_of_nodup hd
  refine ⟨fun w hw p w' hok h => copies_plain hinv (sound_of_reach hinv hw) hok h, ?_⟩
  intro w hw i hi j
  have hs := sound_of_reach hinv hw
  have hpassed : w.walker.Passed j := by
    rw [hi]
    trivial
  cases hm : q.mode with
  | encrypt => exact hs.cipher j (by rwa [Job.Cipher, hm])
  | decrypt =>
    refine hs.clear j ?_
    rw [Job.Cipher, hm]
    exact not_not.mpr hpassed

end Runs

def sampleJob : Job := ⟨.encrypt, swapKey, anyHKey⟩

def sampleWorld : World Unit where
  table := emptyTable
  volume := sampleVolume
  inode := sampleFile
  walker := .waiting
  procs _ := .idle
  plain := stored sampleVolume sampleFile

def sampleReading : Reading := ⟨0, 1024, []⟩

lemma sampleWorld_init : (raceSystem Unit sampleJob).init sampleWorld := by
  refine ⟨by decide, sampleFile_consistent, rfl, fun _ => rfl, ?_, fun _ => rfl⟩
  rintro ⟨z, hz⟩
  have hzero : (0 : Word) = 7 := hz
  exact absurd hzero (by decide)

lemma sampleJob_enter : sampleJob.enter emptyTable 7 sampleTable := ⟨probe 7 0, rfl, by decide⟩

def enteredWorld : World Unit := { sampleWorld with table := sampleTable, walker := .at 0 }

lemma copy_step {w : World Unit} (htable : w.table = sampleTable) (hn : w.inode.iNum = 7)
    (hp : w.procs () = .readFound sampleReading 5) :
    ∃ src w', Interleaved sampleJob w (.copy ()) w' ∧ w'.procs () = .read (sampleReading.take src) ∧
      src 0 = (w.volume.data 5).byte 1 := by
  have hsrc : readSource sampleJob.keys w.table w.inode.iNum Block.zero (w.volume.data 5)
      (sampleReading.fPos % blockSize) = .ok (fun k => (transpose swapKey.strlen
        (decryptOrder swapKey.toCString) Block.zero (w.volume.data 5)).byte k) := by
    rw [readSource, htable, hn, isEncrypted_listed sampleJob (by decide) sampleTable_found]
    simp only [Except.bind, if_true, sampleJob, Job.keys, decryptBlock_eq, Except.map]
  refine ⟨_, _, .readCopy hp hsrc, w.procs_set () _, ?_⟩
  have hcell : cell swapKey.strlen (decryptOrder swapKey.toCString) 0 = 1 := by decide
  rw [transpose_byte _ _ _ _ (by decide), hcell, if_neg (by decide)]

lemma take_injective {s : Reading} {src src' : ℕ → Byte} (h : s.take src = s.take src') {k : ℕ}
    (hk : k < readChunk s) : src k = src' k :=
  List.map_inj_left.mp (List.append_cancel_left (congrArg Reading.out h)) k (List.mem_range.mpr hk)

lemma lookUp_step {w : World Unit} (hp : w.procs () = .read sampleReading)
    (hb : bmap w.volume w.inode 0 = .ok 5) (hr : w.volume.readable 5 = true) :
    Interleaved sampleJob w (.lookUp ()) (w.set () (.readFound sampleReading 5)) :=
  .readFind hp (by decide) hb (by decide) hr

theorem walk_atomic_sample : ∃ (w : World Unit) (w' : World Unit), w.walker = .at 1 ∧
    Interleaved sampleJob w (.copy ()) w' ∧ CopiesPlain sampleJob w () w' := by
  let w₁ : World Unit := { enteredWorld with walker := .found 0 5 }
  let w₂ : World Unit := { w₁ with
    walker := .at 1
    volume := sampleVolume.put 5
      (transpose swapKey.strlen (encryptOrder swapKey.toCString) Block.zero (sampleVolume.data 5)) }
  let w : World Unit := (w₂.set () (.read sampleReading)).set () (.readFound sampleReading 5)
  have hok₁ : Orderly sampleJob sampleWorld .start := trivial
  have hok₂ : Orderly sampleJob enteredWorld .find := by
    intro i hi hm
    cases hi
    exact absurd (by decide : Mapped sampleVolume sampleFile 0) hm
  have hok₃ : Orderly sampleJob w₁ .transform := trivial
  have hok₄ : Orderly sampleJob w₂ (.call ()) := trivial
  have hok₅ : Orderly sampleJob (w₂.set () (.read sampleReading)) (.lookUp ()) := trivial
  have htransform : sampleJob.transform Block.zero (w₁.volume.data 5) = .ok (transpose swapKey.strlen
      (encryptOrder swapKey.toCString) Block.zero (sampleVolume.data 5)) := encryptBlock_eq swapKey _ _ _
  have hreach : (raceSystem Unit sampleJob).Reach (Orderly sampleJob) w :=
    ((((System.Reach.start sampleWorld_init).next hok₁ (.start rfl sampleJob_enter)).next hok₂
      (.find rfl rfl (by decide) rfl)).next hok₃ (.transform rfl htransform)).next hok₄ (.callRead rfl)
      |>.next hok₅ (lookUp_step (World.procs_set _ _ _) rfl rfl)
  have hp : w.procs () = .readFound sampleReading 5 := World.procs_set _ _ _
  have hok : Orderly sampleJob w (.copy ()) := by
    rw [Orderly, hp]
    exact ⟨Or.inr Nat.one_pos, Or.inl rfl⟩
  obtain ⟨src, w', hstep, _⟩ := copy_step (w := w) rfl rfl hp
  exact ⟨w, w', rfl, hstep, (walk_atomic sampleJob (by decide) Unit).1 w hreach () w' hok hstep⟩

theorem walk_races :
    ¬ ∀ (q : Job) (w w' : World Unit) (p : Unit), q.key.chars.Nodup →
      (raceSystem Unit q).Reach (fun _ _ => True) w →
      (∀ s nr, w.procs p = .readFound s nr → s.fPos % blockSize = 0) →
      Interleaved q w (.copy p) w' → CopiesPlain q w p w' := by
  intro h
  have hstart : (raceSystem Unit sampleJob).Reach (fun _ _ => True) enteredWorld :=
    .next (.start sampleWorld_init) trivial (.start rfl sampleJob_enter)
  let w : World Unit := (enteredWorld.set () (.read sampleReading)).set () (.readFound sampleReading 5)
  have hreach : (raceSystem Unit sampleJob).Reach (fun _ _ => True) w :=
    .next (.next hstart trivial (.callRead rfl)) trivial (lookUp_step (World.procs_set _ _ _) rfl rfl)
  have hp : w.procs () = .readFound sampleReading 5 := World.procs_set _ _ _
  obtain ⟨src, w', hstep, hread, hbyte⟩ := copy_step (w := w) rfl rfl hp
  have haligned : ∀ s nr, w.procs () = .readFound s nr → s.fPos % blockSize = 0 := by
    intro s nr hs
    rw [hp] at hs
    cases hs
    rfl
  obtain ⟨s, src', hs, hread', hplain⟩ := h sampleJob w w' () (by decide) hreach haligned hstep
  have hs' : s = sampleReading := by
    rcases hs with hs | ⟨nr, hs⟩
    all_goals
      rw [hp] at hs
      cases hs
    rfl
  subst hs'
  rw [hread] at hread'
  have hchunk : 0 < readChunk sampleReading := by
    rw [show readChunk sampleReading = 1024 from rfl]
    decide
  have hsame : src 0 = src' 0 := take_injective (Transfer.read.inj hread') hchunk
  have hlost : ¬ Lost swapKey.toCString (sampleReading.fPos % blockSize + 0) := by
    unfold Lost
    decide
  have hzero := hplain 0 hchunk hlost
  rw [← hsame, hbyte] at hzero
  exact absurd hzero (by decide)

end Devos.Kernel
