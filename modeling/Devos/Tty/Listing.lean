import Devos.Kernel.Lookup
import Devos.Tty.ListRows

/-! Listing a directory in the file explorer: the entries are read from the disk, and each of them is looked up once more
by its path. -/

namespace Devos.Tty

open Loops

/-- An entry as it is on the disk. -/
def entryAt (m : ℕ → Byte) (i : ℕ) : Fs.Entry :=
  ⟨m (16 * i + 1) ++ m (16 * i), CString.charsFrom m (16 * i + 2) Fs.nameLen⟩

/-- What `find_entry` and `add_entry` keep of the entries that are in use. -/
structure Tidy (es : List Fs.Entry) : Prop where
  distinct : ((es.filter fun e => e.inode ≠ 0).map Fs.Entry.name).Nodup
  named : ∀ e ∈ es, e.inode ≠ 0 → e.name ≠ [] ∧ (47 : Byte) ∉ e.name

/-- The files, and the directories among them with `size` entries each. `mayExec` is what `permission` says to the
current process. -/
structure FileTree where
  mode : Word → Word
  mayExec : Word → Bool
  size : Word → ℕ
  byte : Word → ℕ → Byte
  tidy : ∀ dir, Fs.sIsDir (mode dir) = true → Tidy ((List.range (size dir)).map (entryAt (byte dir)))

namespace FileTree

open Panel

variable (t : FileTree)

def entries (dir : Word) : List Fs.Entry := (List.range (t.size dir)).map (entryAt (t.byte dir))

def names : Kernel.Names where
  isDir n := Fs.sIsDir (t.mode n)
  mayExec := t.mayExec
  entries := t.entries
  scanned dir := (t.entries dir).drop 2

/-- A lookup whose result is used. -/
def found (path : CString) : Except Fault Word :=
  match t.names.namei path.chars with
  | none => .error .badPointer
  | some n => .ok n

/-- The same tree to one who takes what a lookup returns for a file. -/
def disk : Disk where
  block path := t.byte ((t.names.namei path.chars).getD 0)
  mode path := t.mode ((t.names.namei path.chars).getD 0)

/-- A turn of the loop, with its lookup. -/
def listEntry (m : ℕ → Byte) (k : ℕ) (p : Panel) : Except Fault Panel :=
  ((CString.read m (entryName k) 22).bind fun name => (joinPath p.currentDirPath name).bind t.found).bind fun _ =>
    Panel.listEntry t.disk m k p

def getChildrenFromFs (p : Panel) : Except Fault Panel :=
  (if p.initFlag then t.found p.currentDirPath else .ok Kernel.rootInode).bind fun dir =>
    let p := { p with
      initFlag := true
      currentDirLen := 0
      lsFiles := fun x => if x % 16 = 0 then 0 else p.lsFiles x }
    forLoopE (t.listEntry (t.byte dir)) p 10

/-- The entries in use behind `.` and `..`. -/
def live (dir : Word) : List Fs.Entry := ((t.entries dir).drop 2).filter fun e => e.inode ≠ 0

/-- The name that belongs into row `k`, none for a row without an entry. -/
def nameOf (dir : Word) (k : ℕ) : List Byte := ((t.live dir)[k]?.map Fs.Entry.name).getD []

/-- The rows have the first ten entries in use. -/
structure Faithful (dir : Word) (q : Panel) : Prop where
  name : ∀ k < 10, ∀ e, (t.live dir)[k]? = some e → ∀ j < e.name.length,
    q.lsFiles (16 * k + j) = entryColor (t.mode e.inode) ||| (e.name.getD j 0).setWidth 16
  stop : ∀ k < 10, (t.nameOf dir k).length < 16 ∧ q.lsFiles (16 * k + (t.nameOf dir k).length) = 0
  isDir : ∀ k < 10, ∀ e, (t.live dir)[k]? = some e → q.isDir k = Fs.sIsDir (t.mode e.inode)
  len : q.currentDirLen = min 10 (t.live dir).length

/-- A listing of the current directory that comes back with all rows as they should be. -/
structure ListsWell (p : Panel) (dir : Word) (q : Panel) : Prop where
  found : t.names.namei p.currentDirPath.chars = some dir
  isDir : Fs.sIsDir (t.mode dir) = true
  run : t.getChildrenFromFs p = .ok q
  faithful : t.Faithful dir q

/-- The path ends in a name, or is the root's; the directory may be searched; the ten entries behind `.` and `..`, in use
or not, have the names that belong into the rows; a name of full length has a zero byte behind it, in the next inode
number; and all fit behind the path and are of plain characters. -/
structure Orderly (path : CString) (dir : Word) : Prop where
  found : t.names.namei path.chars = some dir
  searchable : t.names.Searchable dir
  ends : path = slash ∨ Kernel.Context.basename path.chars ≠ []
  slots : ∀ k < 10, (entryAt (t.byte dir) (k + 2)).name = t.nameOf dir k
  closed : ∀ k < 10, (t.nameOf dir k).length = Fs.nameLen → t.byte dir (16 * (k + 3)) = 0
  joins : ∀ k < 10, Joins path (t.nameOf dir k).length
  ascii : ∀ k < 10, ∀ c ∈ t.nameOf dir k, c.msb = false

section Names

variable {t} {dir : Word} {k : ℕ} {e : Fs.Entry} {path : CString} {p q : Panel} {m : ℕ → Byte}

lemma mem_of_live (h : (t.live dir)[k]? = some e) : e ∈ t.entries dir ∧ e.inode ≠ 0 := by
  have hmem := List.mem_of_getElem? h
  obtain ⟨hdrop, hlive⟩ := List.mem_filter.mp hmem
  exact ⟨List.mem_of_mem_drop hdrop, by simpa using hlive⟩

lemma length_name (h : e ∈ t.entries dir) : e.name.length ≤ 14 := by
  obtain ⟨i, _, rfl⟩ := List.mem_map.mp h
  exact CString.length_charsFrom_le _ _ _

lemma name_nulFree (h : e ∈ t.entries dir) : (0 : Byte) ∉ e.name := by
  obtain ⟨i, _, rfl⟩ := List.mem_map.mp h
  exact CString.charsFrom_nulFree _ _ _

/-- The first entry of this name is the only one. -/
lemma findEntry_live (hdir : Fs.sIsDir (t.mode dir) = true) (he : e ∈ t.entries dir) (hlive : e.inode ≠ 0) :
    t.names.findEntry dir e.name = some e.inode := by
  have htidy := t.tidy dir hdir
  have hname := htidy.named e he hlive
  have htake : e.name.take Fs.nameLen = e.name := List.take_of_length_le (length_name he)
  have hfirst : ((t.entries dir).find? fun e' => decide (e'.inode ≠ 0 ∧ e'.name = e.name)) = some e := by
    cases hfind : (t.entries dir).find? fun e' => decide (e'.inode ≠ 0 ∧ e'.name = e.name) with
    | none =>
      have hno := List.find?_eq_none.mp hfind e he
      rw [decide_eq_true_eq] at hno
      exact absurd ⟨hlive, rfl⟩ hno
    | some e' =>
      have hmem := List.mem_of_find?_eq_some hfind
      have hsome := List.find?_some hfind
      rw [decide_eq_true_eq] at hsome
      have hinj := List.inj_on_of_nodup_map htidy.distinct
      refine congrArg some (hinj ?_ ?_ hsome.2)
      · exact List.mem_filter.mpr ⟨hmem, by simpa using hsome.1⟩
      · exact List.mem_filter.mpr ⟨he, by simpa using hlive⟩
  rw [Kernel.Names.findEntry, if_neg hname.1, htake]
  change Option.map _ ((t.entries dir).find? _) = _
  rw [hfirst]
  rfl

end Names

section Running

variable {t} {dir f : Word} {k n : ℕ} {path : CString} {p q : Panel} {m : ℕ → Byte}

lemma found_eq_ok : t.found path = .ok f ↔ t.names.namei path.chars = some f := by
  unfold found
  cases t.names.namei path.chars with
  | none => exact iff_of_false (fun h => by cases h) fun h => by cases h
  | some n => exact ⟨fun h => congrArg some (Except.ok.inj h), fun h => congrArg Except.ok (Option.some.inj h)⟩

lemma listEntry_eq_ok : t.listEntry m k p = .ok q ↔
    (∃ f, t.names.namei (joined p.currentDirPath (slotName m k)).chars = some f) ∧
      Panel.listEntry t.disk m k p = .ok q := by
  unfold listEntry
  rw [CString.read_eq (Nat.le_refl 22)]
  change (((if (slotName m k).strlen < 22 then Except.ok (slotName m k) else _).bind _).bind _ = _) ↔ _
  constructor
  · intro h
    obtain ⟨f, hf, hentry⟩ := bind_eq_ok h
    obtain ⟨name, hname, hf⟩ := bind_eq_ok hf
    split_ifs at hname
    obtain rfl := Except.ok.inj hname
    obtain ⟨temp, htemp, hf⟩ := bind_eq_ok hf
    rw [joinPath_eq] at htemp
    split_ifs at htemp
    obtain rfl := Except.ok.inj htemp
    exact ⟨⟨f, found_eq_ok.mp hf⟩, hentry⟩
  · rintro ⟨⟨f, hf⟩, hentry⟩
    have hjoins := (listEntry_withEntry hentry).1.1
    rw [if_pos (Joins.lt hjoins)]
    change ((joinPath p.currentDirPath (slotName m k)).bind t.found).bind _ = _
    rw [joinPath_eq, if_pos hjoins]
    change (t.found (joined p.currentDirPath (slotName m k))).bind _ = _
    rw [found_eq_ok.mpr hf]
    exact hentry

lemma listing_eq_ok : forLoopE (t.listEntry m) p n = .ok q ↔ forLoopE (Panel.listEntry t.disk m) p n = .ok q ∧
    ∀ k < n, ∃ f, t.names.namei (joined p.currentDirPath (slotName m k)).chars = some f := by
  induction n generalizing q with
  | zero => exact (and_iff_left fun k hk => absurd hk (Nat.not_lt_zero k)).symm
  | succ n ih =>
    constructor
    · intro h
      obtain ⟨s, hs, hturn⟩ := bind_eq_ok h
      obtain ⟨hloop, hfound⟩ := ih.mp hs
      obtain ⟨hlast, hentry⟩ := listEntry_eq_ok.mp hturn
      rw [(listing_ok hloop).2.samePath] at hlast
      refine ⟨by rw [forLoopE, hloop]; exact hentry, fun k hk => ?_⟩
      rcases Nat.lt_succ_iff_lt_or_eq.mp hk with hlt | rfl
      · exact hfound k hlt
      · exact hlast
    · rintro ⟨h, hfound⟩
      obtain ⟨s, hs, hturn⟩ := bind_eq_ok h
      have hloop := ih.mpr ⟨hs, fun k hk => hfound k (Nat.lt_succ_of_lt hk)⟩
      rw [forLoopE, hloop]
      refine listEntry_eq_ok.mpr ⟨?_, hturn⟩
      rw [(listing_ok hs).2.samePath]
      exact hfound n (Nat.lt_succ_self n)

lemma shownPath_eq (hinit : p.initFlag = true ∨ p.currentDirPath = slash) : p.shownPath = p.currentDirPath := by
  rcases hinit with h | h
  · exact if_pos h
  · rw [shownPath, h, ite_self]

lemma block_eq (hfound : t.names.namei path.chars = some dir) : t.disk.block path = t.byte dir := by
  change t.byte ((t.names.namei path.chars).getD 0) = _
  rw [hfound]
  rfl

/-- The rows of a listing, read from the directory that the path leads to. -/
lemma lists_of_getChildren (hfound : t.names.namei p.currentDirPath.chars = some dir)
    (hinit : p.initFlag = true ∨ p.currentDirPath = slash) (hq : getChildren t.disk p = .ok q) :
    Listable (t.byte dir) p.currentDirPath ∧ Lists t.disk (t.byte dir) p.currentDirPath 10 q := by
  have hshown : Listable (t.disk.block p.shownPath) p.currentDirPath := exists_getChildren.mp ⟨q, hq⟩
  have hrows := getChildren_rows hq
  rw [shownPath_eq hinit, block_eq hfound] at hshown hrows
  exact ⟨hshown, hrows⟩

/-- Where no lookup fails the explorer does what it does on the disk. -/
theorem getChildrenFromFs_eq_ok (hfound : t.names.namei p.currentDirPath.chars = some dir)
    (hinit : p.initFlag = true ∨ p.currentDirPath = slash) :
    t.getChildrenFromFs p = .ok q ↔ getChildren t.disk p = .ok q ∧
      ∀ k < 10, ∃ f, t.names.namei (joined p.currentDirPath (slotName (t.byte dir) k)).chars = some f := by
  have hblock : t.disk.block (if p.initFlag then p.currentDirPath else slash) = t.byte dir := by
    have hshown := shownPath_eq hinit
    rw [shownPath] at hshown
    rw [hshown, block_eq hfound]
  have hopen : (if p.initFlag then t.found p.currentDirPath else .ok Kernel.rootInode) = .ok dir := by
    by_cases hflag : p.initFlag = true
    · rw [if_pos hflag]
      exact found_eq_ok.mpr hfound
    · have hroot := hinit.resolve_left hflag
      rw [hroot] at hfound
      change t.names.namei [Kernel.slash] = _ at hfound
      rw [Kernel.Names.namei_slash] at hfound
      split_ifs at hfound
      rw [if_neg hflag, Option.some.inj hfound]
  unfold getChildrenFromFs getChildren
  rw [hopen, hblock]
  exact listing_eq_ok

end Running

section Lookups

variable {t} {dir : Word} {k : ℕ} {e : Fs.Entry} {path name : CString}

lemma path_ne_nil (h : t.names.namei path.chars = some dir) : path.chars ≠ [] := by
  intro hnil
  rw [hnil] at h
  cases h

/-- A file in a directory whose path ends in a name, or is the root's. -/
lemma namei_joined (hfound : t.names.namei path.chars = some dir)
    (hends : path = slash ∨ Kernel.Context.basename path.chars ≠ []) (hname : 47 ∉ name.chars) :
    t.names.namei (joined path name).chars = if t.names.Searchable dir then t.names.last dir name.chars else none := by
  have hbelow : t.names.below path.chars name.chars =
      if t.names.Searchable dir then t.names.last dir name.chars else none := by
    rw [Kernel.Names.below, hfound]
    rfl
  rw [← hbelow]
  change t.names.namei (path.chars ++ separator path ++ name.chars) = _
  by_cases hroot : path = slash
  · rw [separator, if_pos hroot, hroot]
    exact Kernel.Names.namei_root hname
  · rw [separator, if_neg hroot, List.append_assoc]
    exact Kernel.Names.namei_join (path_ne_nil hfound) (hends.resolve_left hroot) hname

lemma ends_of_namei (hfound : t.names.namei path.chars = some dir) (hname : 47 ∉ name.chars) {f : Word}
    (hf : t.names.namei (joined path name).chars = some f) :
    path = slash ∨ Kernel.Context.basename path.chars ≠ [] := by
  by_contra hno
  obtain ⟨hroot, hbase⟩ := not_or.mp hno
  change t.names.namei (path.chars ++ separator path ++ name.chars) = _ at hf
  rw [separator, if_neg hroot, List.append_assoc] at hf
  change t.names.namei (path.chars ++ Kernel.slash :: name.chars) = _ at hf
  rw [Kernel.Names.namei_join_none (path_ne_nil hfound) (not_not.mp hbase) hname] at hf
  cases hf

lemma nameOf_of_some (h : (t.live dir)[k]? = some e) : t.nameOf dir k = e.name := by
  rw [nameOf, h]
  rfl

lemma nameOf_of_none (h : (t.live dir).length ≤ k) : t.nameOf dir k = [] := by
  rw [nameOf, List.getElem?_eq_none h]
  rfl

lemma live_cases (t : FileTree) (dir : Word) (k : ℕ) :
    (∃ e, (t.live dir)[k]? = some e ∧ k < (t.live dir).length ∧ t.nameOf dir k = e.name) ∨
      (t.live dir).length ≤ k ∧ t.nameOf dir k = [] := by
  rcases Nat.lt_or_ge k (t.live dir).length with hlt | hge
  · have hget := List.getElem?_eq_getElem hlt
    exact Or.inl ⟨_, hget, hlt, nameOf_of_some hget⟩
  · exact Or.inr ⟨hge, nameOf_of_none hge⟩

lemma length_nameOf (t : FileTree) (dir : Word) (k : ℕ) : (t.nameOf dir k).length ≤ 14 := by
  rcases live_cases t dir k with ⟨e, he, _, hname⟩ | ⟨_, hname⟩
  · rw [hname]
    exact length_name (mem_of_live he).1
  · rw [hname]
    exact Nat.zero_le _

lemma nameOf_nulFree (t : FileTree) (dir : Word) (k : ℕ) : (0 : Byte) ∉ t.nameOf dir k := by
  rcases live_cases t dir k with ⟨e, he, _, hname⟩ | ⟨_, hname⟩
  · rw [hname]
    exact name_nulFree (mem_of_live he).1
  · rw [hname]
    exact List.not_mem_nil

lemma nameOf_plain (hdir : Fs.sIsDir (t.mode dir) = true) (k : ℕ) : (47 : Byte) ∉ t.nameOf dir k := by
  rcases live_cases t dir k with ⟨e, he, _, hname⟩ | ⟨_, hname⟩
  · rw [hname]
    obtain ⟨hmem, hlive⟩ := mem_of_live he
    exact ((t.tidy dir hdir).named e hmem hlive).2
  · rw [hname]
    exact List.not_mem_nil

lemma nameOf_eq_nil (hdir : Fs.sIsDir (t.mode dir) = true) : t.nameOf dir k = [] ↔ (t.live dir).length ≤ k := by
  rcases live_cases t dir k with ⟨e, he, hlt, hname⟩ | ⟨hge, hname⟩
  · rw [hname]
    obtain ⟨hmem, hlive⟩ := mem_of_live he
    exact iff_of_false ((t.tidy dir hdir).named e hmem hlive).1 (Nat.not_le.mpr hlt)
  · exact iff_of_true hname hge

/-- What a row's lookup finds: its entry, or for a row without one the directory itself. -/
lemma last_nameOf (hdir : Fs.sIsDir (t.mode dir) = true) (k : ℕ) :
    t.names.last dir (t.nameOf dir k) = some (((t.live dir)[k]?.map Fs.Entry.inode).getD dir) := by
  rcases live_cases t dir k with ⟨e, he, _, hname⟩ | ⟨hge, hname⟩
  · obtain ⟨hmem, hlive⟩ := mem_of_live he
    rw [hname, he, Kernel.Names.last, if_neg ((t.tidy dir hdir).named e hmem hlive).1, findEntry_live hdir hmem hlive]
    rfl
  · rw [hname, List.getElem?_eq_none hge]
    rfl

end Lookups

section Rows

variable {t} {dir : Word} {k n : ℕ} {mode : Word} {c : Byte} {path : CString} {p q : Panel}

lemma word_low (mode : Word) (c : Byte) : (entryColor mode ||| c.setWidth 16).setWidth 8 = c := by
  have hbyte : (c.setWidth 16).setWidth 8 = c := BitVec.setWidth_setWidth_of_le c (by decide) |>.trans (BitVec.setWidth_eq c)
  rw [BitVec.setWidth_or, entryColor_low, hbyte]
  exact BitVec.zero_or

lemma cell_eq (hc : c.msb = false) : cell mode c = entryColor mode ||| c.setWidth 16 := by
  rw [cell, BitVec.signExtend_eq_setWidth_of_msb_false hc]

/-- The sign of the character goes over its colour. -/
lemma msb_of_cell_eq {mode' : Word} (h : cell mode' c = entryColor mode ||| c.setWidth 16) : c.msb = false := by
  have hcolor : ∀ mode, (entryColor mode).getLsbD 15 = false := by
    intro mode
    unfold entryColor
    split_ifs <;> rfl
  have hsign : (cell mode' c).getLsbD 15 = c.msb := by
    rw [cell, BitVec.getLsbD_or, hcolor, BitVec.getLsbD_signExtend]
    simp
  have hplain : (entryColor mode ||| c.setWidth 16).getLsbD 15 = false := by
    rw [BitVec.getLsbD_or, hcolor, BitVec.getLsbD_setWidth, BitVec.getLsbD_of_ge c 15 (by decide)]
    rfl
  rw [← hsign, h, hplain]

lemma count_below (n l : ℕ) : ((List.range n).countP fun k => k < l) = min n l := by
  induction n with
  | zero => exact (Nat.zero_min l).symm
  | succ n ih =>
    rw [List.range_succ, List.countP_append, List.countP_singleton, ih]
    by_cases h : n < l
    · rw [decide_eq_true h, if_pos rfl]
      omega
    · rw [decide_eq_false h, if_neg Bool.false_ne_true]
      omega

lemma slotName_eq_nil {m : ℕ → Byte} : (slotName m k).chars = [] ↔ m (entryName k) = 0 := by
  change CString.charsFrom m (entryName k) (21 + 1) = [] ↔ _
  rw [CString.charsFrom]
  by_cases h : m (entryName k) = 0
  · rw [if_pos h]
    exact iff_of_true rfl h
  · rw [if_neg h]
    exact iff_of_false (List.cons_ne_nil _ _) h

/-- A name is read on into the entry behind it if nothing ends it. -/
lemma slotName_eq_iff {m : ℕ → Byte} {cs : List Byte} (hcs : (0 : Byte) ∉ cs) (hlen : cs.length ≤ Fs.nameLen) :
    (slotName m k).chars = cs ↔
      (entryAt m (k + 2)).name = cs ∧ (cs.length = Fs.nameLen → m (16 * (k + 3)) = 0) := by
  have hplace : 16 * (k + 2) + 2 = entryName k := by
    unfold entryName
    omega
  have hnext : entryName k + Fs.nameLen = 16 * (k + 3) := by
    unfold entryName Fs.nameLen
    omega
  have hroom : Fs.nameLen < 22 := by decide
  change CString.charsFrom m (entryName k) 22 = cs ↔ CString.charsFrom m (16 * (k + 2) + 2) Fs.nameLen = cs ∧ _
  rw [hplace, CString.charsFrom_eq_iff hcs, CString.charsFrom_eq_iff hcs]
  constructor
  · rintro ⟨_, hchars, hstop⟩
    have hzero := hstop (Nat.lt_of_le_of_lt hlen hroom)
    refine ⟨⟨hlen, hchars, fun _ => hzero⟩, fun hfull => ?_⟩
    rwa [hfull, hnext] at hzero
  · rintro ⟨⟨_, hchars, hstop⟩, hfull⟩
    refine ⟨hlen.trans hroom.le, hchars, fun _ => ?_⟩
    rcases hlen.lt_or_eq with hlt | heq
    · exact hstop hlt
    · rw [heq, hnext]
      exact hfull heq

lemma Orderly.slotName_eq (h : t.Orderly path dir) (hk : k < 10) :
    (slotName (t.byte dir) k).chars = t.nameOf dir k :=
  (slotName_eq_iff (nameOf_nulFree t dir k) (length_nameOf t dir k)).mpr ⟨h.slots k hk, h.closed k hk⟩

/-- A row that has what belongs into it was filled with the name that was read. -/
lemma Faithful.slotName_eq {d : Disk} {m : ℕ → Byte} (h : t.Faithful dir q) (hrows : Lists d m path n q) (hn : k < n)
    (hk : k < 10) : (slotName m k).chars = t.nameOf dir k ∧ ∀ c ∈ t.nameOf dir k, c.msb = false := by
  obtain ⟨hshort, hstop⟩ := h.stop k hk
  have hcell : ∀ j < (t.nameOf dir k).length, ∃ mode,
      q.lsFiles (16 * k + j) = entryColor mode ||| ((t.nameOf dir k).getD j 0).setWidth 16 := by
    intro j hj
    rcases live_cases t dir k with ⟨e, he, _, hname⟩ | ⟨_, hname⟩
    · rw [hname] at hj ⊢
      exact ⟨t.mode e.inode, h.name k hk e he j hj⟩
    · rw [hname] at hj
      exact absurd hj (Nat.not_lt_zero j)
  have hread : ∀ j < 16, j < (slotName m k).strlen →
      (q.lsFiles (16 * k + j)).setWidth 8 = (slotName m k).char j := by
    intro j hj hlen
    rw [hrows.cells k hn j hj hlen, cell_low]
  have hle : (slotName m k).strlen ≤ (t.nameOf dir k).length := by
    by_contra hlt
    have hchar := hread _ hshort (Nat.lt_of_not_le hlt)
    rw [hstop] at hchar
    exact CString.char_ne_zero (Nat.lt_of_not_le hlt) hchar.symm
  have hlen : (slotName m k).strlen = (t.nameOf dir k).length := by
    refine hle.antisymm (Nat.le_of_not_lt fun hlt => nameOf_nulFree t dir k ?_)
    obtain ⟨mode, hmode⟩ := hcell _ hlt
    rw [hrows.stop k hn (Nat.lt_trans hlt hshort)] at hmode
    have hlow := congrArg (BitVec.setWidth 8) hmode
    rw [word_low, List.getD_eq_getElem _ _ hlt] at hlow
    have hzero : (t.nameOf dir k)[(slotName m k).strlen] = 0 := hlow.symm
    rw [← hzero]
    exact List.getElem_mem hlt
  have hchars : ∀ j < (t.nameOf dir k).length, (slotName m k).char j = (t.nameOf dir k).getD j 0 := by
    intro j hj
    obtain ⟨mode, hmode⟩ := hcell j hj
    rw [← hread j (Nat.lt_trans hj hshort) (hlen ▸ hj), hmode, word_low]
  refine ⟨List.ext_getElem hlen fun j hj hj' => ?_, fun c hc => ?_⟩
  · have hchar := hchars j hj'
    rwa [CString.char, List.getD_eq_getElem _ _ hj, List.getD_eq_getElem _ _ hj'] at hchar
  · obtain ⟨j, hj, rfl⟩ := List.mem_iff_getElem.mp hc
    obtain ⟨mode, hmode⟩ := hcell j hj
    rw [hrows.cells k hn j (Nat.lt_trans hj hshort) (hlen ▸ hj), hchars j hj, List.getD_eq_getElem _ _ hj] at hmode
    exact msb_of_cell_eq hmode

theorem ListsWell.orderly (h : t.ListsWell p dir q) (hinit : p.initFlag = true ∨ p.currentDirPath = slash) :
    t.Orderly p.currentDirPath dir := by
  obtain ⟨hrun, hlooked⟩ := (getChildrenFromFs_eq_ok h.found hinit).mp h.run
  obtain ⟨hshown, hrows⟩ := lists_of_getChildren h.found hinit hrun
  have hslots : ∀ k < 10, (slotName (t.byte dir) k).chars = t.nameOf dir k := fun k hk =>
    (h.faithful.slotName_eq hrows hk hk).1
  have hplain : 47 ∉ (slotName (t.byte dir) 0).chars := by
    rw [hslots 0 (by decide)]
    exact nameOf_plain h.isDir 0
  obtain ⟨f, hf⟩ := hlooked 0 (by decide)
  have hends := ends_of_namei h.found hplain hf
  rw [namei_joined h.found hends hplain] at hf
  have hread := fun k hk => (slotName_eq_iff (nameOf_nulFree t dir k) (length_nameOf t dir k)).mp (hslots k hk)
  refine ⟨h.found, ?_, hends, fun k hk => (hread k hk).1, fun k hk => (hread k hk).2, fun k hk => ?_,
    fun k hk => (h.faithful.slotName_eq hrows hk hk).2⟩
  · by_contra hno
    rw [if_neg hno] at hf
    cases hf
  · rw [← hslots k hk]
    exact (hshown k hk).1

lemma Orderly.namei_slot (h : t.Orderly path dir) (hk : k < 10) :
    t.names.namei (joined path (slotName (t.byte dir) k)).chars =
      some (((t.live dir)[k]?.map Fs.Entry.inode).getD dir) := by
  have hdir : Fs.sIsDir (t.mode dir) = true := h.searchable.1
  have hplain : 47 ∉ (slotName (t.byte dir) k).chars := by
    rw [h.slotName_eq hk]
    exact nameOf_plain hdir k
  rw [namei_joined h.found h.ends hplain, if_pos h.searchable, h.slotName_eq hk, last_nameOf hdir k]

lemma Orderly.entries_eq (h : t.Orderly path dir) : Panel.entries (t.byte dir) = min 10 (t.live dir).length := by
  have hdir : Fs.sIsDir (t.mode dir) = true := h.searchable.1
  rw [Panel.entries, ← count_below]
  refine List.countP_congr fun k hk => ?_
  have hslot := slotName_eq_nil (k := k) (m := t.byte dir)
  rw [h.slotName_eq (List.mem_range.mp hk), nameOf_eq_nil hdir] at hslot
  rw [decide_eq_true_eq, decide_eq_true_eq, Ne, ← hslot, Nat.not_le]

theorem Orderly.exists_listing (h : t.Orderly p.currentDirPath dir)
    (hinit : p.initFlag = true ∨ p.currentDirPath = slash) : ∃ q, t.ListsWell p dir q := by
  have hlen : ∀ k < 10, (slotName (t.byte dir) k).strlen = (t.nameOf dir k).length := fun k hk =>
    congrArg List.length (h.slotName_eq hk)
  have hlistable : Listable (t.disk.block p.shownPath) p.currentDirPath := by
    intro k hk
    have hfit := length_nameOf t dir k
    rw [shownPath_eq hinit, block_eq h.found, Shown, hlen k hk]
    exact ⟨h.joins k hk, by omega⟩
  obtain ⟨q, hq⟩ := exists_getChildren.mpr hlistable
  obtain ⟨_, hrows⟩ := lists_of_getChildren h.found hinit hq
  have hmode : ∀ k < 10, ∀ e, (t.live dir)[k]? = some e →
      t.disk.mode (joined p.currentDirPath (slotName (t.byte dir) k)) = t.mode e.inode := by
    intro k hk e he
    change t.mode ((t.names.namei _).getD 0) = _
    rw [h.namei_slot hk, he]
    rfl
  have hfaithful : t.Faithful dir q := by
    refine ⟨fun k hk e he j hj => ?_, fun k hk => ?_, fun k hk e he => ?_, ?_⟩
    · have hname := nameOf_of_some he
      have hslot := h.slotName_eq hk
      rw [hname] at hslot
      have hshort := length_name (mem_of_live he).1
      have hchar : (slotName (t.byte dir) k).char j = e.name.getD j 0 := congrArg (fun cs => cs.getD j 0) hslot
      have hj' : j < (slotName (t.byte dir) k).strlen := by
        rw [hlen k hk, hname]
        exact hj
      rw [hrows.cells k hk j (by omega) hj', hmode k hk e he, hchar]
      apply cell_eq
      apply h.ascii k hk
      rw [hname, List.getD_eq_getElem _ _ hj]
      exact List.getElem_mem hj
    · have hfit := length_nameOf t dir k
      refine ⟨by omega, ?_⟩
      rw [← hlen k hk]
      exact hrows.stop k hk (by rw [hlen k hk]; omega)
    · rw [hrows.isDir k hk, hmode k hk e he]
    · obtain ⟨i, l, rfl, _⟩ := getChildren_ok hq
      change Panel.entries (t.disk.block p.shownPath) = _
      rw [shownPath_eq hinit, block_eq h.found, h.entries_eq]
  exact ⟨q, h.found, h.searchable.1, (getChildrenFromFs_eq_ok h.found hinit).mpr ⟨hq, fun k hk => ⟨_, h.namei_slot hk⟩⟩,
    hfaithful⟩

/-- A row without an entry is a directory: the path with nothing behind its slash is the directory's own. -/
lemma Orderly.isDir_rest (h : t.Orderly p.currentDirPath dir) (hinit : p.initFlag = true ∨ p.currentDirPath = slash)
    (hq : t.getChildrenFromFs p = .ok q) (hk : k < 10) (hge : (t.live dir).length ≤ k) : q.isDir k = true := by
  obtain ⟨_, hrows⟩ := lists_of_getChildren h.found hinit ((getChildrenFromFs_eq_ok h.found hinit).mp hq).1
  rw [hrows.isDir k hk]
  change Fs.sIsDir (t.mode ((t.names.namei _).getD 0)) = _
  rw [h.namei_slot hk, List.getElem?_eq_none hge]
  exact h.searchable.1

end Rows

/-- What each listing starts with: the path is another one only after the first of them. -/
def Started (p : Panel) : Prop :=
  (p.initFlag = true ∨ p.currentDirPath = slash) ∧ (p.f2Flag ≠ .off → p.initFlag = true)

theorem started_of_reach {p : Panel} (h : panelSystem.Reach (fun _ _ => True) p) : Started p := by
  refine h.invariant ?_ fun p e q hp _ hpress => ?_
  · rintro s rfl
    exact ⟨Or.inr rfl, fun hmode => absurd rfl hmode⟩
  · rcases press_cases hpress with hsame | ⟨d, start, _, hlisting⟩
    · unfold Started
      rw [hsame.initFlag, hsame.path]
      exact ⟨hp.1, fun hmode => hp.2 (hsame.mode hmode)⟩
    · obtain ⟨i, l, rfl, _⟩ := getChildren_ok hlisting
      exact ⟨Or.inl rfl, fun _ => rfl⟩

/-- The rows are those of the entries in use just if the directory is orderly, and only these entries are taken for
directories if there are also ten of them. -/
theorem listing_iff (t : FileTree) (p : Panel) (hinit : p.initFlag = true ∨ p.currentDirPath = slash) :
    ((∃ dir q, t.ListsWell p dir q) ↔ ∃ dir, t.Orderly p.currentDirPath dir) ∧
    ((∃ dir q, t.ListsWell p dir q ∧ ∀ k < 10, q.isDir k = true → k < (t.live dir).length) ↔
      ∃ dir, t.Orderly p.currentDirPath dir ∧ 10 ≤ (t.live dir).length) := by
  refine ⟨⟨?_, ?_⟩, ⟨?_, ?_⟩⟩
  · rintro ⟨dir, q, h⟩
    exact ⟨dir, h.orderly hinit⟩
  · rintro ⟨dir, h⟩
    exact ⟨dir, h.exists_listing hinit⟩
  · rintro ⟨dir, q, h, honly⟩
    have horderly := h.orderly hinit
    refine ⟨dir, horderly, ?_⟩
    by_contra hfew
    have hrest := horderly.isDir_rest hinit h.run (k := 9) (by decide) (by omega)
    exact absurd (honly 9 (by decide) hrest) (by omega)
  · rintro ⟨dir, h, hten⟩
    obtain ⟨q, hq⟩ := h.exists_listing hinit
    exact ⟨dir, q, hq, fun k hk _ => Nat.lt_of_lt_of_le hk hten⟩

/-- A root directory with the name `a` behind `.` and `..`, of a file or of one that is deleted. -/
def oneName (deleted : Bool) : FileTree where
  mode n := if n = 1 then 0o040755 else 0o100644
  mayExec _ := true
  size _ := 3
  byte _ x := if x = 0 ∨ x = 16 then 1 else if x = 2 ∨ x = 18 ∨ x = 19 then 46
    else if x = 32 then if deleted then 0 else 2 else if x = 34 then 97 else 0
  tidy _ _ := by cases deleted <;> exact ⟨by decide +kernel, by decide +kernel⟩

theorem listing_oneName : ∃ q, (oneName false).ListsWell initialPanel 1 q := by
  have horderly : (oneName false).Orderly slash 1 := by
    refine ⟨?_, by decide, Or.inl rfl, by decide +kernel, by decide +kernel, by decide +kernel,
      by decide +kernel⟩
    exact Kernel.Names.namei_slash.trans (if_pos (by decide))
  obtain ⟨dir, q, hq⟩ := (listing_iff (oneName false) initialPanel (Or.inr rfl)).1.mpr ⟨1, horderly⟩
  have hdir : dir = 1 := Option.some.inj (hq.found.symm.trans horderly.found)
  rw [hdir] at hq
  exact ⟨q, hq⟩

/-- The name of the deleted file is looked up, and the lookup finds nothing. -/
theorem listing_deleted : (oneName true).getChildrenFromFs initialPanel = .error .badPointer ∧
    ¬∃ dir q, (oneName true).ListsWell initialPanel dir q := by
  have hslot : (entryAt ((oneName true).byte 1) 2).name ≠ (oneName true).nameOf 1 0 := by decide +kernel
  refine ⟨by rfl, ?_⟩
  rintro ⟨dir, q, h⟩
  exact hslot ((h.orderly (Or.inr rfl)).slots 0 (by decide))

end FileTree

end Devos.Tty
