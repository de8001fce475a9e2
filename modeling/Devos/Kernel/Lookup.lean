import Devos.Kernel.Context

/-! What `namei` finds, when the root directory is also the working directory. -/

namespace Devos.Kernel

namespace Names

variable (t : Names)

/-- `get_dir` goes on from here. -/
def Searchable (inode : Word) : Prop := t.isDir inode = true ∧ t.mayExec inode = true

instance (inode : Word) : Decidable (t.Searchable inode) := inferInstanceAs (Decidable (_ ∧ _))

def descend : Word → List (List Byte) → Option Word
  | inode, [] => if t.Searchable inode then some inode else none
  | inode, name :: rest =>
    if t.Searchable inode then (t.findEntry inode name).bind fun inr => descend inr rest else none

/-- The components of a path, the empty one before its first slash left out. -/
def components : List Byte → List (List Byte)
  | [] => []
  | c :: rest => if c = slash then rest.splitOn slash else (c :: rest).splitOn slash

/-- The last component, in the directory that the others lead to. -/
def last (dir : Word) (name : List Byte) : Option Word := if name = [] then some dir else t.findEntry dir name

def namei (path : List Byte) : Option Word :=
  if path = [] then none
  else (t.descend rootInode (components path).dropLast).bind fun dir => t.last dir (Context.basename path)

section Lookups

variable {t} {s : Context} {inode dir : Word} {path name : List Byte} {names : List (List Byte)}

lemma descend_counted (t : Names) (names : List (List Byte)) (s : Context) (inode : Word) :
    Context.descend t (s.iget inode) inode names = .ok (t.descend inode names, s.take (t.descend inode names)) := by
  have hback : ((s.iget inode).iput inode).map (fun s => ((none : Option Word), s)) = .ok (none, s.take none) := by
    rw [Context.iput_iget, Context.take, Option.toList_none, Context.held_nil]
    rfl
  induction names generalizing inode with
  | nil =>
    rw [Context.descend, descend]
    by_cases hgo : t.Searchable inode
    · rw [if_neg fun h => h hgo, if_pos hgo, Context.take, Option.toList_some, Context.iget_eq]
    · rw [if_pos (show ¬(_ ∧ _) from hgo), if_neg hgo]
      exact hback
  | cons name rest ih =>
    rw [Context.descend, descend]
    by_cases hgo : t.Searchable inode
    · rw [if_neg fun h => h hgo, if_pos hgo]
      cases t.findEntry inode name with
      | none => exact hback
      | some inr =>
        dsimp only
        rw [Context.iput_iget]
        refine ih inr ?_
        rw [Context.iput_iget, Context.take, Option.toList_none, Context.held_nil]
        rfl
    · rw [if_pos (show ¬(_ ∧ _) from hgo), if_neg hgo]
      exact hback

/-- The walk that counts its references finds the same. -/
theorem namei_counted (hroot : s.live s.root = some rootInode) (hpwd : s.live s.pwd = some rootInode) (t : Names)
    (path : List Byte) : s.namei t path = .ok (t.namei path, s.take (t.namei path)) := by
  have hdir : s.getDir t path = .ok (if path = [] then none else t.descend rootInode (components path).dropLast,
      s.take (if path = [] then none else t.descend rootInode (components path).dropLast)) := by
    rw [Context.getDir, hroot, hpwd]
    cases path with
    | nil => rw [if_pos rfl, Context.take, Option.toList_none, Context.held_nil]
    | cons c rest =>
      rw [if_neg (List.cons_ne_nil _ _), components]
      dsimp only
      split_ifs <;> exact descend_counted t _ s rootInode
  rw [Context.namei, hdir, namei]
  by_cases hnil : path = []
  · rw [if_pos hnil, if_pos hnil]
    rfl
  · rw [if_neg hnil, if_neg hnil]
    cases t.descend rootInode (components path).dropLast with
    | none => rfl
    | some dir =>
      change (if Context.basename path = [] then _ else _) = Except.ok (t.last dir _, s.take (t.last dir _))
      rw [last]
      split_ifs
      · rfl
      · cases t.findEntry dir (Context.basename path) with
        | none =>
          dsimp only
          rw [Context.take, Option.toList_some, ← Context.iget_eq, Context.iput_iget, Context.take, Option.toList_none,
            Context.held_nil]
          rfl
        | some inr =>
          dsimp only
          rw [Context.take, Option.toList_some, ← Context.iget_eq, Context.iput_iget, Context.take, Option.toList_some,
            ← Context.iget_eq]
          rfl

lemma descend_concat (names : List (List Byte)) (name : List Byte) (inode : Word) :
    t.descend inode (names ++ [name]) = (t.descend inode names).bind fun dir =>
      (t.findEntry dir name).bind fun inr => if t.Searchable inr then some inr else none := by
  induction names generalizing inode with
  | nil =>
    rw [List.nil_append, descend, descend]
    split_ifs
    · rfl
    · rfl
  | cons first rest ih =>
    rw [List.cons_append, descend, descend]
    split_ifs
    · cases t.findEntry inode first with
      | none => rfl
      | some inr => exact ih inr
    · rfl

lemma splitOn_join (path name : List Byte) (hname : slash ∉ name) :
    (path ++ slash :: name).splitOn slash = path.splitOn slash ++ [name] := by
  have hone : name.splitOn slash = [name] := by
    apply List.splitOnP_eq_singleton
    intro c hc
    rw [beq_eq_false_iff_ne]
    rintro rfl
    exact hname hc
  rw [← hone]
  exact List.splitOnP_append_cons path name (by simp)

lemma components_join (hpath : path ≠ []) (hname : slash ∉ name) :
    components (path ++ slash :: name) = components path ++ [name] := by
  obtain ⟨c, rest, rfl⟩ := List.exists_cons_of_ne_nil hpath
  rw [List.cons_append, components, components]
  split_ifs
  · exact splitOn_join rest name hname
  · exact splitOn_join (c :: rest) name hname

lemma basename_join (path : List Byte) (hname : slash ∉ name) : Context.basename (path ++ slash :: name) = name := by
  rw [Context.basename, splitOn_join path name hname, List.getLastD_concat]

/-- The last component is the last one of all. -/
lemma components_eq (hpath : path ≠ []) : components path = (components path).dropLast ++ [Context.basename path] := by
  have hlast : ∀ cs : List (List Byte), cs ≠ [] → cs = cs.dropLast ++ [cs.getLastD []] := by
    intro cs hcs
    obtain ⟨pre, name, rfl⟩ := List.eq_nil_or_concat cs |>.resolve_left hcs
    rw [List.concat_eq_append, List.dropLast_concat, List.getLastD_concat]
  obtain ⟨c, rest, rfl⟩ := List.exists_cons_of_ne_nil hpath
  rw [components, Context.basename]
  by_cases hc : c = slash
  · have hsplit : (c :: rest).splitOn slash = [] :: rest.splitOn slash := by
      subst hc
      exact List.splitOnP_append_cons [] rest (by simp)
    have hne : rest.splitOn slash ≠ [] := List.splitOnP_ne_nil _ _
    have hsame : ([] :: rest.splitOn slash).getLastD [] = (rest.splitOn slash).getLastD [] := by
      obtain ⟨d, ds, hds⟩ := List.exists_cons_of_ne_nil hne
      rw [hds]
      rfl
    rw [if_pos hc, hsplit, hsame]
    exact hlast _ hne
  · rw [if_neg hc]
    exact hlast _ (List.splitOnP_ne_nil _ _)

/-- What is found in the directory that a path leads to. -/
def below (t : Names) (path name : List Byte) : Option Word :=
  (t.namei path).bind fun dir => if t.Searchable dir then t.last dir name else none

lemma namei_slash : t.namei [slash] = if t.Searchable rootInode then some rootInode else none := by
  have hbase : Context.basename [slash] = [] := basename_join [] List.not_mem_nil
  have hcomp : components [slash] = [[]] := List.splitOn_nil slash
  rw [namei, if_neg (List.cons_ne_nil _ _), hcomp, hbase]
  change (t.descend rootInode []).bind _ = _
  rw [descend]
  split_ifs <;> rfl

lemma namei_root (hname : slash ∉ name) : t.namei (slash :: name) = t.below [slash] name := by
  have hbase : Context.basename (slash :: name) = name := basename_join [] hname
  have hcomp : components (slash :: name) = [name] := List.splitOnP_eq_singleton fun c hc => by
    rw [beq_eq_false_iff_ne]
    rintro rfl
    exact hname hc
  rw [namei, if_neg (List.cons_ne_nil _ _), hcomp, hbase, below, namei_slash]
  change (t.descend rootInode []).bind _ = _
  rw [descend]
  split_ifs with hgo
  · exact (if_pos hgo).symm
  · rfl

lemma namei_join (hpath : path ≠ []) (hbase : Context.basename path ≠ []) (hname : slash ∉ name) :
    t.namei (path ++ slash :: name) = t.below path name := by
  rw [namei, if_neg (by simp), components_join hpath hname, basename_join path hname, List.dropLast_concat,
    components_eq hpath, descend_concat, below, namei, if_neg hpath]
  cases t.descend rootInode (components path).dropLast with
  | none => rfl
  | some dir =>
    change (Option.bind (Option.bind (t.findEntry dir (Context.basename path)) _) _) =
      (t.last dir (Context.basename path)).bind _
    rw [last, if_neg hbase]
    cases t.findEntry dir (Context.basename path) with
    | none => rfl
    | some inr =>
      change (if _ then _ else _ : Option Word).bind _ = if _ then _ else _
      split_ifs <;> rfl

/-- Two slashes have a component between them that no directory has. -/
lemma namei_join_none (hpath : path ≠ []) (hbase : Context.basename path = []) (hname : slash ∉ name) :
    t.namei (path ++ slash :: name) = none := by
  rw [namei, if_neg (by simp), components_join hpath hname, List.dropLast_concat, components_eq hpath, hbase,
    descend_concat]
  cases t.descend rootInode (components path).dropLast <;> rfl

end Lookups

end Names

end Devos.Kernel
