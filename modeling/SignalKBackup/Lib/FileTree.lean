import Mathlib.Data.List.Basic

/-!
# FileTree — file systems as partial functions on paths

A file system gives each path the entry that is there, if any.  A path names an entry by the real
path of its directory followed by the entry's own name, so only the last name of a path may be a
symbolic link; `follow` resolves it.

The operations are total functions that describe what a call does when it succeeds, or how far it
got when it fails; which of them can succeed in a given state is for the caller to say.  The frame
lemmas say what each leaves alone, and `Disjoint` is the relation they share: two paths neither of
which lies on the way to the other.
-/

namespace SignalKBackup
namespace Lib

universe u v

inductive Node (ν : Type u) (β : Type v)
  | file (bytes : β)
  | dir
  | link (dest : List ν)
  deriving DecidableEq

abbrev FileTree (ν : Type u) (β : Type v) := List ν → Option (Node ν β)

namespace FileTree

variable {ν : Type u} {β : Type v}

/-! ## Reading -/

/-- The entry at a path with everything below it. -/
def subtree (fs : FileTree ν β) (p : List ν) : FileTree ν β :=
  fun q => fs (p ++ q)

/-- The path a name leads to after at most `n` links; `none` when there are more. -/
def follow (fs : FileTree ν β) : Nat → List ν → Option (List ν)
  | 0, _ => none
  | n + 1, p =>
      match fs p with
      | some (.link dest) => fs.follow n dest
      | _ => some p

/-- `stat` finds an entry, through at most `n` links. -/
def stat (fs : FileTree ν β) (n : Nat) (p : List ν) : Bool :=
  match fs.follow n p with
  | some q => (fs q).isSome
  | none => false

theorem follow_of_ne_link {fs : FileTree ν β} {p : List ν}
    (h : ∀ dest, fs p ≠ some (.link dest)) (n : Nat) : fs.follow (n + 1) p = some p := by
  unfold follow
  split
  · rename_i dest hlink
    exact absurd hlink (h dest)
  · rfl

variable [DecidableEq ν]

/-! ## Writing -/

/-- Makes one entry. -/
def put (fs : FileTree ν β) (p : List ν) (node : Node ν β) : FileTree ν β :=
  fun x => if x = p then some node else fs x

/-- Removes the entry at `p` with everything below it. -/
def remove (fs : FileTree ν β) (p : List ν) : FileTree ν β :=
  fun x => if p <+: x then none else fs x

/-- A removal that failed half-way: what `keep` holds is still there. -/
def removeSome (fs : FileTree ν β) (keep : List ν → Bool) (p : List ν) : FileTree ν β :=
  fun x => if p <+: x ∧ keep x = false then none else fs x

/-- Moves the entry at `src`, with everything below it, to `dst`. -/
def move (fs : FileTree ν β) (src dst : List ν) : FileTree ν β :=
  fun x =>
    if dst <+: x then fs (src ++ x.drop dst.length)
    else if src <+: x then none
    else fs x

/-- Makes every missing directory on the way to `p`, and `p` itself. -/
def mkdirs (fs : FileTree ν β) (p : List ν) : FileTree ν β :=
  fun x => if x <+: p ∧ fs x = none then some .dir else fs x

/-- What `rename` does when it succeeds: a file takes a free name or replaces a file, a directory
takes a free name; the directory of the new name is there. -/
def rename (fs : FileTree ν β) (src dst : List ν) : Option (FileTree ν β) :=
  if src <+: dst ∨ dst <+: src then none
  else
    match fs dst.dropLast, fs src, fs dst with
    | some .dir, some (.file bytes), none => some ((fs.remove src).put dst (.file bytes))
    | some .dir, some (.file bytes), some (.file _) => some ((fs.remove src).put dst (.file bytes))
    | some .dir, some .dir, none => some (fs.move src dst)
    | _, _, _ => none

/-! ## Two paths apart from each other -/

/-- Neither path lies on the way to the other. -/
def Disjoint (p q : List ν) : Prop :=
  ¬ p <+: q ∧ ¬ q <+: p

omit [DecidableEq ν] in
theorem Disjoint.symm {p q : List ν} (h : Disjoint p q) : Disjoint q p :=
  ⟨h.2, h.1⟩

omit [DecidableEq ν] in
/-- Nothing lies below both of two disjoint paths. -/
theorem Disjoint.not_prefix {p q x : List ν} (h : Disjoint p q) (hp : p <+: x) : ¬ q <+: x := by
  intro hq
  -- both lead to `x`, so one of them lies on the way to the other
  rcases List.prefix_or_prefix_of_prefix hp hq with hpq | hqp
  · exact h.1 hpq
  · exact h.2 hqp

omit [DecidableEq ν] in
theorem Disjoint.append {p q : List ν} (h : Disjoint p q) (x y : List ν) : p ++ x ≠ q ++ y := by
  intro heq
  refine h.not_prefix (x := p ++ x) (List.prefix_append p x) ?_
  exact heq ▸ List.prefix_append q y

omit [DecidableEq ν] in
/-- Two names of one directory. -/
theorem Disjoint.siblings {dir : List ν} {a b : ν} (h : a ≠ b) :
    Disjoint (dir ++ [a]) (dir ++ [b]) := by
  constructor
  · intro hpre
    simp [List.prefix_append_right_inj, h] at hpre
  · intro hpre
    simp [List.prefix_append_right_inj, Ne.symm h] at hpre

omit [DecidableEq ν] in
theorem Disjoint.ne {p q : List ν} (h : Disjoint q p) : p ≠ q := by
  rintro rfl
  exact h.1 (List.prefix_refl _)

omit [DecidableEq ν] in
theorem Disjoint.below {a b : List ν} (h : Disjoint a b) (dir : List ν) :
    Disjoint (dir ++ a) (dir ++ b) := by
  refine ⟨fun hpre => h.1 ?_, fun hpre => h.2 ?_⟩
  · exact (List.prefix_append_right_inj dir).1 hpre
  · exact (List.prefix_append_right_inj dir).1 hpre

omit [DecidableEq ν] in
/-- What lies below two names of one directory. -/
theorem Disjoint.names {a b : ν} (h : a ≠ b) (x y : List ν) : Disjoint (a :: x) (b :: y) := by
  refine ⟨fun hpre => h ?_, fun hpre => h ?_⟩
  · exact (List.cons_prefix_cons.1 hpre).1
  · exact (List.cons_prefix_cons.1 hpre).1.symm

/-! ## What the operations do and leave alone -/

variable {fs : FileTree ν β} {p q : List ν}

/-- What is there stays there. -/
theorem mkdirs_ne_none {x : List ν} (h : fs x ≠ none) : fs.mkdirs p x ≠ none := by
  simp [mkdirs, h]

theorem put_ne_none {x : List ν} {node : Node ν β} (h : fs x ≠ none) : fs.put p node x ≠ none := by
  unfold put
  split
  · simp
  · exact h

@[simp] theorem subtree_remove_self : (fs.remove p).subtree p = fun _ => none := by
  funext x
  simp [subtree, remove]

theorem subtree_remove (h : Disjoint p q) : (fs.remove p).subtree q = fs.subtree q := by
  funext x
  have hnot := h.symm.not_prefix (List.prefix_append q x)
  simp [subtree, remove, hnot]

theorem subtree_removeSome (keep : List ν → Bool) (h : Disjoint p q) :
    (fs.removeSome keep p).subtree q = fs.subtree q := by
  funext x
  have hnot := h.symm.not_prefix (List.prefix_append q x)
  simp [subtree, removeSome, hnot]

@[simp] theorem subtree_move_dst (src dst : List ν) :
    (fs.move src dst).subtree dst = fs.subtree src := by
  funext x
  simp [subtree, move]

theorem subtree_move_src {src dst : List ν} (h : Disjoint src dst) :
    (fs.move src dst).subtree src = fun _ => none := by
  funext x
  have hnot := h.not_prefix (List.prefix_append src x)
  simp [subtree, move, hnot]

theorem subtree_put {x : List ν} {node : Node ν β} (h : ¬ q <+: x) :
    (fs.put x node).subtree q = fs.subtree q := by
  funext y
  -- `x` is not at or below `q`
  have hne : q ++ y ≠ x := by
    rintro rfl
    exact h (List.prefix_append q y)
  simp [subtree, put, hne]

theorem subtree_mkdirs (h : ¬ q <+: p) : (fs.mkdirs p).subtree q = fs.subtree q := by
  funext y
  have hne : ¬ q ++ y <+: p := by
    intro hpre
    exact h ((List.prefix_append q y).trans hpre)
  simp [subtree, mkdirs, hne]

theorem rename_eq_some {fs' : FileTree ν β} {src dst : List ν} (h : fs.rename src dst = some fs') :
    Disjoint src dst ∧
      ((∃ bytes, fs src = some (.file bytes) ∧ fs' = (fs.remove src).put dst (.file bytes)) ∨
        fs src = some .dir ∧ fs' = fs.move src dst) := by
  unfold rename at h
  split at h
  case isTrue =>
      cases h
  case isFalse hapart =>
      refine ⟨not_or.1 hapart, ?_⟩
      split at h
      case h_1 bytes _ hsrc _ =>
          cases h
          exact Or.inl ⟨bytes, hsrc, rfl⟩
      case h_2 bytes _ _ hsrc _ =>
          cases h
          exact Or.inl ⟨bytes, hsrc, rfl⟩
      case h_3 _ hsrc _ =>
          cases h
          exact Or.inr ⟨hsrc, rfl⟩
      case h_4 =>
          cases h

theorem rename_apart {fs' : FileTree ν β} {src dst : List ν} (h : fs.rename src dst = some fs')
    (hsrc : Disjoint src p) (hdst : Disjoint dst p) : fs' p = fs p := by
  rcases rename_eq_some h with ⟨_, ⟨bytes, _, rfl⟩ | ⟨_, rfl⟩⟩
  · rw [FileTree.put, if_neg hdst.ne, FileTree.remove, if_neg hsrc.1]
  · rw [FileTree.move, if_neg hdst.1, if_neg hsrc.1]

/-- A file does not replace a directory. -/
theorem rename_file {fs' : FileTree ν β} {src dst : List ν} {bytes : β}
    (hsrc : fs src = some (.file bytes)) (h : fs.rename src dst = some fs') : fs dst ≠ some .dir := by
  intro hdst
  unfold rename at h
  split at h
  case isTrue =>
      cases h
  case isFalse =>
      rw [hsrc, hdst] at h
      cases hup : fs dst.dropLast with
      | none =>
          simp [hup] at h
      | some node =>
          cases node <;> simp [hup] at h

/-- The entry is under the new name, and no longer under the old one. -/
theorem rename_places {fs' : FileTree ν β} {src dst : List ν} (h : fs.rename src dst = some fs') :
    fs' dst = fs src ∧ fs' src = none := by
  rcases rename_eq_some h with ⟨hapart, ⟨bytes, hsrc, rfl⟩ | ⟨hsrc, rfl⟩⟩
  · refine ⟨by simp [FileTree.put, hsrc], ?_⟩
    rw [FileTree.put, if_neg hapart.symm.ne, FileTree.remove, if_pos (List.prefix_refl _)]
  · refine ⟨by simp [FileTree.move], ?_⟩
    rw [FileTree.move, if_neg hapart.2, if_pos (List.prefix_refl _)]

/-! ## Subtrees without links -/

/-- Nothing at or below `p` is a link. -/
def NoLinks (fs : FileTree ν β) (p : List ν) : Prop :=
  ∀ x, p <+: x → ∀ dest, fs x ≠ some (.link dest)

omit [DecidableEq ν] in
theorem NoLinks.follow (h : NoLinks fs p) (n : Nat) {x : List ν} (hx : p <+: x) :
    fs.follow (n + 1) x = some x :=
  follow_of_ne_link (h x hx) n

theorem NoLinks.put (h : NoLinks fs p) {x : List ν} {node : Node ν β}
    (hnode : ∀ dest, node ≠ .link dest) : NoLinks (fs.put x node) p := by
  intro y hy dest
  -- the entry itself, and every other one
  by_cases hyx : y = x
  · simpa [FileTree.put, hyx] using hnode dest
  · simpa [FileTree.put, hyx] using h y hy dest

theorem NoLinks.mkdirs (h : NoLinks fs p) (x : List ν) : NoLinks (fs.mkdirs x) p := by
  intro y hy dest
  have hold := h y hy dest
  unfold FileTree.mkdirs
  split
  · simp
  · exact hold

theorem NoLinks.remove (h : NoLinks fs p) (x : List ν) : NoLinks (fs.remove x) p := by
  intro y hy dest
  have hold := h y hy dest
  unfold FileTree.remove
  split
  · simp
  · exact hold

theorem NoLinks.removeSome (h : NoLinks fs p) (keep : List ν → Bool) (x : List ν) :
    NoLinks (fs.removeSome keep x) p := by
  intro y hy dest
  have hold := h y hy dest
  unfold FileTree.removeSome
  split
  · simp
  · exact hold

theorem NoLinks.move (h : NoLinks fs []) (src dst : List ν) : NoLinks (fs.move src dst) [] := by
  intro x _ dest
  unfold FileTree.move
  split
  · exact h _ List.nil_prefix dest
  · split
    · simp
    · exact h x List.nil_prefix dest

omit [DecidableEq ν] in
theorem NoLinks.of_subtree (h : fs.subtree p = fun _ => none) : NoLinks fs p := by
  rintro x ⟨y, rfl⟩ dest hlink
  have hnone : fs (p ++ y) = none := congrFun h y
  rw [hnone] at hlink
  cases hlink

end FileTree

end Lib
end SignalKBackup
