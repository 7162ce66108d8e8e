import Mathlib.Data.List.Basic
import Sylar.Lib.PathTree

/- `FSUtil::Unlink` and `FSUtil::Rm` in `sylar/util.cc`, on a finite tree of files.

   A path is the names from the top of the tree on; `.` and `..` are entries of a directory
   but no names of files. The kernel lists the entries in any order, and may refuse
   whatever it is asked (`Kernel`); a permissive one refuses only what it must.

   `Rm` takes for a directory what has the bit `S_IFDIR` in its mode. Sockets and block
   devices have it too, cannot be opened, and stay; all else goes. `rm_right_iff` says so
   for every tree. What `Rm` reports is right in any case: behind an entry that stayed
   `rmdir` fails. -/
namespace Sylar.Util
open Sylar.Lib

/-! ## Files -/

inductive FileType where
  | fifo
  | chr
  | dir
  | blk
  | reg
  | lnk
  | sock
  deriving DecidableEq, Repr

/-- `S_IFIFO`, `S_IFCHR` and so on. -/
def FileType.bits : FileType → BitVec 32
  | .fifo => 0x1000
  | .chr => 0x2000
  | .dir => 0x4000
  | .blk => 0x6000
  | .reg => 0x8000
  | .lnk => 0xA000
  | .sock => 0xC000

def S_IFDIR : BitVec 32 := 0x4000

structure Inode where
  type : FileType
  perm : BitVec 12
  deriving DecidableEq, Repr

def Inode.st_mode (i : Inode) : BitVec 32 := i.type.bits ||| i.perm.setWidth 32

/-- `.` -/
def dot : List UInt8 := [0x2e]

/-- `..` -/
def dotdot : List UInt8 := [0x2e, 0x2e]

abbrev Name := { d_name : List UInt8 // ¬ (d_name = dot ∨ d_name = dotdot) }

abbrev Path := List Name

abbrev FS := PathTree Name Inode fun i => i.type = .dir

/-! ## The kernel -/

structure Kernel where
  /-- All of `readdir` on a directory: an entry that goes meanwhile has been read before. -/
  readdir : FS → Path → List (List UInt8)
  listed : ∀ fs path (n : Name), n.val ∈ readdir fs path ↔ (fs.node (path ++ [n])).isSome = true
  /-- Where a symbolic link leads. -/
  follow : FS → Path → Option Path
  refusesUnlink : FS → Path → Bool
  refusesRmdir : FS → Path → Bool
  refusesOpendir : FS → Path → Bool

/-- No call fails but where it has to. -/
structure Kernel.Permissive (k : Kernel) : Prop where
  unlink : ∀ fs path, k.refusesUnlink fs path = false
  rmdir : ∀ fs path, k.refusesRmdir fs path = false
  opendir : ∀ fs path, k.refusesOpendir fs path = false

section
variable (k : Kernel) (fs : FS) (path : Path)

/-- `st_mode`, of a link its own. -/
def lstat : Option (BitVec 32) := (fs.node path).map Inode.st_mode

/-- Taking away one file, which is not a directory. -/
def Kernel.unlink : Bool × FS :=
  if k.refusesUnlink fs path then (false, fs)
  else
    match fs.node path with
    | none => (false, fs)
    | some i => if i.type = .dir then (false, fs) else (true, fs.without path)

/-- Taking away one directory, which is empty. -/
def Kernel.rmdir : Bool × FS :=
  if k.refusesRmdir fs path then (false, fs)
  else
    match fs.node path with
    | none => (false, fs)
    | some i =>
      if i.type = .dir ∧ ∀ e ∈ fs.entries, path <+: e.1 → e.1 = path then (true, fs.without path) else (false, fs)

/-- Links are followed here. -/
def Kernel.opendir : Option (List (List UInt8)) :=
  if k.refusesOpendir fs path then none
  else
    match fs.node path with
    | none => none
    | some i =>
      match i.type with
      | .dir => some (k.readdir fs path)
      | .lnk =>
        (k.follow fs path).bind fun target =>
          (fs.node target).bind fun j => if j.type = .dir then some (k.readdir fs target) else none
      | _ => none

/-! ## Removal -/

def Kernel.Unlink (filename : Path) (exist : Bool) : Bool × FS :=
  if ¬ exist ∧ lstat fs filename = none then (true, fs) else k.unlink fs filename

end

/-- The loop over the entries of a directory, with `rm` for the recursive call. -/
def rmEntries (rm : FS → Path → Option (Bool × FS)) (path : Path) : List (List UInt8) → Bool → FS → Option (Bool × FS)
  | [], ret, fs => some (ret, fs)
  | d_name :: rest, ret, fs =>
    if h : d_name = dot ∨ d_name = dotdot then rmEntries rm path rest ret fs
    else
      match rm fs (path ++ [⟨d_name, h⟩]) with
      | none => none
      | some (ret, fs) => rmEntries rm path rest ret fs

/-- `Rm`, as deep as the fuel goes. -/
def Kernel.Rm (k : Kernel) : Nat → FS → Path → Option (Bool × FS)
  | 0, _, _ => none
  | fuel + 1, fs, path =>
    match lstat fs path with
    | none => some (true, fs)
    | some st_mode =>
      if st_mode &&& S_IFDIR = 0 then some (k.Unlink fs path false)
      else
        match k.opendir fs path with
        | none => some (false, fs)
        | some names =>
          match rmEntries (k.Rm fuel) path names true fs with
          | none => none
          | some (ret, fs) =>
            let (removed, fs) := k.rmdir fs path
            some (if removed then ret else false, fs)

/-! ## Modes -/

/-- A file that has the bit of a directory and is none. -/
def Misread (i : Inode) : Prop := i.type = .sock ∨ i.type = .blk

theorem perm_and_dir (perm : BitVec 12) : perm.setWidth 32 &&& S_IFDIR = 0#32 := by
  apply BitVec.eq_of_getLsbD_eq
  intro j hj
  have hbits : ∀ j < 12, S_IFDIR.getLsbD j = false := by decide
  rw [BitVec.getLsbD_and, BitVec.getLsbD_setWidth, BitVec.getLsbD_zero]
  by_cases hlow : j < 12
  · rw [hbits j hlow, Bool.and_false]
  · rw [BitVec.getLsbD_of_ge perm j (by omega), Bool.and_false, Bool.false_and]

/-- What is unlinked: all but directories, sockets and block devices. -/
theorem st_mode_dir (i : Inode) : i.st_mode &&& S_IFDIR = 0 ↔ i.type ≠ .dir ∧ ¬ Misread i := by
  have hmode : i.st_mode &&& S_IFDIR = i.type.bits &&& S_IFDIR := by
    rw [Inode.st_mode, BitVec.and_comm, BitVec.and_or_distrib_left, BitVec.and_comm, BitVec.and_comm (x := S_IFDIR),
      perm_and_dir, BitVec.or_zero]
  rw [hmode, Misread]
  cases i.type <;> decide

/-! ## One call -/

section
variable (k : Kernel) {fs : FS} {path : Path} {i : Inode}

/-- Only a directory has files below it. -/
theorem eq_of_below (hi : fs.node path = some i) (hdir : i.type ≠ .dir) {m : Path} {a : Inode} (hle : path <+: m)
    (ha : fs.node m = some a) : a = i := by
  obtain ⟨rest, rfl⟩ := hle
  by_cases hrest : rest = []
  · subst hrest
    rw [List.append_nil, hi] at ha
    exact (Option.some.inj ha).symm
  · obtain ⟨b, hb, hinner⟩ := PathTree.node_above ha hrest
    rw [hi] at hb
    cases hb
    exact absurd hinner hdir

/-- What `unlink` and `rmdir` leave. -/
structure Leaves (path : Path) (fs : FS) (r : Bool × FS) : Prop where
  cut : PathTree.Cut Misread path fs r.2
  gone : r.1 = true → r.2.node path = none

theorem leaves_without (h : ∀ m a, path <+: m → fs.node m = some a → ¬ Misread a) :
    Leaves path fs (true, fs.without path) where
  cut := PathTree.cut_without h
  gone _ := by rw [PathTree.node_without, if_pos (List.prefix_refl path)]

theorem leaves_refused : Leaves path fs (false, fs) where
  cut := PathTree.Cut.refl _ _ _
  gone h := absurd h Bool.false_ne_true

theorem unlink_leaves (hi : fs.node path = some i) (hread : ¬ Misread i) : Leaves path fs (k.unlink fs path) := by
  unfold Kernel.unlink
  rw [hi]
  by_cases hrefuse : k.refusesUnlink fs path = true
  · rw [if_pos hrefuse]
    exact leaves_refused
  · rw [if_neg hrefuse]
    by_cases hdir : i.type = .dir
    · simp only [hdir, if_true]
      exact leaves_refused
    · simp only [hdir, if_false]
      apply leaves_without
      intro m a hle ha
      rw [eq_of_below hi hdir hle ha]
      exact hread

theorem rmdir_leaves : Leaves path fs (k.rmdir fs path) := by
  unfold Kernel.rmdir
  by_cases hrefuse : k.refusesRmdir fs path = true
  · rw [if_pos hrefuse]
    exact leaves_refused
  · rw [if_neg hrefuse]
    cases hi : fs.node path with
    | none => exact leaves_refused
    | some i =>
      by_cases hempty : i.type = .dir ∧ ∀ e ∈ fs.entries, path <+: e.1 → e.1 = path
      · simp only [if_pos hempty]
        apply leaves_without
        intro m a hle ha hmis
        have hm : m = path := hempty.2 (m, a) (PathTree.node_eq_some_iff.mp ha) hle
        rw [hm, hi] at ha
        cases ha
        rcases hmis with h | h <;> exact absurd (hempty.1.symm.trans h) (by decide)
      · simp only [if_neg hempty]
        exact leaves_refused

theorem rmdir_empty (hk : k.Permissive) (hi : fs.node path = some i) (hdir : i.type = .dir)
    (hempty : ∀ e ∈ fs.entries, path <+: e.1 → e.1 = path) : k.rmdir fs path = (true, fs.without path) := by
  have hnot : ¬ k.refusesRmdir fs path = true := Bool.eq_false_iff.mp (hk.rmdir fs path)
  rw [Kernel.rmdir, if_neg hnot, hi]
  exact if_pos ⟨hdir, hempty⟩

/-! ## `Rm`, by what stands at the path -/

variable (fuel : Nat)

theorem lstat_found (hi : fs.node path = some i) : lstat fs path = some i.st_mode := by
  rw [lstat, hi]
  rfl

theorem Rm_none (h : fs.node path = none) : k.Rm (fuel + 1) fs path = some (true, fs) := by
  rw [Kernel.Rm, lstat, h]
  rfl

/-- The second `lstat` finds the file too. -/
theorem Rm_file (hi : fs.node path = some i) (hdir : i.type ≠ .dir) (hread : ¬ Misread i) :
    k.Rm (fuel + 1) fs path = some (k.unlink fs path) := by
  have hfound : ¬ (¬ false = true ∧ lstat fs path = none) := by
    rw [lstat_found hi]
    simp
  rw [Kernel.Rm, lstat_found hi]
  simp only [(st_mode_dir i).mpr ⟨hdir, hread⟩, if_true]
  rw [Kernel.Unlink, if_neg hfound]

theorem Rm_misread (hi : fs.node path = some i) (hmis : Misread i) :
    k.Rm (fuel + 1) fs path = some (false, fs) := by
  have hmode : ¬ i.st_mode &&& S_IFDIR = 0 := fun h => ((st_mode_dir i).mp h).2 hmis
  have hopen : k.opendir fs path = none := by
    unfold Kernel.opendir
    rw [hi]
    rcases hmis with h | h <;> simp [h]
  rw [Kernel.Rm, lstat_found hi]
  simp only [hmode, if_false, hopen]

theorem Rm_dir (hi : fs.node path = some i) (hdir : i.type = .dir) :
    k.Rm (fuel + 1) fs path =
      if k.refusesOpendir fs path = true then some (false, fs)
      else
        (rmEntries (k.Rm fuel) path (k.readdir fs path) true fs).map fun r =>
          (if (k.rmdir r.2 path).1 then r.1 else false, (k.rmdir r.2 path).2) := by
  have hmode : ¬ i.st_mode &&& S_IFDIR = 0 := fun h => ((st_mode_dir i).mp h).1 hdir
  rw [Kernel.Rm, lstat_found hi]
  simp only [hmode, if_false]
  by_cases hrefuse : k.refusesOpendir fs path = true
  · have hopen : k.opendir fs path = none := by rw [Kernel.opendir, if_pos hrefuse]
    rw [hopen, if_pos hrefuse]
  · have hopen : k.opendir fs path = some (k.readdir fs path) := by
      rw [Kernel.opendir, if_neg hrefuse, hi]
      simp only [hdir]
    rw [hopen, if_neg hrefuse]
    dsimp only
    cases rmEntries (k.Rm fuel) path (k.readdir fs path) true fs with
    | none => rfl
    | some r => rfl

end

/-! ## Whole runs -/

section
variable {rm : FS → Path → Option (Bool × FS)} {path : Path}

/-- One round of the loop. -/
theorem rmEntries_cons (d_name : List UInt8) (rest : List (List UInt8)) (ret : Bool) (fs : FS) :
    rmEntries rm path (d_name :: rest) ret fs =
      if h : d_name = dot ∨ d_name = dotdot then rmEntries rm path rest ret fs
      else (rm fs (path ++ [⟨d_name, h⟩])).bind fun r => rmEntries rm path rest r.1 r.2 := by
  rw [rmEntries]
  split
  · rfl
  · split
    · next hrm => rw [hrm, Option.bind_none]
    · next hrm => rw [hrm, Option.bind_some]

theorem rmEntries_cut (hrm : ∀ fs p r, rm fs p = some r → PathTree.Cut Misread p fs r.2) :
    ∀ (names : List (List UInt8)) (ret : Bool) (fs : FS) (r : Bool × FS),
      rmEntries rm path names ret fs = some r → PathTree.Cut Misread path fs r.2 := by
  intro names
  induction names with
  | nil =>
    intro ret fs r h
    cases h
    exact PathTree.Cut.refl _ _ _
  | cons d_name rest ih =>
    intro ret fs r h
    rw [rmEntries_cons] at h
    split at h
    · exact ih ret fs r h
    · obtain ⟨r', hr', hrest⟩ := Option.bind_eq_some_iff.mp h
      exact ((hrm _ _ _ hr').up (List.prefix_append _ _)).trans (ih _ _ _ hrest)

/-- What a run of `Rm` leaves, whatever the kernel refuses. -/
theorem Rm_leaves (k : Kernel) : ∀ (fuel : Nat) (fs : FS) (path : Path) (r : Bool × FS),
    k.Rm fuel fs path = some r → Leaves path fs r := by
  intro fuel
  induction fuel with
  | zero =>
    intro fs path r h
    cases h
  | succ fuel ih =>
    intro fs path r h
    cases hi : fs.node path with
    | none =>
      rw [Rm_none k fuel hi] at h
      cases h
      exact ⟨PathTree.Cut.refl _ _ _, fun _ => hi⟩
    | some i =>
      by_cases hdir : i.type = .dir
      · rw [Rm_dir k fuel hi hdir] at h
        split at h
        · cases h
          exact leaves_refused
        · obtain ⟨r', hloop, rfl⟩ := Option.map_eq_some_iff.mp h
          have hcut := rmEntries_cut (fun fs p r h => (ih fs p r h).cut) _ _ _ _ hloop
          have hlast : Leaves path r'.2 (k.rmdir r'.2 path) := rmdir_leaves k
          refine ⟨hcut.trans hlast.cut, ?_⟩
          intro hret
          -- `true` comes out only behind a `rmdir` that worked
          apply hlast.gone
          by_contra hkept
          simp only [if_neg hkept] at hret
          exact Bool.false_ne_true hret
      · by_cases hmis : Misread i
        · rw [Rm_misread k fuel hi hmis] at h
          cases h
          exact leaves_refused
        · rw [Rm_file k fuel hi hdir hmis] at h
          cases h
          exact unlink_leaves k hi hmis

/-- No path is longer. -/
def Bounded (h : Nat) (fs : FS) : Prop := ∀ m a, fs.node m = some a → m.length ≤ h

theorem rmEntries_returns {h : Nat} (hrm : ∀ fs, Bounded h fs → ∀ n, ∃ r, rm fs (path ++ [n]) = some r ∧ Bounded h r.2) :
    ∀ (names : List (List UInt8)) (ret : Bool) (fs : FS), Bounded h fs →
      ∃ r, rmEntries rm path names ret fs = some r := by
  intro names
  induction names with
  | nil =>
    intro ret fs _
    exact ⟨_, rfl⟩
  | cons d_name rest ih =>
    intro ret fs hfs
    rw [rmEntries_cons]
    split
    · exact ih ret fs hfs
    · next hname =>
      obtain ⟨r, hr, hbound⟩ := hrm fs hfs ⟨d_name, hname⟩
      rw [hr, Option.bind_some]
      exact ih r.1 r.2 hbound

theorem Bounded.cut {h : Nat} {fs fs' : FS} (hfs : Bounded h fs) (hcut : PathTree.Cut Misread path fs fs') :
    Bounded h fs' := fun m a ha => hfs m a (hcut.some ha)

/-- `Rm` returns, whatever the kernel refuses. -/
theorem Rm_returns (k : Kernel) (h : Nat) : ∀ (fuel : Nat) (fs : FS) (path : Path), Bounded h fs → 0 < fuel →
    h + 1 < path.length + fuel → ∃ r, k.Rm fuel fs path = some r := by
  intro fuel
  induction fuel with
  | zero =>
    intro fs path _ hpos _
    exact absurd hpos (Nat.lt_irrefl 0)
  | succ fuel ih =>
    intro fs path hfs _ hfuel
    cases hi : fs.node path with
    | none => exact ⟨_, Rm_none k fuel hi⟩
    | some i =>
      by_cases hdir : i.type = .dir
      · rw [Rm_dir k fuel hi hdir]
        split
        · exact ⟨_, rfl⟩
        · have hlength := hfs path i hi
          have hrm : ∀ fs, Bounded h fs → ∀ n, ∃ r, k.Rm fuel fs (path ++ [n]) = some r ∧ Bounded h r.2 := by
            intro fs hfs n
            have hroom : h + 1 < (path ++ [n]).length + fuel := by
              rw [List.length_append, List.length_singleton]
              omega
            obtain ⟨r, hr⟩ := ih fs (path ++ [n]) hfs (by omega) hroom
            exact ⟨r, hr, hfs.cut (Rm_leaves k fuel fs _ r hr).cut⟩
          obtain ⟨r, hr⟩ := rmEntries_returns hrm (k.readdir fs path) true fs hfs
          rw [hr]
          exact ⟨_, rfl⟩
      · by_cases hmis : Misread i
        · exact ⟨_, Rm_misread k fuel hi hmis⟩
        · exact ⟨_, Rm_file k fuel hi hdir hmis⟩

/-- Nothing at or below the path is misread. -/
def Clean (path : Path) (fs : FS) : Prop := ∀ m a, path <+: m → fs.node m = some a → ¬ Misread a

theorem Clean.cut {p : Path} {fs fs' : FS} (hfs : Clean p fs) (hcut : PathTree.Cut Misread path fs fs') :
    Clean p fs' := fun m a hle ha => hfs m a hle (hcut.some ha)

/-- The loop takes every entry away that it is given. -/
theorem rmEntries_without {h : Nat} (hrm : ∀ fs, Bounded h fs → Clean path fs → ∀ n,
      rm fs (path ++ [n]) = some (true, fs.without (path ++ [n]))) :
    ∀ (names : List (List UInt8)) (fs : FS), Bounded h fs → Clean path fs →
      ∃ fs', rmEntries rm path names true fs = some (true, fs') ∧ PathTree.Cut Misread path fs fs' ∧
        fs'.without path = fs.without path ∧ fs'.node path = fs.node path ∧
        ∀ n : Name, n.val ∈ names → fs'.node (path ++ [n]) = none := by
  intro names
  induction names with
  | nil =>
    intro fs _ _
    exact ⟨fs, rfl, PathTree.Cut.refl _ _ _, rfl, rfl, fun _ hn => absurd hn List.not_mem_nil⟩
  | cons d_name rest ih =>
    intro fs hfs hclean
    rw [rmEntries_cons]
    split
    · next hdots =>
      obtain ⟨fs', hloop, hcut, hwithout, hpath, hgone⟩ := ih fs hfs hclean
      refine ⟨fs', hloop, hcut, hwithout, hpath, ?_⟩
      intro n hn
      rcases List.mem_cons.mp hn with rfl | hn
      · exact absurd hdots n.property
      · exact hgone n hn
    · next hname =>
      have hle : path <+: path ++ [⟨d_name, hname⟩] := List.prefix_append _ _
      have hfirst : PathTree.Cut Misread path fs (fs.without (path ++ [⟨d_name, hname⟩])) :=
        (PathTree.cut_without fun m a hm ha => hclean m a (hle.trans hm) ha).up hle
      obtain ⟨fs', hloop, hcut, hwithout, hpath, hgone⟩ := ih _ (hfs.cut hfirst) (hclean.cut hfirst)
      rw [hrm fs hfs hclean, Option.bind_some]
      refine ⟨fs', hloop, hfirst.trans hcut, hwithout.trans (PathTree.without_without hle), ?_, ?_⟩
      · have hshort : ¬ path ++ [⟨d_name, hname⟩] <+: path := by
          intro hback
          have hlen := hback.length_le
          rw [List.length_append, List.length_singleton] at hlen
          omega
        rw [hpath, PathTree.node_without, if_neg hshort]
      · intro n hn
        rcases List.mem_cons.mp hn with heq | hn
        · have hn' : n = ⟨d_name, hname⟩ := Subtype.ext heq
          rw [hn']
          apply hcut.none
          rw [PathTree.node_without, if_pos (List.prefix_refl _)]
        · exact hgone n hn

/-- With a permissive kernel all goes, where nothing is misread. -/
theorem Rm_without {k : Kernel} (hk : k.Permissive) (h : Nat) : ∀ (fuel : Nat) (fs : FS) (path : Path), Bounded h fs →
    Clean path fs → 0 < fuel → h + 1 < path.length + fuel → k.Rm fuel fs path = some (true, fs.without path) := by
  intro fuel
  induction fuel with
  | zero =>
    intro fs path _ _ hpos _
    exact absurd hpos (Nat.lt_irrefl 0)
  | succ fuel ih =>
    intro fs path hfs hclean _ hfuel
    cases hi : fs.node path with
    | none => rw [Rm_none k fuel hi, PathTree.without_of_none hi]
    | some i =>
      have hread := hclean path i (List.prefix_refl path) hi
      by_cases hdir : i.type = .dir
      · have hlength := hfs path i hi
        have hrm : ∀ fs, Bounded h fs → Clean path fs → ∀ n,
            k.Rm fuel fs (path ++ [n]) = some (true, fs.without (path ++ [n])) := by
          intro fs hfs hclean n
          apply ih fs (path ++ [n]) hfs
          · exact fun m a hm => hclean m a ((List.prefix_append _ _).trans hm)
          · omega
          · rw [List.length_append, List.length_singleton]
            omega
        obtain ⟨fs', hloop, hcut, hwithout, hpath, hgone⟩ := rmEntries_without hrm (k.readdir fs path) fs hfs hclean
        -- what is left of the directory is empty
        have hempty : ∀ e ∈ fs'.entries, path <+: e.1 → e.1 = path := by
          rintro ⟨m, a⟩ he ⟨rest, rfl⟩
          cases rest with
          | nil => exact List.append_nil path
          | cons n rest =>
            have hn : fs'.node (path ++ [n]) = none := by
              by_cases hlisted : n.val ∈ k.readdir fs path
              · exact hgone n hlisted
              · apply hcut.none
                rw [k.listed, Option.not_isSome_iff_eq_none] at hlisted
                exact hlisted
            have hnone : fs'.node (path ++ n :: rest) = none :=
              PathTree.node_below_none hn ⟨rest, by simp⟩
            rw [PathTree.node_eq_some_iff.mpr he] at hnone
            cases hnone
        have hremoved := rmdir_empty k hk (hpath.trans hi) hdir hempty
        have hnot : ¬ k.refusesOpendir fs path = true := Bool.eq_false_iff.mp (hk.opendir fs path)
        rw [Rm_dir k fuel hi hdir, if_neg hnot, hloop, Option.map_some, hremoved, hwithout]
        rfl
      · have hnot : ¬ k.refusesUnlink fs path = true := Bool.eq_false_iff.mp (hk.unlink fs path)
        rw [Rm_file k fuel hi hdir hread, Kernel.unlink, if_neg hnot, hi]
        simp only [hdir, if_false]

end

/-! ## A kernel that refuses nothing -/

/-- The names in a directory. -/
def names (fs : FS) (path : Path) : List Name :=
  fs.entries.filterMap fun e => if e.1.dropLast = path then e.1.getLast? else none

theorem mem_names {fs : FS} {path : Path} {n : Name} : n ∈ names fs path ↔ (fs.node (path ++ [n])).isSome = true := by
  rw [names, List.mem_filterMap, Option.isSome_iff_exists]
  constructor
  · rintro ⟨⟨m, a⟩, he, hn⟩
    by_cases hdir : m.dropLast = path
    · rw [if_pos hdir] at hn
      have hm : m = path ++ [n] := by rw [← hdir, List.dropLast_append_getLast? n hn]
      exact ⟨a, PathTree.node_eq_some_iff.mpr (hm ▸ he)⟩
    · rw [if_neg hdir] at hn
      cases hn
  · rintro ⟨a, ha⟩
    exact ⟨(path ++ [n], a), PathTree.node_eq_some_iff.mp ha, by simp⟩

def Kernel.plain : Kernel where
  readdir fs path := dot :: dotdot :: (names fs path).map Subtype.val
  listed fs path n := by
    have hdots := not_or.mp n.property
    rw [List.mem_cons, List.mem_cons, or_iff_right hdots.1, or_iff_right hdots.2, ← mem_names,
      List.mem_map_of_injective Subtype.val_injective]
  follow _ _ := none
  refusesUnlink _ _ := false
  refusesRmdir _ _ := false
  refusesOpendir _ _ := false

theorem plain_permissive : Kernel.plain.Permissive where
  unlink _ _ := rfl
  rmdir _ _ := rfl
  opendir _ _ := rfl

/-! ## What `Rm` promises -/

/-- `Rm` returns; where nothing is refused it takes the path away with all that is below and says so; in any
case it touches nothing else, and what it says is gone is gone. -/
structure RmRight (k : Kernel) (fs : FS) (path : Path) : Prop where
  returns : ∃ n, ∀ fuel, n ≤ fuel → ∃ r, k.Rm fuel fs path = some r
  removes : k.Permissive → ∃ n, ∀ fuel, n ≤ fuel → k.Rm fuel fs path = some (true, fs.without path)
  outside : ∀ fuel r, k.Rm fuel fs path = some r → ∀ m, ¬ path <+: m → r.2.node m = fs.node m
  truthful : ∀ fuel fs', k.Rm fuel fs path = some (true, fs') → fs'.node path = none

/-- **Recursive removal** does what it promises, for every kernel, if and only if there is no socket and no block
device at or below the path. -/
theorem rm_right_iff (fs : FS) (path : Path) :
    (∀ k : Kernel, RmRight k fs path) ↔
      ∀ m i, path <+: m → fs.node m = some i → i.type ≠ .sock ∧ i.type ≠ .blk := by
  have hbounded : Bounded fs.height fs := fun m a ha => PathTree.length_le_height ha
  constructor
  · intro h m i hle hi
    obtain ⟨n, hn⟩ := (h Kernel.plain).removes plain_permissive
    have hleaves := Rm_leaves Kernel.plain n fs path _ (hn n (Nat.le_refl n))
    rw [← not_or]
    intro hmis
    -- it is left, and should be gone
    have hleft := hleaves.cut.stays m i hi hmis
    rw [PathTree.node_without, if_pos hle] at hleft
    cases hleft
  · intro h k
    have hclean : Clean path fs := fun m i hle hi => not_or.mpr (h m i hle hi)
    refine ⟨⟨fs.height + 2, ?_⟩, fun hk => ⟨fs.height + 2, ?_⟩, ?_, ?_⟩
    · intro fuel hfuel
      exact Rm_returns k fs.height fuel fs path hbounded (by omega) (by omega)
    · intro fuel hfuel
      exact Rm_without hk fs.height fuel fs path hbounded hclean (by omega) (by omega)
    · intro fuel r hr
      exact (Rm_leaves k fuel fs path r hr).cut.outside
    · intro fuel fs' hr
      exact (Rm_leaves k fuel fs path _ hr).gone rfl

/-- A directory with a socket in it. -/
def runDirectory : FS where
  entries := [([⟨[0x72], by decide⟩], ⟨.dir, 0o755⟩), ([⟨[0x72], by decide⟩, ⟨[0x73], by decide⟩], ⟨.sock, 0o755⟩),
    ([], ⟨.dir, 0o755⟩)]
  unique := by decide
  parents := by
    intro l n a h
    simp only [List.mem_cons, Prod.mk.injEq, List.not_mem_nil, or_false] at h
    rcases h with ⟨h, -⟩ | ⟨h, -⟩ | ⟨h, -⟩
    · have hl := congrArg List.dropLast h
      rw [List.dropLast_concat] at hl
      exact ⟨⟨.dir, 0o755⟩, by simp [hl], rfl⟩
    · have hl := congrArg List.dropLast h
      rw [List.dropLast_concat] at hl
      exact ⟨⟨.dir, 0o755⟩, by simp [hl], rfl⟩
    · exact absurd h (List.concat_ne_nil n l)

/-- Neither the socket nor its directory goes. -/
theorem rm_leaves_sockets :
    (Kernel.plain.Rm 4 runDirectory [⟨[0x72], by decide⟩]).map Prod.fst = some false ∧
      (Kernel.plain.Rm 4 runDirectory [⟨[0x72], by decide⟩]).map (fun r => r.2.entries) = some runDirectory.entries ∧
      ¬ ∀ (fs : FS) (path : Path) (k : Kernel), RmRight k fs path := by
  refine ⟨by decide, by decide, ?_⟩
  intro h
  have hall := (rm_right_iff runDirectory []).mp (h runDirectory [])
  exact absurd rfl (hall [⟨[0x72], by decide⟩, ⟨[0x73], by decide⟩] ⟨.sock, 0o755⟩ List.nil_prefix (by decide)).1

end Sylar.Util
