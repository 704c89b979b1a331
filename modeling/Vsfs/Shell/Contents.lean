import Vsfs.Shell.Spec
import Vsfs.Volume.Durable
import Vsfs.Volume.Lookup

/-!
# Trees on a volume

`Contents B v t ino`: the volume `v` holds the files of `t`, the file `w` in the inode `ino w`. A file that has been
written is one block, the text and zeros behind it.

- `Tree.lookup_name`: the search of the directory is that of the tree;
- `Contents.congr`: what must be kept for the files to be kept;
- `Contents.alike`, `fresh_contents`: after a mount, and on a fresh volume.
-/

set_option autoImplicit false

namespace Vsfs

open Function ByteSeq WordBits

variable {n B i : Nat} {v w : Volume} {t : Tree} {ino : Word → Nat} {name : Word}

/-! ## The relation -/

/-- The entries of the directory behind `.` and `..`. -/
def Tree.log (t : Tree) (ino : Word → Nat) : List (CStr × Nat) := t.names.map fun w => (w.cstr, ino w)

/-- Inode `i` holds the text of a file: no block, or one that is filled up with zeros. -/
def Held (v : Volume) (i : Nat) : Option Word → Prop
  | none => (v.inode i).blocks = 0 ∧ (v.inode i).size = 0
  | some text => (v.inode i).blocks = 1 ∧ (v.inode i).size = 4096 ∧ text.chars.length < blockSize ∧
      ∀ k, k < 4096 → v.byteAt i k = text.chars.getD k 0

/-- The files that have been written. -/
def Tree.written (t : Tree) : Nat := t.files.countP fun f => f.2.isSome

/-- The volume holds the tree: the directory in one block, each file in its inode; the inodes that no file has are free
and empty, and there are blocks for the files that have not been written. -/
structure Contents (B : Nat) (v : Volume) (t : Tree) (ino : Word → Nat) : Prop where
  dir : Directory v (entries (t.log ino))
  root : (v.inode 0).blocks = 1
  inj : ∀ a b, a ∈ t.names → b ∈ t.names → ino a = ino b → a = b
  inode : ∀ a, a ∈ t.names → ino a ≠ 0 ∧ ino a < nrInodes
  taken : ∀ i, i < nrInodes → (bit v.cached.ibitmap i = false ↔ i = 0 ∨ ∃ a, a ∈ t.names ∧ ino a = i)
  held : ∀ f, f ∈ t.files → Held v (ino f.1) f.2
  spare : ∀ i, i < nrInodes → bit v.cached.ibitmap i = true → (v.inode i).blocks = 0
  room : 14 ≤ v.room B + t.written

/-! ## Names -/

@[simp] theorem log_length (t : Tree) (ino : Word → Nat) : (t.log ino).length = t.files.length := by
  simp [Tree.log, Tree.names]

theorem mem_names {f : Word × Option Word} (h : f ∈ t.files) : f.1 ∈ t.names := List.mem_map_of_mem h

theorem exists_file (h : name ∈ t.names) : ∃ text, (name, text) ∈ t.files := by
  obtain ⟨⟨a, text⟩, hf, rfl⟩ := List.mem_map.mp h
  exact ⟨text, hf⟩

/-- The names of a tree are names of files. -/
theorem Tree.isName (h : name ∈ t.names) : name.IsName := by
  obtain ⟨text, hf⟩ := exists_file h
  exact t.named _ hf

theorem lookup_file {fs : List (Word × Option Word)} {text : Option Word} (hnodup : (fs.map Prod.fst).Nodup)
    (h : (name, text) ∈ fs) : fs.lookup name = some text := by
  induction fs with
  | nil => cases h
  | cons f fs ih =>
    rw [List.map_cons, List.nodup_cons] at hnodup
    rw [List.lookup_cons]
    rcases List.mem_cons.mp h with rfl | h
    · rw [beq_self_eq_true]
    · have hne : (name == f.1) = false := by
        rw [beq_eq_false_iff_ne]
        rintro rfl
        exact hnodup.1 (List.mem_map.mpr ⟨_, h, rfl⟩)
      rw [hne]
      exact ih hnodup.2 h

/-- A file of the tree is the only one of its name. -/
theorem Tree.read_of_mem {text : Option Word} (h : (name, text) ∈ t.files) : t.read name = some text :=
  lookup_file t.nodup h

theorem lookup_words (ws : List Word) (ino : Word → Nat) (name : Word) :
    (ws.map fun w => (w.cstr, ino w)).lookup name.cstr = if name ∈ ws then some (ino name) else none := by
  induction ws with
  | nil => rfl
  | cons w ws ih =>
    rw [List.map_cons, List.lookup_cons]
    by_cases h : name = w
    · subst h
      simp
    · have hne : (name.cstr == w.cstr) = false := beq_eq_false_iff_ne.mpr fun he => h (Word.cstr_inj he)
      rw [hne, ih]
      simp [h]

/-- **The search of the directory** for a word that is neither `.` nor `..` is that of the tree. -/
theorem Tree.lookup_name (t : Tree) (ino : Word → Nat) (h1 : name.cstr ≠ dotName) (h2 : name.cstr ≠ dotDotName) :
    (entries (t.log ino)).lookup name.cstr = if name ∈ t.names then some (ino name) else none := by
  unfold entries Tree.log
  rw [List.lookup_cons, beq_eq_false_iff_ne.mpr h1, List.lookup_cons, beq_eq_false_iff_ne.mpr h2]
  exact lookup_words _ _ _

/-- The directory has the name exactly if the tree does not take it for a new file. -/
theorem Tree.lookup_isSome (t : Tree) (ino : Word → Nat) (name : Word) (hs : name.cstr.strlen < filenameLen) :
    ((entries (t.log ino)).lookup name.cstr).isSome = false ↔ name.IsName ∧ name ∉ t.names := by
  by_cases h1 : name.cstr = dotName
  · rw [h1]
    exact ⟨fun h => (by cases h), fun h => absurd h1 h.1.2.1⟩
  by_cases h2 : name.cstr = dotDotName
  · rw [h2]
    exact ⟨fun h => (by cases h), fun h => absurd h2 h.1.2.2⟩
  rw [t.lookup_name ino h1 h2]
  split
  case isTrue hm => exact ⟨fun h => (by cases h), fun h => absurd hm h.2⟩
  case isFalse hm => exact ⟨fun _ => ⟨⟨hs, h1, h2⟩, hm⟩, fun _ => rfl⟩

theorem Contents.length (h : Contents B v t ino) : t.files.length ≤ 14 := by
  have hfits := h.dir.fits
  rw [h.root] at hfits
  simp only [entries, List.length_cons, log_length] at hfits
  omega

/-! ## What the relation looks at -/

/-- The directory is kept when the slots of its entries are. -/
theorem Directory.congr {es : List (CStr × Nat)} (h : Directory v es) (hsize : (w.inode 0).size = (v.inode 0).size)
    (hblocks : (w.inode 0).blocks = (v.inode 0).blocks) (hl1 : ∀ k, k < 49 → (w.inode 0).l1 k = (v.inode 0).l1 k)
    (hslot : ∀ k, k < es.length → ∀ j, j < 256 →
      w.disk (w.lba (k / 16)) (256 * (k % 16) + j) = v.disk (v.lba (k / 16)) (256 * (k % 16) + j)) : Directory w es := by
  have hb := h.blocks
  refine ⟨hsize.trans h.entry, by rw [hblocks]; exact h.fits, by rw [hblocks]; exact hb, fun k hk => ?_, h.short,
    fun k e he => ?_, fun k e he => ?_⟩
  · rw [hblocks] at hk
    rw [hl1 k (by omega), h.map k hk]
  · have hk := (List.getElem?_eq_some_iff.mp he).1
    rw [(slot_congr (hslot k hk)).2 _ (h.short e (List.mem_of_getElem? he))]
    exact h.named k e he
  · have hk := (List.getElem?_eq_some_iff.mp he).1
    rw [(slot_congr (hslot k hk)).1]
    exact h.inode k e he

/-- A change that keeps the root inode and the slots keeps the directory. -/
theorem Directory.kept {es : List (CStr × Nat)} (h : Directory v es) (hk : RootKept v w) : Directory w es := by
  have hf := h.fits
  refine h.congr hk.entry hk.blocks (fun k _ => by rw [hk.l1]) fun k hlt j hj => ?_
  have hs := hk.slots k (by rw [h.entry]; exact hlt) j hj
  unfold Volume.slotByte at hs
  rw [hk.l1, h.map _ (by omega)] at hs
  exact hs

theorem Held.congr {text : Option Word} (h : Held v i text) (hb : (w.inode i).blocks = (v.inode i).blocks)
    (hs : (w.inode i).size = (v.inode i).size)
    (hbytes : ∀ k, k < 4096 → (v.inode i).blocks = 1 → w.byteAt i k = v.byteAt i k) : Held w i text := by
  cases text with
  | none => exact ⟨hb.trans h.1, hs.trans h.2⟩
  | some text =>
    obtain ⟨h1, h2, h3, h4⟩ := h
    exact ⟨hb.trans h1, hs.trans h2, h3, fun k hk => (hbytes k hk h1).trans (h4 k hk)⟩

/-- **What must be kept** for the files to be kept: the directory, the sizes, the bytes and the bitmaps. -/
theorem Contents.congr (h : Contents B v t ino) (hd : Directory w (entries (t.log ino)))
    (hb : ∀ i, i < nrInodes → (w.inode i).blocks = (v.inode i).blocks)
    (hs : ∀ i, i < nrInodes → (w.inode i).size = (v.inode i).size)
    (hi : ∀ i, i < nrInodes → bit w.cached.ibitmap i = bit v.cached.ibitmap i) (hr : w.room B = v.room B)
    (hbytes : ∀ i, i < nrInodes → i ≠ 0 → ∀ k, k < 4096 → (v.inode i).blocks = 1 → w.byteAt i k = v.byteAt i k) :
    Contents B w t ino := by
  refine ⟨hd, (hb 0 (by decide)).trans h.root, h.inj, h.inode, fun i hlt => ?_, fun f hf => ?_, fun i hlt hf => ?_, ?_⟩
  · rw [hi i hlt]
    exact h.taken i hlt
  · obtain ⟨h0, hlt⟩ := h.inode _ (mem_names hf)
    exact (h.held f hf).congr (hb _ hlt) (hs _ hlt) (hbytes _ hlt h0)
  · rw [hi i hlt] at hf
    exact (hb i hlt).trans (h.spare i hlt hf)
  · rw [hr]
    exact h.room

/-- Time stamps do not count. -/
theorem Contents.touched (h : Contents B v t ino) (ht : Touched v w) : Contents B w t ino := by
  have hofs : w.cached.sbi.ofsDregion = v.cached.sbi.ofsDregion := by rw [ht.sbi]
  refine h.congr (h.dir.kept ht.rootKept) (fun i _ => ht.blocks i) (fun i _ => ht.size i)
    (fun i _ => by rw [ht.ibitmap]) (by unfold Volume.room; rw [ht.dbitmap, ht.sbi]) fun i _ _ k hk hb => ?_
  unfold Volume.byteAt Paged.cell Volume.page
  have hval : w.val (i, dataRef (k / 4096)) = v.val (i, dataRef (k / 4096)) := by
    rw [show k / 4096 = 0 by omega]
    exact congrFun (ht.map i).1 0
  rw [lba_congr hofs hval, ht.disk]

/-! ## Mounts -/

/-- A mount brings the files back. -/
theorem Contents.alike (h : Contents B v t ino) (ha : v.Alike w) (hs : v.Sound B) : Contents B w t ino := by
  have haddr := hs.owns.addr
  have h0 := ha.inode 0 (by decide)
  have hB : 0 < B := Nat.lt_of_le_of_lt (Nat.zero_le _)
    (hs.owns.owned.lt (0, .l1 0) (directory_used (by rw [h.root]; decide) hs.rootBlocks))
  have hlen := h.length
  have hentries : (entries (t.log ino)).length ≤ 16 := by simp only [entries, List.length_cons, log_length]; omega
  refine h.congr ?_ (fun i hi => (ha.inode i hi).blocks) (fun i hi => (ha.inode i hi).size) (fun i hi => ha.ibit hi) ?_
    fun i hi _ k hk hb => ?_
  · refine h.dir.congr h0.size h0.blocks h0.l1 fun k hk j _ => ?_
    rw [show k / 16 = 0 by omega, ha.disk_lba haddr hB]
  · unfold Volume.room
    rw [ha.bits]
    refine congrArg Finset.card (Finset.ext fun a => ?_)
    have hle := dbitmapBits_le v.cached.sbi
    rw [mem_freeBelow, mem_freeBelow]
    exact and_congr_right fun hlt => by rw [ha.dbit (by omega)]
  · exact ha.byteAt hs (data_used hi (by omega) (by unfold level3Limit; omega))

/-- A device with blocks for 14 files. When the number of data blocks is a multiple of `2 ^ 20`, `get_free_dblock` sees
none of them. -/
structure Roomy (n : Nat) : Prop where
  low : 2052 ≤ n
  high : n < 2 ^ 32
  blocks : 15 ≤ (superblockInfo n).nrDregionBlocks
  seen : (superblockInfo n).nrDregionBlocks % 2 ^ 20 ≠ 0

theorem Roomy.room (h : Roomy n) (disk : Nat → Block) (seg : Bytes) :
    14 ≤ (State.fresh n disk seg).vol.room (superblockInfo n).nrDregionBlocks := by
  obtain ⟨hl, hu, hB, hseen⟩ := h
  obtain ⟨hd1, _, _, _⟩ := dbitmapBlocks_bounds hl hu
  have hbits : 15 ≤ dbitmapBits (superblockInfo n) := by
    unfold dbitmapBits blockSize
    rw [(superblockInfo_layout hl hu).nrDbitmapBlocks]
    generalize (superblockInfo n).nrDregionBlocks = b at hB hseen ⊢
    omega
  rw [fresh_room hl hu]
  exact Nat.le_sub_one_of_lt (Nat.lt_min.mpr ⟨hB, hbits⟩)

/-- **A fresh volume** holds no files. -/
theorem fresh_contents (h : Roomy n) (disk : Nat → Block) (seg : Bytes) (ino : Word → Nat) :
    Contents (superblockInfo n).nrDregionBlocks (State.fresh n disk seg).vol Tree.empty ino := by
  have hl' := h.low
  have hu := h.high
  refine ⟨fresh_directory hl' hu disk seg, (fresh_root hl' hu disk seg).1, fun a b ha => absurd ha List.not_mem_nil,
    fun a ha => absurd ha List.not_mem_nil, fun i hi => ?_, fun f hf => absurd hf List.not_mem_nil, fun i hi hb => ?_, ?_⟩
  · rw [fresh_ibitmap hl' hu disk seg hi]
    simp [Tree.names, Tree.empty]
  · refine (fresh_inode hl' hu disk seg ?_ hi).1
    rintro rfl
    rw [fresh_ibitmap hl' hu disk seg (by decide)] at hb
    contradiction
  · exact Nat.le_add_right_of_le (h.room disk seg)

end Vsfs
