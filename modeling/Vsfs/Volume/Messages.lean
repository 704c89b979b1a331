import Vsfs.Model.Messages
import Vsfs.Volume.Cases

/-!
# Messages and failures

The checks that make a call fail are those that print.

- `prints_reported`: a call that returns has printed at most one text, and if it has printed one it returns -1;
- `creat_prints`, `open_prints`, `stat_prints`, `close_prints`: these four print whenever they return -1.
-/

set_option autoImplicit false

namespace Vsfs

open Function ByteSeq

variable {s t : State} {now : Nat} {ret fildes : Int} {c : Call}

/-- A failed call prints one text, any other call nothing. -/
def Reported (ret : Int) (out : List String) : Prop := if ret = -1 then out.length = 1 else out = []

theorem reported_failed {out : List String} (h : out.length = 1) : Reported (-1) out := by
  unfold Reported
  rwa [if_pos rfl]

theorem reported_silent (h : ret ≠ -1) : Reported ret [] := by
  unfold Reported
  rw [if_neg h]

/-- **`vsfs_creat`** prints exactly when it fails. -/
theorem creat_prints {name : CStr} {blockNum : UInt32} (h : vsfsCreat now name blockNum s = .ok (ret, t)) :
    ∃ out, vsfsCreatPrints name s = .ok out ∧ Reported ret out := by
  unfold vsfsCreatPrints
  obtain ⟨rfl, hr⟩ | ⟨hlen, hdup, i, c, -, hent⟩ := vsfsCreat_cases h
  · cases hr with
    | tooLong hlong => exact ⟨_, if_pos hlong, reported_failed rfl⟩
    | duplicate hlen hdup =>
      rw [if_neg (by omega), hdup]
      exact ⟨_, rfl, reported_failed rfl⟩
  · rw [if_neg (by omega), hdup]
    cases hent with
    | slot hs => exact ⟨_, if_pos hs, reported_silent (by decide)⟩
    | grow hs hb => exact ⟨_, (if_neg hs).trans (if_pos hb), reported_silent (by decide)⟩
    | full hs hb => exact ⟨_, (if_neg hs).trans (if_neg (by omega)), reported_failed rfl⟩

/-- **`vsfs_open`** prints exactly when it fails. -/
theorem open_prints {pathname : CStr} {flags : Int} (h : vsfsOpen now pathname flags s = .ok (ret, t)) :
    ∃ out, vsfsOpenPrints pathname s = .ok out ∧ Reported ret out := by
  unfold vsfsOpenPrints
  unfold vsfsOpen at h
  dsimp only at h
  split at h
  case isTrue hlong =>
    cases h
    exact ⟨_, if_pos hlong, reported_failed rfl⟩
  case isFalse hlen =>
  rw [if_neg hlen]
  rw [attach_withDesc, initBasePtr_attach] at h
  obtain ⟨⟨fd, a, d⟩, hadd, h⟩ := ExceptLib.bind_eq_ok.mp h
  obtain ⟨hcount, -, -⟩ := addFdTable_optab hadd
  simp only [initBasePtr_vol, attach_vol] at h
  obtain ⟨found, hlook, h⟩ := ExceptLib.bind_eq_ok.mp h
  rw [hlook]
  cases found with
  | none =>
    obtain ⟨d', -, h⟩ := ExceptLib.bind_eq_ok.mp h
    cases h
    exact ⟨_, rfl, reported_failed rfl⟩
  | some target =>
    obtain ⟨info, -, h⟩ := ExceptLib.bind_eq_ok.mp h
    dsimp only at hcount h
    rw [hcount] at h
    split at h
    case isTrue hfull =>
      obtain ⟨d', -, h⟩ := ExceptLib.bind_eq_ok.mp h
      cases h
      exact ⟨_, if_pos hfull, reported_failed rfl⟩
    case isFalse hfull =>
      cases h
      exact ⟨_, if_neg hfull, reported_silent fun he => absurd (addFdTable_pos hadd) (by rw [he]; decide)⟩

/-- **`vsfs_stat`** prints exactly when it fails. -/
theorem stat_prints {pathname : CStr} {fre : Option FileStat} (h : vsfsStat pathname s = .ok (ret, fre, t)) :
    ∃ out, vsfsStatPrints pathname s = .ok out ∧ Reported ret out := by
  unfold vsfsStatPrints
  obtain ⟨-, ⟨hl, rfl, -⟩ | ⟨i, hl, rfl, -⟩⟩ := vsfsStat_cases h
  · rw [hl]
    exact ⟨_, rfl, reported_failed rfl⟩
  · rw [hl]
    exact ⟨_, rfl, reported_silent (by decide)⟩

/-- What `vsfs_close` does with the slot, and what it prints then. -/
theorem dropSlot_prints (d : Desc) (p : Nat) : (d.dropSlot p).1 = true ∧ d.dropSlotPrints p = [] ∨
    (d.dropSlot p).1 = false ∧ (d.dropSlotPrints p).length = 1 := by
  unfold Desc.dropSlot Desc.dropSlotPrints
  split_ifs <;> simp_all

/-- **`vsfs_close`** prints exactly when it fails. -/
theorem close_prints (h : vsfsClose fildes s = .ok (ret, t)) :
    ∃ out, vsfsClosePrints fildes s = .ok out ∧ Reported ret out := by
  unfold vsfsClosePrints
  unfold vsfsClose at h
  rcases ht : s.desc.fdTable with _ | _ | ⟨_ | hd, tl⟩ <;> simp only [ht] at h ⊢
  case null =>
    cases h
    exact ⟨_, rfl, reported_failed rfl⟩
  case freed => cases h
  case table.none =>
    cases h
    exact ⟨_, rfl, reported_failed rfl⟩
  obtain ⟨e, he, h⟩ := ExceptLib.bind_eq_ok.mp h
  rw [he, ExceptLib.ok_bind]
  split at h
  case isTrue hno =>
    cases h
    by_cases hp : e.path = []
    · exact ⟨_, if_pos hp, reported_failed rfl⟩
    · exact ⟨_, (if_neg hp).trans (if_pos (hno.resolve_left hp)), reported_failed rfl⟩
  case isFalse hyes =>
  rw [not_or] at hyes
  rw [if_neg hyes.1, if_neg hyes.2]
  obtain ⟨⟨rm, d⟩, hu, h⟩ := ExceptLib.bind_eq_ok.mp h
  rw [hu, ExceptLib.ok_bind]
  cases rm with
  | none =>
    cases h
    exact ⟨_, rfl, reported_failed rfl⟩
  | some a =>
    obtain ⟨fd, hfd, h⟩ := ExceptLib.bind_eq_ok.mp h
    obtain ⟨p, hp, h⟩ := ExceptLib.bind_eq_ok.mp h
    obtain ⟨f, -, h⟩ := ExceptLib.bind_eq_ok.mp h
    simp only [hfd, hp, ExceptLib.ok_bind]
    have hsame : (d.freeFile p).dropSlotPrints p = d.dropSlotPrints p := by
      unfold Desc.dropSlotPrints
      rw [freeFile_opFtable, freeFile_count]
    refine ⟨_, rfl, ?_⟩
    rcases hdrop : (d.freeFile p).dropSlot p with ⟨ok, d'⟩
    rw [hdrop] at h
    have hd := dropSlot_prints (d.freeFile p) p
    rw [hdrop, hsame] at hd
    cases ok with
    | false =>
      cases h
      obtain ⟨hf, -⟩ | ⟨-, hlen⟩ := hd
      · cases hf
      · exact reported_failed hlen
    | true =>
      cases h
      obtain ⟨-, hnil⟩ | ⟨hf, -⟩ := hd
      · rw [hnil]
        exact reported_silent (by decide)
      · cases hf

/-! ## Reading, writing and seeking -/

/-- At most one text, and only if the call fails. -/
def MayReport (ret : Int) (out : List String) : Prop := out = [] ∨ ret = -1 ∧ out.length = 1

theorem Reported.may {out : List String} (h : Reported ret out) : MayReport ret out := by
  unfold Reported at h
  split at h
  case isTrue hr => exact Or.inr ⟨hr, h⟩
  case isFalse => exact Or.inl h

/-- **`vsfs_write`**. It also returns -1 for a request of `2 ^ 32 - 1` bytes that it carries out. -/
theorem write_prints {buf : Bytes} {nbyte : UInt64} (h : vsfsWrite now fildes buf nbyte s = .ok (ret, t)) :
    ∃ out, vsfsWritePrints fildes nbyte s = .ok out ∧ MayReport ret out := by
  unfold vsfsWritePrints
  unfold vsfsWrite at h
  obtain ⟨found, hfind, h⟩ := ExceptLib.bind_eq_ok.mp h
  cases found with
  | none => cases h
  | some x =>
  obtain ⟨b, e⟩ := x
  obtain ⟨p, hp, h⟩ := ExceptLib.bind_eq_ok.mp h
  simp only [hfind, hp, ExceptLib.ok_bind]
  dsimp only at h
  split at h
  case isTrue hoc =>
    cases h
    exact ⟨_, if_pos hoc, Or.inr ⟨rfl, rfl⟩⟩
  case isFalse hoc =>
  rw [if_neg hoc]
  obtain ⟨fl, hfl, h⟩ := ExceptLib.bind_eq_ok.mp h
  simp only [hfl, ExceptLib.ok_bind]
  split_ifs at h ⊢
  · cases h; exact ⟨_, rfl, Or.inr ⟨rfl, rfl⟩⟩
  · cases h; exact ⟨_, rfl, Or.inr ⟨rfl, rfl⟩⟩
  · cases h; exact ⟨_, rfl, Or.inr ⟨rfl, rfl⟩⟩
  · cases h; exact ⟨_, rfl, Or.inr ⟨rfl, rfl⟩⟩
  · exact ⟨_, rfl, Or.inl rfl⟩

/-- **`vsfs_read`**. At the end of the file it returns -1 without a text. -/
theorem read_prints {buf buf' : Bytes} {nbyte : UInt64} (h : vsfsRead now fildes buf nbyte s = .ok (ret, buf', t)) :
    ∃ out, vsfsReadPrints fildes s = .ok out ∧ MayReport ret out := by
  unfold vsfsReadPrints
  unfold vsfsRead at h
  split at h
  case isTrue hoc =>
    cases h
    exact ⟨_, if_pos hoc, Or.inr ⟨rfl, rfl⟩⟩
  case isFalse hoc =>
  rw [if_neg hoc]
  obtain ⟨found, hfind, h⟩ := ExceptLib.bind_eq_ok.mp h
  rw [hfind, ExceptLib.ok_bind]
  cases found with
  | none =>
    cases h
    exact ⟨_, rfl, Or.inr ⟨rfl, rfl⟩⟩
  | some x =>
  obtain ⟨b, e⟩ := x
  obtain ⟨fl, hfl, h⟩ := ExceptLib.bind_eq_ok.mp h
  simp only [hfl, ExceptLib.ok_bind]
  split_ifs at h ⊢
  · cases h; exact ⟨_, rfl, Or.inr ⟨rfl, rfl⟩⟩
  · exact ⟨_, rfl, Or.inl rfl⟩

/-- **`vsfs_lseek`**. -/
theorem lseek_prints {offset : UInt64} {whence : Int} {r : Nat} (h : vsfsLseek fildes offset whence s = .ok (r, t)) :
    ∃ out, vsfsLseekPrints fildes offset whence s = .ok out ∧ MayReport (if r = seekError then -1 else r) out := by
  -- the error is the value `seekError`
  suffices hmay : ∃ out, vsfsLseekPrints fildes offset whence s = .ok out ∧
      (out = [] ∨ r = seekError ∧ out.length = 1) by
    obtain ⟨out, hout, hr⟩ := hmay
    exact ⟨out, hout, hr.imp_right fun hr => ⟨if_pos hr.1, hr.2⟩⟩
  have hfail : ∀ m : String, [m] = [] ∨ seekError = seekError ∧ [m].length = 1 := fun m => Or.inr ⟨rfl, rfl⟩
  unfold vsfsLseekPrints
  unfold vsfsLseek at h
  split at h
  case isTrue hoc =>
    cases h
    exact ⟨_, if_pos hoc, hfail _⟩
  case isFalse hoc =>
  rw [if_neg hoc]
  obtain ⟨s', hs', h⟩ := ExceptLib.bind_eq_ok.mp h
  have hd : s'.desc = s.desc := by rw [(setInodeReg_eq_ok hs').1]
  rw [hd] at h
  obtain ⟨found, hfind, h⟩ := ExceptLib.bind_eq_ok.mp h
  rw [hfind, ExceptLib.ok_bind]
  cases found with
  | none =>
    cases h
    exact ⟨_, rfl, hfail _⟩
  | some x =>
  obtain ⟨b, e⟩ := x
  obtain ⟨p, hp, h⟩ := ExceptLib.bind_eq_ok.mp h
  obtain ⟨⟨a, f⟩, hf, h⟩ := ExceptLib.bind_eq_ok.mp h
  simp only [hp, hf, ExceptLib.ok_bind]
  dsimp only at h
  split_ifs at h ⊢
  · cases h; exact ⟨_, rfl, hfail _⟩
  · exact ⟨_, rfl, Or.inl rfl⟩
  · exact ⟨_, rfl, Or.inl rfl⟩
  · cases h; exact ⟨_, rfl, hfail _⟩
  · exact ⟨_, rfl, Or.inl rfl⟩
  · cases h; exact ⟨_, rfl, hfail _⟩
  · exact ⟨_, rfl, Or.inl rfl⟩
  · cases h; exact ⟨_, rfl, hfail _⟩

/-- **Every text comes with a failure**: a call that returns has printed nothing, or it has printed one text and returns
-1. -/
theorem prints_reported (h : c.run now s = .ok (ret, t)) : ∃ out, c.prints s = .ok out ∧ MayReport ret out := by
  cases c with
  | creat name blockNum =>
    obtain ⟨out, hout, hr⟩ := creat_prints h
    exact ⟨out, hout, hr.may⟩
  | «open» pathname flags =>
    obtain ⟨out, hout, hr⟩ := open_prints h
    exact ⟨out, hout, hr.may⟩
  | stat pathname =>
    obtain ⟨⟨r, fre, u⟩, hst, h⟩ := ExceptLib.bind_eq_ok.mp h
    cases h
    obtain ⟨out, hout, hr⟩ := stat_prints hst
    exact ⟨out, hout, hr.may⟩
  | close fildes =>
    obtain ⟨out, hout, hr⟩ := close_prints h
    exact ⟨out, hout, hr.may⟩
  | write fildes buf nbyte => exact write_prints h
  | read fildes buf nbyte =>
    obtain ⟨⟨r, b, u⟩, hrd, h⟩ := ExceptLib.bind_eq_ok.mp h
    cases h
    exact read_prints hrd
  | lseek fildes offset whence =>
    obtain ⟨⟨r, u⟩, hl, h⟩ := ExceptLib.bind_eq_ok.mp h
    cases h
    exact lseek_prints hl

/-- A call that succeeds prints nothing. -/
theorem prints_silent (h : c.run now s = .ok (ret, t)) (hr : ret ≠ -1) : c.prints s = .ok [] := by
  obtain ⟨out, hout, rfl | ⟨hf, -⟩⟩ := prints_reported h
  · exact hout
  · exact absurd hf hr

end Vsfs
