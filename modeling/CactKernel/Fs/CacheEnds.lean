/-
CactKernel/Fs/CacheEnds.lean

When the calls of the page cache end (`fs/rust_vfs/src/addr.rs`).

`ensure_bits` doubles the size of the bitmaps up to `AS_PAGES_MAX`; if more pages
are asked for it goes on for ever.  `vfs_as_truncate` does not look at what
`memfd_truncate` returns, so a file can be longer than that, and a read behind
`AS_PAGES_MAX` pages does not end.  A flush adds its offset and its size, and each
page that is populated or flushed is counted; these additions panic.
**Main result** `page_cache_ends_iff`.
-/
import CactKernel.Fs.AddrSpaceLaw

namespace CactKernel.AddrSpace

variable {ok : Bool}

theorem truncate_size_iff {o : MemObj} {length : Nat} : (o.truncate length ok).size = length ↔
    o.size = length ∨ ceilPages length ≤ memfdPagesMax ∧ (o.size < length → o.CanGrow length ok) := by
  unfold MemObj.truncate
  split
  · exact ⟨Or.inl, fun h => h.resolve_right fun h => by omega⟩
  next hmax =>
  split
  · next hlt =>
    by_cases hg : o.CanGrow length ok
    · obtain ⟨o', ho'⟩ := MemObj.grow_of_canGrow hg (by omega)
      rw [ho']
      exact iff_of_true rfl (Or.inr ⟨by omega, fun _ => hg⟩)
    · have hgrow : o.grow (ceilPages length) ok = none := by
        obtain ⟨hpages, hok⟩ := not_or.mp hg
        rw [Bool.not_eq_true] at hok
        exact hok ▸ MemObj.grow_short (by omega)
      rw [hgrow]
      exact ⟨Or.inl, fun h => h.resolve_right fun h => hg (h.2 hlt)⟩
  · next hge => exact iff_of_true rfl (Or.inr ⟨by omega, fun hlt => absurd hlt hge⟩)

/-- **When the calls end.**  A read ends if the pages it asks for are within `AS_PAGES_MAX`, a write
always, a flush if the end of its range is a 32-bit word, and both if their counters do not overflow; a
truncation, which always reports success, gives the object its size if the frames can be had. -/
theorem page_cache_ends_iff (a : AddrSpace) (store : List UInt8) (al : CacheAlloc) :
    (∀ need ok, (a.ensureBits need ok).isSome = true ↔ need ≤ max a.capPages memfdPagesMax) ∧
    (∀ off size populates, (a.readCounted store off size al populates).isSome = true ↔
      (size = 0 ∨ a.size ≤ off ∨ min (off + size) a.size ≤ max a.capPages memfdPagesMax * pageSize) ∧
        populates + a.populated off size al < u32Size) ∧
    (∀ off bs, (a.vfsAsWrite store off bs al).isSome = true) ∧
    (∀ off size flushes, (a.flushCounted store off size flushes).isSome = true ↔
      (a.backed = false ∨ a.size ≤ off ∨ size = 0 ∨ off + size < u32Size) ∧
        flushes + a.flushed off size < u32Size) ∧
    ∀ length, (a.vfsAsTruncate length al).size = length ∧
      ((a.vfsAsTruncate length al).obj.size = length ↔ a.obj.size = length ∨
        ceilPages length ≤ memfdPagesMax ∧ (a.obj.size < length → a.obj.CanGrow length al.frames)) :=
  ⟨fun _ _ => ensureBits_isSome, fun _ _ _ => counted_isSome.trans (and_congr_left' vfsAsRead_isSome),
    fun _ _ => vfsAsWrite_isSome, fun _ _ _ => counted_isSome.trans (and_congr_left' vfsAsFlush_isSome),
    fun _ => ⟨rfl, truncate_size_iff⟩⟩

/-- A file that is made longer than `AS_PAGES_MAX` pages keeps the object it has, and a read behind
them does not end; a flush of everything behind an offset panics. -/
theorem long_file_never_read :
    (new.vfsAsTruncate 0x80001000 ⟨true, true, true⟩).obj.size = 0 ∧
    (new.vfsAsTruncate 0x80001000 ⟨true, true, true⟩).readCounted [] 0x80000000 1 ⟨true, true, true⟩ 0 = none ∧
    { new with size := 8192, backed := true }.flushCounted [] 4096 0xFFFFFFFF 0 = none := by
  decide +kernel

end CactKernel.AddrSpace
