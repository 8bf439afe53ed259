/-
CactKernel/Fs/MountsLaw.lean

A mount keeps its module and its device busy.

`Inv` ties the three tables together: a mount-table entry made by a module has
its entry in the mount manager's list, and the module of every such entry is
resident and has the device on record (`Pinned`).

The code does not keep this up by itself.  A failed `vfs_umount` drops list entry
and record all the same (`umount_from_elsewhere`), the boot file system is in no
list, and a second record of a device is not kept.  **`mounts_pin_modules`** is
what holds if these are avoided.
-/
import CactKernel.Fs.Mounts

namespace CactKernel

open Function Runs Table

namespace FsSlot

variable {x : FsSlot} {d d' : List UInt8}

/-- The same module. -/
def Same (x x' : FsSlot) : Prop := x'.used = x.used ∧ x'.image = x.image

theorem noteMount_same : x.Same (x.noteMount d) := by
  unfold noteMount
  split_ifs <;> exact ⟨rfl, rfl⟩

theorem mem_noteMount (h : d' ∈ x.mounted) : d' ∈ (x.noteMount d).mounted := by
  unfold noteMount
  split_ifs
  · exact h
  · exact h
  · exact List.mem_append_left _ h

/-- A new record goes behind the others. -/
theorem noteMount_new (hd : d ∉ x.mounted) (hroom : x.mounted.length < fsModMaxMounts)
    (hlen : d.length < blkdevNameMax) : x.noteMount d = { x with mounted := x.mounted ++ [d] } := by
  unfold noteMount
  rw [if_neg hd, if_neg (by omega), List.take_of_length_le (by omega)]

theorem records_iff : x.records d = true ↔ x.used = true ∧ d ∈ x.mounted := by
  unfold records
  rw [Bool.and_eq_true, decide_eq_true_iff]

theorem forget_same : x.Same (x.forget d) := by
  unfold forget
  split_ifs <;> exact ⟨rfl, rfl⟩

theorem mem_forget (hne : d' ≠ d) : d' ∈ (x.forget d).mounted ↔ d' ∈ x.mounted := by
  unfold forget
  split_ifs
  · exact List.mem_erase_of_ne hne
  · rfl

/-- What was just noted is forgotten. -/
theorem forget_concat (hu : x.used = true) (hd : d ∉ x.mounted) :
    ({ x with mounted := x.mounted ++ [d] } : FsSlot).forget d = x := by
  have hrec : ({ x with mounted := x.mounted ++ [d] } : FsSlot).records d = true :=
    records_iff.mpr ⟨hu, List.mem_append_right _ List.mem_cons_self⟩
  unfold forget
  rw [if_pos hrec]
  rw [List.erase_append_right _ hd, List.erase_cons_head, List.append_nil]

end FsSlot

theorem VfsMount.isAt_iff {m : VfsMount} {host : Nat} {name : List UInt8} :
    m.isAt host name = true ↔ m.key = (host, name) := by
  unfold VfsMount.isAt VfsMount.key
  rw [Bool.and_eq_true, decide_eq_true_iff, decide_eq_true_iff, Prod.mk.injEq]

namespace MountSys

variable {s s' t : MountSys} {i k : Nat} {d nm target fstype arg name : List UInt8} {r : FsRoot}
  {m : VfsdevMount} {accepts : Nat → Bool} {ev : Event} {l : List VfsMount}

/-! ### The invariant -/

/-- The module of the call is resident, knows that it has the device mounted, and was not told
to unmount it. -/
structure Pinned (s : MountSys) (r : FsRoot) : Prop where
  lt : r.slot < fsModMax
  used : (s.slots r.slot).used = true
  image : ∃ j, r.image = some j ∧ (s.slots r.slot).image = some j ∧ s.allocated j = true
  record : r.dev ∈ (s.slots r.slot).mounted
  unmounted : r.unmounted = false

/-- The slot of the call has the same module, and the device is still on record. -/
theorem Pinned.of_same (hp : s.Pinned r) (hsame : (s.slots r.slot).Same (s'.slots r.slot))
    (halloc : ∀ j, (s.slots r.slot).image = some j → s.allocated j = true → s'.allocated j = true)
    (hrec : r.dev ∈ (s'.slots r.slot).mounted) : s'.Pinned r := by
  obtain ⟨j, hrj, hj, ha⟩ := hp.image
  exact ⟨hp.lt, hsame.1.trans hp.used, ⟨j, hrj, hsame.2.trans hj, halloc j hj ha⟩, hrec, hp.unmounted⟩

/-- The slot of the call is as it was. -/
theorem Pinned.congr (hp : s.Pinned r) (hslot : s'.slots r.slot = s.slots r.slot)
    (halloc : ∀ j, (s.slots r.slot).image = some j → s.allocated j = true → s'.allocated j = true) :
    s'.Pinned r :=
  hp.of_same (by rw [hslot]; exact ⟨rfl, rfl⟩) halloc (hslot ▸ hp.record)

/-- Slots that are in use have images of their own. -/
structure Images (s : MountSys) : Prop where
  image : ∀ i, (s.slots i).used = true → ∃ j, (s.slots i).image = some j ∧ s.allocated j = true
  unique : ∀ i i' j, (s.slots i).used = true → (s.slots i').used = true →
    (s.slots i).image = some j → (s.slots i').image = some j → i = i'
  lt : ∀ i j, (s.slots i).image = some j → j < s.nextImage

structure Inv (s : MountSys) : Prop where
  images : Images s
  keys : (s.table.map VfsMount.key).Nodup
  /-- Who made an entry of the mount table. -/
  entry : ∀ e ∈ s.table, ∀ k, e.target = some k →
    ∃ m ∈ s.mountList, m.node = k ∧ m.host = e.host ∧ m.name = e.name
  tracked : ∀ m ∈ s.mountList, m.name ≠ [] ∧ ⟨m.host, m.name, some m.node⟩ ∈ s.table
  pinned : ∀ m ∈ s.mountList, ∃ r, s.origin m.node = some r ∧ r.dev = m.devname ∧ s.Pinned r
  devs : (s.mountList.map VfsdevMount.devname).Nodup
  boot : ∀ k, s.vfsRoot = some k → ∃ r, s.origin k = some r ∧ s.Pinned r ∧
    ∀ m ∈ s.mountList, m.devname ≠ r.dev
  fresh : ∀ k r, s.origin k = some r → k < s.nextNode

theorem Inv.start : Inv start where
  images := ⟨nofun, nofun, nofun⟩
  keys := List.nodup_nil
  entry := nofun
  tracked := nofun
  pinned := nofun
  devs := List.nodup_nil
  boot := nofun
  fresh := nofun

section

variable (h : Inv s)
include h

/-- The tables of mounts are the same and the calls that matter are still pinned. -/
theorem Inv.of_slots (himages : Images s') (htable : s'.table = s.table)
    (hlist : s'.mountList = s.mountList) (hroot : s'.vfsRoot = s.vfsRoot)
    (hkeep : ∀ k r, s.origin k = some r → s.Pinned r →
      (s.vfsRoot = some k ∨ ∃ m ∈ s.mountList, m.node = k) → s'.origin k = some r ∧ s'.Pinned r)
    (hfresh : ∀ k r, s'.origin k = some r → k < s'.nextNode) : Inv s' := by
  refine ⟨himages, htable ▸ h.keys, ?_, ?_, ?_, hlist ▸ h.devs, ?_, hfresh⟩
  · rw [htable, hlist]
    exact h.entry
  · rw [htable, hlist]
    exact h.tracked
  · rw [hlist]
    intro m hm
    obtain ⟨r, hr, hdev, hpin⟩ := h.pinned m hm
    obtain ⟨hr', hpin'⟩ := hkeep _ r hr hpin (Or.inr ⟨m, hm, rfl⟩)
    exact ⟨r, hr', hdev, hpin'⟩
  · rw [hroot, hlist]
    intro k hk
    obtain ⟨r, hr, hpin, hdev⟩ := h.boot k hk
    obtain ⟨hr', hpin'⟩ := hkeep k r hr hpin (Or.inl hk)
    exact ⟨r, hr', hpin', hdev⟩

/-- The tables are the same. -/
theorem Inv.congr (heq : { s' with
    mntfsReady := s.mntfsReady, device := s.device, resolve := s.resolve, ret := s.ret } = s) : Inv s' := by
  cases s
  cases heq
  exact h.of_slots { h.images with } rfl rfl rfl
    (fun _ _ hr hp _ => ⟨hr, { hp with }⟩) h.fresh

theorem Inv.returns (c : Int) : Inv (s.returns c) := h.congr rfl

/-! ### Loading and unloading -/

theorem Inv.fsModLoad (path : List UInt8) (image : Except Int Bool) :
    Inv (s.fsModLoad path image) := by
  unfold MountSys.fsModLoad
  split
  · exact h.returns _
  · next i hi =>
    dsimp only
    split_ifs
    · exact h.returns _
    · split
      · exact h.returns _
      · next unmount =>
        -- the slot taken was free, so no mounted device is the one written
        have hfree : (s.slots i).used = false := by
          have := List.find?_some hi
          rwa [Bool.not_eq_true'] at this
        have hold : ∀ {j}, j ≠ i → ∀ x, update s.slots i x j = s.slots j := fun hj x => update_of_ne hj ..
        have hne : ∀ {j}, (s.slots j).used = true → j ≠ i := by
          rintro j hu rfl
          rw [hfree] at hu
          cases hu
        have halloc : ∀ j', s.allocated j' = true → update s.allocated s.nextImage true j' = true :=
          (forall_update_iff s.allocated fun j' b => s.allocated j' = true → b = true).mpr
            ⟨fun _ => rfl, fun _ _ => id⟩
        refine h.of_slots ⟨?_, fun j j' n hu hu' hj hj' => ?_, ?_⟩ rfl rfl rfl
          (fun k r hr hp _ => ⟨hr, ?_⟩) h.fresh
        · refine (forall_update_iff s.slots fun _ x => x.used = true → ∃ n, x.image = some n ∧
            update s.allocated s.nextImage true n = true).mpr ⟨fun _ => ?_, fun j _ hu => ?_⟩
          · exact ⟨s.nextImage, rfl, update_self ..⟩
          · obtain ⟨n, hn, ha⟩ := h.images.image j hu
            exact ⟨n, hn, halloc n ha⟩
        · dsimp only at hu hu' hj hj'
          -- the image just allocated is above every image in use
          by_cases hji : j = i <;> by_cases hji' : j' = i
          · rw [hji, hji']
          · rw [hji, update_self] at hj
            rw [hold hji'] at hj'
            obtain rfl := Option.some.inj hj
            exact absurd (h.images.lt _ _ hj') (Nat.lt_irrefl _)
          · rw [hji', update_self] at hj'
            rw [hold hji] at hj
            obtain rfl := Option.some.inj hj'
            exact absurd (h.images.lt _ _ hj) (Nat.lt_irrefl _)
          · rw [hold hji] at hu hj
            rw [hold hji'] at hu' hj'
            exact h.images.unique _ _ _ hu hu' hj hj'
        · refine (forall_update_iff s.slots fun _ x => ∀ n, x.image = some n → n < s.nextImage + 1).mpr
            ⟨fun n hn => ?_, fun j _ n hn => Nat.lt_succ_of_lt (h.images.lt j n hn)⟩
          obtain rfl := Option.some.inj hn
          exact Nat.lt_succ_self _
        · exact hp.congr (hold (hne hp.used) _) fun j _ => halloc j

/-- **A module with a record is not unloaded.** -/
theorem Inv.slotUnload (i : Nat) : Inv (s.slotUnload i) := by
  unfold MountSys.slotUnload
  split_ifs with hu hm
  · exact h.returns _
  · exact h.returns _
  · rw [Bool.not_eq_false] at hu
    rw [not_not] at hm
    obtain ⟨n, hn, -⟩ := h.images.image i hu
    have hold : ∀ {j}, j ≠ i → ∀ x, update s.slots i x j = s.slots j := fun hj x => update_of_ne hj ..
    have hused : ∀ {j}, (update s.slots i .zero j).used = true → j ≠ i := by
      rintro j hju rfl
      rw [update_self] at hju
      cases hju
    -- the image that goes is nobody else's
    have halloc : ∀ {j n'}, j ≠ i → (s.slots j).used = true → (s.slots j).image = some n' →
        s.allocated n' = true → update s.allocated n false n' = true := by
      intro j n' hj hju hjn ha
      rw [update_of_ne]
      · exact ha
      · rintro rfl
        exact hj (h.images.unique _ _ _ hju hu hjn hn)
    rw [hn]
    refine h.of_slots ⟨fun j hju => ?_, fun j j' n' hju hju' hj hj' => ?_, fun j n' hj => ?_⟩ rfl rfl rfl
      (fun k r hr hp _ => ⟨hr, ?_⟩) h.fresh
    · have hji := hused hju
      dsimp only at hju ⊢
      rw [hold hji] at hju ⊢
      obtain ⟨n', hn', ha⟩ := h.images.image j hju
      exact ⟨n', hn', halloc hji hju hn' ha⟩
    · have hji := hused hju
      have hji' := hused hju'
      dsimp only at hju hju' hj hj'
      rw [hold hji] at hju hj
      rw [hold hji'] at hju' hj'
      exact h.images.unique _ _ _ hju hju' hj hj'
    · dsimp only at hj
      by_cases hji : j = i
      · rw [hji, update_self] at hj
        cases hj
      · rw [hold hji] at hj
        exact h.images.lt _ _ hj
    · have hri : r.slot ≠ i := by
        rintro rfl
        have := hp.record
        rw [hm] at this
        cases this
      exact hp.congr (hold hri _) fun j hj ha => halloc hri hp.used hj ha

end

/-! ### What the module loader does for a mount -/

theorem fsModPick_spec (hi : s.fsModPick fstype accepts = some i) :
    i < fsModMax ∧ (s.slots i).used = true := by
  unfold fsModPick at hi
  split_ifs at hi
  · have hmem := List.mem_of_find?_eq_some hi
    have hcond := List.find?_some hi
    rw [Bool.and_eq_true, Bool.and_eq_true] at hcond
    exact ⟨List.mem_range.mp hmem, hcond.1.1⟩
  · obtain ⟨hslot, -⟩ := Option.filter_eq_some_iff.mp hi
    have hcond := List.find?_some hslot
    rw [Bool.and_eq_true] at hcond
    exact ⟨List.mem_range.mp (List.mem_of_find?_eq_some hslot), hcond.1⟩

/-- No module has the device on record. -/
def Unknown (s : MountSys) (d : List UInt8) : Prop :=
  ∀ i < fsModMax, (s.slots i).used = true → d ∉ (s.slots i).mounted

local instance lawfulName : LawfulBEq (List UInt8) := inferInstance

instance decidableUnknown (s : MountSys) (d : List UInt8) : Decidable (s.Unknown d) := by
  unfold Unknown
  infer_instance

theorem Pinned.dev_ne (hp : s.Pinned r) (hd : s.Unknown d) : r.dev ≠ d := by
  rintro rfl
  exact hd _ hp.lt hp.used hp.record

/-- The module in slot `i` can take the device `d`. -/
structure Takes (s : MountSys) (i : Nat) (d : List UInt8) : Prop where
  unknown : s.Unknown d
  lt : i < fsModMax
  used : (s.slots i).used = true
  room : (s.slots i).mounted.length < fsModMaxMounts
  len : d.length < blkdevNameMax
  dev : s.findDev d = none

/-- The slots after a module has taken the device. -/
theorem fsMount_slots (ht : s.Takes i d) :
    (s.fsMount i d).slots = update s.slots i { s.slots i with mounted := (s.slots i).mounted ++ [d] } := by
  unfold fsMount
  rw [FsSlot.noteMount_new (ht.unknown i ht.lt ht.used) ht.room ht.len]

theorem fsMount_same : ∀ j, (s.slots j).Same ((s.fsMount i d).slots j) :=
  (forall_update_iff s.slots fun j => (s.slots j).Same).mpr
    ⟨FsSlot.noteMount_same, fun _ _ => ⟨rfl, rfl⟩⟩

theorem fsModUnmountDev_same (j : Nat) : (s.slots j).Same ((s.fsModUnmountDev d).slots j) := by
  show FsSlot.Same _ (if j < fsModMax then _ else _)
  split_ifs
  · exact FsSlot.forget_same
  · exact ⟨rfl, rfl⟩

/-- Only the records of the slots change. -/
theorem Images.of_eq (h : Images s) (hsame : ∀ j, (s.slots j).Same (s'.slots j))
    (ha : s'.allocated = s.allocated) (hnext : s'.nextImage = s.nextImage) : Images s' := by
  refine ⟨fun j hj => ?_, fun j j' n hj hj' hn hn' => ?_, fun j n hn => ?_⟩
  · rw [(hsame _).1] at hj
    rw [(hsame j).2, ha]
    exact h.image j hj
  · rw [(hsame _).1] at hj hj'
    rw [(hsame _).2] at hn hn'
    exact h.unique _ _ _ hj hj' hn hn'
  · rw [(hsame _).2] at hn
    rw [hnext]
    exact h.lt j n hn

theorem Pinned.fsMount (hp : s.Pinned r) (i : Nat) (d : List UInt8) : (s.fsMount i d).Pinned r := by
  refine hp.of_same (fsMount_same _) (fun _ _ ha => ha) ?_
  show r.dev ∈ (update s.slots i _ r.slot).mounted
  by_cases hri : r.slot = i
  · rw [← hri, update_self]
    exact FsSlot.mem_noteMount hp.record
  · rw [update_of_ne hri]
    exact hp.record

/-- To forget another device unpins nothing. -/
theorem Pinned.fsModUnmountDev (hp : s.Pinned r) (hne : r.dev ≠ d) : (s.fsModUnmountDev d).Pinned r := by
  refine hp.of_same (fsModUnmountDev_same _) (fun _ _ ha => ha) ?_
  show r.dev ∈ (if r.slot < fsModMax then _ else _ : FsSlot).mounted
  rw [if_pos hp.lt, FsSlot.mem_forget hne]
  exact hp.record

theorem fsModUnmountDev_origin (hr : s.origin k = some r) (hne : r.dev ≠ d) :
    (s.fsModUnmountDev d).origin k = some r := by
  show (s.origin k).map _ = _
  rw [hr, Option.map_some, if_neg fun hc => hne hc.2.2.2.2]

theorem fsMount_origin (hr : s.origin k = some r) (hk : k < s.nextNode) :
    (s.fsMount i d).origin k = some r := by
  show update s.origin s.nextNode _ k = _
  rw [update_of_ne (Nat.ne_of_lt hk)]
  exact hr

/-- **A mount that is taken back** leaves the slots as they were. -/
theorem fsMount_fsModUnmountDev (ht : s.Takes i d) :
    ((s.fsMount i d).fsModUnmountDev d).slots = s.slots := by
  funext j
  show (if j < fsModMax then ((s.fsMount i d).slots j).forget d else (s.fsMount i d).slots j) = _
  rw [fsMount_slots ht]
  by_cases hj : j = i
  · rw [hj, update_self, if_pos ht.lt]
    exact FsSlot.forget_concat ht.used (ht.unknown i ht.lt ht.used)
  · rw [update_of_ne hj]
    split_ifs with hlt
    · refine if_neg fun hc => ?_
      obtain ⟨hused, hmem⟩ := FsSlot.records_iff.mp hc
      exact ht.unknown j hlt hused hmem
    · rfl

/-! ### Mounting -/

theorem any_isAt {host : Nat}
    (h : ¬l.any (·.isAt host name) = true) : ∀ e ∈ l, e.key ≠ (host, name) := by
  intro e he hkey
  exact h (List.any_eq_true.mpr ⟨e, he, VfsMount.isAt_iff.mpr hkey⟩)

/-- A place that is not in the table yet. -/
theorem nodup_keys_concat {m : VfsMount} (h : (l.map VfsMount.key).Nodup)
    (hkey : ∀ e ∈ l, e.key ≠ m.key) : ((l ++ [m]).map VfsMount.key).Nodup := by
  rw [List.map_append, List.nodup_append]
  refine ⟨h, List.nodup_singleton _, ?_⟩
  intro a ha b hb hab
  obtain ⟨e, he, rfl⟩ := List.mem_map.mp ha
  rw [List.map_singleton, List.mem_singleton] at hb
  exact hkey e he (hab.trans hb)

/-- How `vfsdev_mount` ends once a module has mounted the device. -/
theorem attach_cases (t : MountSys) (d target : List UInt8) (node : Nat) (ok : Bool) :
    (∃ c, c ≠ 0 ∧ t.attach d target node ok = (t.fsModUnmountDev d).returns c) ∨
    ∃ host name, name ≠ [] ∧ (∀ e ∈ t.table, e.key ≠ (host, name)) ∧
      t.attach d target node ok =
        { t with
          table := t.table ++ [⟨host, name, some node⟩]
          mountList := ⟨d, target.take 127, host, name, node⟩ :: t.mountList
          ret := 0 } := by
  unfold attach
  split
  · exact Or.inl ⟨_, by decide, rfl⟩
  · next p hp =>
    have hname : p.name.take 127 = p.name := by
      obtain ⟨q, -, rfl⟩ := Option.map_eq_some_iff.mp hp
      rw [List.take_take, Nat.min_self]
    by_cases hbad : p.name = [] ∨ p.dir = false
    · rw [if_pos hbad]
      exact Or.inl ⟨_, by decide, rfl⟩
    · rw [if_neg hbad]
      rw [not_or] at hbad
      unfold vfsMount
      by_cases hfull : vfsMountMax ≤ t.table.length
      · rw [if_pos hfull]
        exact Or.inl ⟨_, by decide, rfl⟩
      by_cases hdup : t.table.any (·.isAt p.host p.name) = true
      · rw [if_neg hfull, if_pos hdup]
        exact Or.inl ⟨_, by decide, rfl⟩
      rw [if_neg hfull, if_neg hdup, hname]
      dsimp only
      cases ok with
      | true => exact Or.inr ⟨p.host, p.name, hbad.1, any_isAt hdup, rfl⟩
      | false =>
        refine Or.inl ⟨-1, by decide, ?_⟩
        -- no memory for the record: `vfs_umount` takes back the entry just appended
        have hback : ({ t with table := t.table ++ [⟨p.host, p.name, some node⟩] } : MountSys).vfsUmount
            p.host p.name = some t := by
          have hout : swapRemove (·.isAt p.host p.name) (t.table ++ [⟨p.host, p.name, some node⟩]) =
              some t.table :=
            swapRemove_concat
              (fun e he => Bool.eq_false_iff.mpr fun hat => any_isAt hdup e he (VfsMount.isAt_iff.mp hat))
              (VfsMount.isAt_iff.mpr rfl)
          unfold vfsUmount
          rw [hout]
          rfl
        rw [hback]
        rfl

/-- What a mount needs: the device is on no record, and the module has room for one. -/
def MountOk (s : MountSys) (nm fstype : List UInt8) (accepts : Nat → Bool) : Prop :=
  s.findDev nm = none → s.Unknown nm ∧
    ∀ i ∈ s.fsModPick fstype accepts, (s.slots i).mounted.length < fsModMaxMounts

instance decidableMountOk (s : MountSys) (nm fstype : List UInt8) (accepts : Nat → Bool) :
    Decidable (s.MountOk nm fstype accepts) := by
  unfold MountOk
  infer_instance

/-- How `vfsdev_mount` ends. -/
theorem vfsdevMount_cases (devarg target : List UInt8) (ok : Bool)
    (hok : s.MountOk (blkNameFromArg devarg) fstype accepts) :
    (∃ c, c ≠ 0 ∧ s.vfsdevMount devarg target fstype accepts ok = s.returns c) ∨
    ∃ i, s.Takes i (blkNameFromArg devarg) ∧ s.vfsdevMount devarg target fstype accepts ok =
      (s.fsMount i (blkNameFromArg devarg)).attach (blkNameFromArg devarg) target s.nextNode ok := by
  unfold vfsdevMount
  dsimp only
  split_ifs with hargs hdev hfind
  · exact Or.inl ⟨_, by decide, rfl⟩
  · exact Or.inl ⟨_, by decide, rfl⟩
  · exact Or.inl ⟨_, by decide, rfl⟩
  · rw [not_not] at hfind
    split
    · exact Or.inl ⟨_, by decide, rfl⟩
    · next i hi =>
      obtain ⟨hunknown, hroom⟩ := hok hfind
      obtain ⟨hlt, hused⟩ := fsModPick_spec hi
      rw [Bool.not_eq_false] at hdev
      unfold blkdevFind at hdev
      rw [Bool.and_eq_true, decide_eq_true_iff] at hdev
      exact Or.inr ⟨i, ⟨hunknown, hlt, hused, hroom i hi, hdev.2, hfind⟩, rfl⟩

theorem findDev_none (h : s.findDev d = none) : ∀ m ∈ s.mountList, m.devname ≠ d := by
  intro m hm hd
  have := List.find?_eq_none.mp h m hm
  simp [hd] at this

section

variable (h : Inv s)
include h

theorem Inv.fsMount_fresh (hr : (s.fsMount i d).origin k = some r) : k < s.nextNode + 1 := by
  have hr : update s.origin s.nextNode _ k = some r := hr
  by_cases hk : k = s.nextNode
  · omega
  · rw [update_of_ne hk] at hr
    exact Nat.lt_succ_of_lt (h.fresh k r hr)

/-- The call that a module has just answered is pinned. -/
theorem Inv.fsMount_pinned (ht : s.Takes i d) :
    (s.fsMount i d).Pinned ⟨i, (s.slots i).image, d, false⟩ := by
  obtain ⟨j, hj, ha⟩ := h.images.image i ht.used
  refine ⟨ht.lt, (fsMount_same i).1.trans ht.used, ⟨j, hj, (fsMount_same i).2.trans hj, ha⟩, ?_, rfl⟩
  rw [fsMount_slots ht, update_self]
  exact List.mem_append_right _ List.mem_cons_self

/-- A mount that fails late leaves the calls that matter alone. -/
theorem Inv.undone (hd : s.Unknown d) (c : Int) :
    Inv (((s.fsMount i d).fsModUnmountDev d).returns c) := by
  refine h.of_slots ?_ rfl rfl rfl (fun k r hr hp _ => ⟨?_, ?_⟩) fun k r hr => ?_
  · exact (h.images.of_eq fsMount_same rfl rfl).of_eq fsModUnmountDev_same rfl rfl
  · exact fsModUnmountDev_origin (fsMount_origin hr (h.fresh k r hr)) (hp.dev_ne hd)
  · exact { (hp.fsMount i d).fsModUnmountDev (hp.dev_ne hd) with }
  · obtain ⟨r', hr', -⟩ := Option.map_eq_some_iff.mp hr
    exact h.fsMount_fresh hr'

/-- **A mount**: the new entry stands in all three tables. -/
theorem Inv.attached (ht : s.Takes i d) {host : Nat} (hname : name ≠ [])
    (hkey : ∀ e ∈ s.table, e.key ≠ (host, name)) (target : List UInt8) :
    Inv { s.fsMount i d with
      table := s.table ++ [⟨host, name, some s.nextNode⟩]
      mountList := ⟨d, target, host, name, s.nextNode⟩ :: s.mountList
      ret := 0 } := by
  have horigin : ∀ k r, s.origin k = some r → (s.fsMount i d).origin k = some r :=
    fun k r hr => fsMount_origin hr (h.fresh k r hr)
  refine ⟨h.images.of_eq fsMount_same rfl rfl, nodup_keys_concat h.keys hkey, ?_, ?_, ?_, ?_, ?_,
    fun k r hr => h.fsMount_fresh hr⟩
  · refine List.forall_mem_append.mpr ⟨fun e he k hk => ?_, List.forall_mem_singleton.mpr fun k hk => ?_⟩
    · obtain ⟨m, hm, hmk⟩ := h.entry e he k hk
      exact ⟨m, List.mem_cons_of_mem _ hm, hmk⟩
    · exact ⟨_, List.mem_cons_self, Option.some.inj hk, rfl, rfl⟩
  · refine List.forall_mem_cons.mpr ⟨⟨hname, List.mem_append_right _ List.mem_cons_self⟩, fun m hm => ?_⟩
    exact ⟨(h.tracked m hm).1, List.mem_append_left _ (h.tracked m hm).2⟩
  · refine List.forall_mem_cons.mpr ⟨?_, fun m hm => ?_⟩
    · have hp := h.fsMount_pinned ht
      exact ⟨_, update_self .., rfl, { hp with }⟩
    · obtain ⟨r, hr, hdev, hp⟩ := h.pinned m hm
      exact ⟨r, horigin _ r hr, hdev, { hp.fsMount i d with }⟩
  · rw [List.map_cons, List.nodup_cons]
    refine ⟨fun hmem => ?_, h.devs⟩
    obtain ⟨m, hm, hmd⟩ := List.mem_map.mp hmem
    exact findDev_none ht.dev m hm hmd
  · intro k hk
    obtain ⟨r, hr, hp, hdev⟩ := h.boot k hk
    exact ⟨r, horigin k r hr, { hp.fsMount i d with },
      List.forall_mem_cons.mpr ⟨(hp.dev_ne ht.unknown).symm, hdev⟩⟩

theorem Inv.vfsdevMount (devarg target fstype : List UInt8) (accepts : Nat → Bool)
    (ok : Bool) (hok : s.MountOk (blkNameFromArg devarg) fstype accepts) :
    Inv (s.vfsdevMount devarg target fstype accepts ok) := by
  rcases vfsdevMount_cases devarg target ok hok with ⟨c, -, heq⟩ | ⟨i, ht, heq⟩
  · rw [heq]
    exact h.returns c
  · rw [heq]
    rcases attach_cases (s.fsMount i (blkNameFromArg devarg)) (blkNameFromArg devarg) target s.nextNode ok
      with ⟨c, -, heq⟩ | ⟨host, name, hname, hkey, heq⟩
    · rw [heq]
      exact h.undone ht.unknown c
    · rw [heq]
      exact h.attached ht hname hkey _

end

/-! ### Unmounting -/

/-- The target of the mount that is named leads to where it led when it was mounted. -/
def UmountOk (s : MountSys) (arg : List UInt8) : Prop :=
  ∀ m ∈ s.findMount arg,
    (s.vfsResolveParent m.target).map (fun p => (p.host, p.name)) = some (m.host, m.name)
deriving Decidable

theorem mem_of_findMount (h : s.findMount arg = some m) : m ∈ s.mountList := by
  unfold findMount at h
  split at h
  · next m' hm' =>
    obtain rfl := Option.some.inj h
    exact List.mem_of_find?_eq_some hm'
  · split_ifs at h
    exact List.mem_of_find?_eq_some h

/-- `vfs_umount` finds the entry of a mount whose target still leads to it. -/
theorem Inv.detach (h : Inv s) (hm : m ∈ s.mountList)
    (hplace : (s.vfsResolveParent m.target).map (fun p => (p.host, p.name)) = some (m.host, m.name)) :
    ∃ table, swapRemove (·.isAt m.host m.name) s.table = some table ∧
      s.detach m = some { s with table := table } := by
  obtain ⟨p, hp, hkey⟩ := Option.map_eq_some_iff.mp hplace
  rw [Prod.mk.injEq] at hkey
  obtain ⟨hname, hmem⟩ := h.tracked m hm
  obtain ⟨table, htable⟩ := swapRemove_of_mem hmem
    (VfsMount.isAt_iff.mpr rfl)
  refine ⟨table, htable, ?_⟩
  unfold MountSys.detach
  rw [hp, Option.bind_some, hkey.1, hkey.2, if_neg hname]
  unfold vfsUmount
  rw [htable]
  rfl

/-- The entry of `m` has gone from the mount table and from the list. -/
theorem Inv.detached (h : Inv s) (hm : m ∈ s.mountList) {table : List VfsMount}
    (htable : swapRemove (·.isAt m.host m.name) s.table = some table)
    (hslots : ∀ j, (s.slots j).Same (s'.slots j)) (halloc : s'.allocated = s.allocated)
    (hnext : s'.nextImage = s.nextImage) (htab : s'.table = table)
    (hlist : s'.mountList = s.mountList.erase m) (hroot : s'.vfsRoot = s.vfsRoot)
    (hkeep : ∀ k r, s.origin k = some r → s.Pinned r → r.dev ≠ m.devname →
      s'.origin k = some r ∧ s'.Pinned r)
    (hfresh : ∀ k r, s'.origin k = some r → k < s'.nextNode) : Inv s' := by
  have hmem := @mem_of_swapRemove _ _ _ table ⟨m.host, m.name, some m.node⟩ _ VfsMount.key h.keys
    (fun e => VfsMount.isAt_iff)
  have hndlist : s.mountList.Nodup := List.Nodup.of_map _ h.devs
  have herase : ∀ {m'}, m' ∈ s.mountList.erase m ↔ m' ≠ m ∧ m' ∈ s.mountList := hndlist.mem_erase_iff
  have hdev : ∀ {m'}, m' ∈ s.mountList → m' ≠ m → m'.devname ≠ m.devname :=
    fun hm' hne heq => hne (List.inj_on_of_nodup_map h.devs hm' hm heq)
  refine ⟨h.images.of_eq hslots halloc hnext, ?_, ?_, ?_, ?_, ?_, ?_, hfresh⟩
  · rw [htab]
    exact nodup_of_swapRemove h.keys htable
  · rw [htab, hlist]
    intro e he k hk
    obtain ⟨he, hne⟩ := (hmem htable).mp he
    obtain ⟨m', hm', hnode, hhost, hname⟩ := h.entry e he k hk
    refine ⟨m', herase.mpr ⟨?_, hm'⟩, hnode, hhost, hname⟩
    rintro rfl
    exact hne (Prod.ext hhost.symm hname.symm)
  · rw [htab, hlist]
    intro m' hm'
    obtain ⟨hne, hm'⟩ := herase.mp hm'
    obtain ⟨hname, hin⟩ := h.tracked m' hm'
    refine ⟨hname, (hmem htable).mpr ⟨hin, fun hkey => hne ?_⟩⟩
    -- the same place would be the same call, and so the same device
    have hsame := List.inj_on_of_nodup_map h.keys hin (h.tracked m hm).2 hkey
    have hnode : m'.node = m.node := Option.some.inj (congrArg VfsMount.target hsame)
    obtain ⟨r', hr', hd', -⟩ := h.pinned m' hm'
    obtain ⟨r, hr, hd, -⟩ := h.pinned m hm
    rw [hnode, hr] at hr'
    obtain rfl := Option.some.inj hr'
    exact List.inj_on_of_nodup_map h.devs hm' hm (hd'.symm.trans hd)
  · rw [hlist]
    intro m' hm'
    obtain ⟨hne, hm'⟩ := herase.mp hm'
    obtain ⟨r, hr, hrd, hp⟩ := h.pinned m' hm'
    obtain ⟨hr', hp'⟩ := hkeep _ r hr hp (by rw [hrd]; exact hdev hm' hne)
    exact ⟨r, hr', hrd, hp'⟩
  · rw [hlist]
    exact h.devs.sublist (List.erase_sublist.map _)
  · rw [hroot, hlist]
    intro k hk
    obtain ⟨r, hr, hp, hd⟩ := h.boot k hk
    obtain ⟨hr', hp'⟩ := hkeep k r hr hp (hd m hm).symm
    exact ⟨r, hr', hp', fun m' hm' => hd m' (herase.mp hm').2⟩

theorem Inv.vfsdevUmount (h : Inv s) (hok : s.UmountOk arg) : Inv (s.vfsdevUmount arg) := by
  unfold MountSys.vfsdevUmount
  split
  · exact h.returns _
  · next m hfind =>
    have hm := mem_of_findMount hfind
    obtain ⟨table, htable, hdet⟩ := h.detach hm (hok m hfind)
    rw [hdet]
    dsimp only [Option.getD_some]
    by_cases hfind : ({ s with table := table } : MountSys).blkdevFind m.devname = true
    · rw [if_pos hfind]
      refine h.detached hm htable fsModUnmountDev_same rfl rfl rfl rfl rfl
        (fun k r hr hp hne => ⟨?_, ?_⟩) fun k r hr => ?_
      · exact fsModUnmountDev_origin hr hne
      · exact { hp.fsModUnmountDev hne with }
      · obtain ⟨r', hr', -⟩ := Option.map_eq_some_iff.mp hr
        exact h.fresh k r' hr'
    · rw [if_neg hfind]
      exact h.detached hm htable (fun _ => ⟨rfl, rfl⟩) rfl rfl rfl rfl rfl
        (fun k r hr hp _ => ⟨hr, { hp with }⟩) h.fresh

/-! ### Boot -/

theorem Inv.mountLayout (h : Inv s) (place : Nat × List UInt8) : Inv (s.mountLayout place) := by
  unfold MountSys.mountLayout vfsMount
  split_ifs with hfull hdup
  · exact h
  · exact h
  · rw [List.take_take]
    refine ⟨{ h.images with }, nodup_keys_concat h.keys (any_isAt hdup), ?_,
      fun m hm => ?_, fun m hm => ?_, h.devs, fun k hk => ?_, h.fresh⟩
    · exact List.forall_mem_append.mpr ⟨h.entry, List.forall_mem_singleton.mpr nofun⟩
    · exact ⟨(h.tracked m hm).1, List.mem_append_left _ (h.tracked m hm).2⟩
    · obtain ⟨r, hr, hd, hp⟩ := h.pinned m hm
      exact ⟨r, hr, hd, { hp with }⟩
    · obtain ⟨r, hr, hp, hd⟩ := h.boot k hk
      exact ⟨r, hr, { hp with }, hd⟩

theorem foldl_mountLayout_vfsRoot (layout : List (Nat × List UInt8)) :
    (layout.foldl MountSys.mountLayout s).vfsRoot = s.vfsRoot := by
  induction layout generalizing s with
  | nil => rfl
  | cons place layout ih =>
    refine ih.trans ?_
    unfold MountSys.mountLayout vfsMount
    split_ifs <;> rfl

/-- Nothing has been mounted yet. -/
def BootOk (s : MountSys) : Prop := s.mountList = [] ∧ ∀ i < fsModMax, (s.slots i).mounted = []

instance decidableBootOk (s : MountSys) : Decidable s.BootOk := by
  unfold BootOk
  infer_instance

/-- `vfs_root` becomes the root that a module returned. -/
theorem Inv.bootRoot (h : Inv s) (hok : s.BootOk) (hi : i < fsModMax) (hused : (s.slots i).used = true)
    (hlen : d.length < blkdevNameMax) : Inv { s.fsMount i d with vfsRoot := some s.nextNode } := by
  have hnil : ∀ {m}, m ∉ s.mountList := by
    rw [hok.1]
    exact List.not_mem_nil
  have hp := h.fsMount_pinned ⟨fun j hj _ => by rw [hok.2 j hj]; exact List.not_mem_nil, hi, hused,
    by rw [hok.2 i hi]; decide, hlen, by rw [findDev, hok.1]; rfl⟩
  refine ⟨h.images.of_eq fsMount_same rfl rfl, h.keys, fun e he k hk => ?_,
    fun m hm => absurd hm hnil, fun m hm => absurd hm hnil, h.devs, fun k hk => ?_, fun k r hr => h.fsMount_fresh hr⟩
  · obtain ⟨m, hm, -⟩ := h.entry e he k hk
    exact absurd hm hnil
  · obtain rfl := Option.some.inj hk
    exact ⟨_, update_self .., { hp with }, fun m hm => absurd hm hnil⟩

theorem Inv.mntfsInit (h : Inv s) (hok : s.BootOk) (boot : Option (List UInt8)) (accepts : Nat → Bool)
    (layout : List (Nat × List UInt8)) : Inv (s.mntfsInit boot accepts layout) := by
  have hlayout : ∀ t, Inv t → Inv { layout.foldl MountSys.mountLayout t with mntfsReady := true, ret := 0 } := by
    intro t ht
    have ht' : Inv (layout.foldl MountSys.mountLayout t) := by
      induction layout generalizing t with
      | nil => exact ht
      | cons place layout ih => exact ih _ (ht.mountLayout place)
    exact ht'.congr rfl
  unfold MountSys.mntfsInit
  split_ifs
  · exact h.returns _
  · refine hlayout _ ?_
    split
    · next d i hd hi =>
      obtain ⟨hlt, hused⟩ := fsModPick_spec hi
      obtain ⟨-, hfind⟩ := Option.filter_eq_some_iff.mp hd
      unfold blkdevFind at hfind
      rw [Bool.and_eq_true, decide_eq_true_iff] at hfind
      exact h.bootRoot hok hlt hused hfind.2
    · exact { h with
        images := { h.images with }
        pinned := fun m hm =>
          have ⟨r, hr, hd, hp⟩ := h.pinned m hm
          ⟨r, hr, hd, { hp with }⟩
        boot := nofun }

/-! ### Runs -/

/-- What the callers have to see to. -/
def Careful (s : MountSys) : Event → Prop
  | .mount devarg _ fstype accepts _ => s.MountOk (blkNameFromArg devarg) fstype accepts
  | .umount arg => s.UmountOk arg
  | .boot _ _ _ => s.BootOk
  | _ => True

/-- The boot file system is a RAM file system. -/
def RamBoot (s : MountSys) : Event → Prop
  | .boot boot accepts _ => boot.filter s.blkdevFind = none ∨ s.fsModPick [] accepts = none
  | _ => True

def Clean (s : MountSys) (e : Event) : Prop := Careful s e ∧ RamBoot s e

instance decidableClean (s : MountSys) (e : Event) : Decidable (Clean s e) := by
  have : Decidable (Careful s e) := by
    unfold Careful
    split <;> infer_instance
  have : Decidable (RamBoot s e) := by
    unfold RamBoot
    split <;> infer_instance
  unfold Clean
  infer_instance

theorem Inv.step (h : Inv s) (hc : Careful s ev) (hs : step s ev = some s') : Inv s' := by
  cases ev <;> obtain rfl := Option.some.inj hs
  case load path image =>
    exact h.fsModLoad path image
  case unload inst =>
    unfold MountSys.fsModUnload
    split
    · exact h.returns _
    · exact h.slotUnload _
  case unloadSlot i =>
    unfold MountSys.fsModUnloadSlot
    split_ifs
    · exact h.returns _
    · exact h.slotUnload i
  case mount devarg target fstype accepts ok =>
    exact h.vfsdevMount devarg target fstype accepts ok hc
  case umount arg =>
    exact h.vfsdevUmount hc
  case boot devname accepts layout =>
    exact h.mntfsInit hc devname accepts layout
  all_goals exact h.congr rfl

/-- The module of the boot file system stays, too, if its device is not mounted a second time. -/
theorem boot_module_stays (es : List Event) (s : MountSys) (hcare : MeetsAll step Careful start es)
    (hrun : run step start es = some s) (k : Nat) (hk : s.vfsRoot = some k) :
    ∃ r, s.origin k = some r ∧ s.Pinned r := by
  have hinv := run_invariant Inv.step Inv.start hcare hrun
  obtain ⟨r, hr, hp, -⟩ := hinv.boot k hk
  exact ⟨r, hr, hp⟩

/-- `vfs_root` stays, and so does what the three tables hold if the call fails. -/
structure Framed (s s' : MountSys) : Prop where
  root : s'.vfsRoot = s.vfsRoot
  failed : s'.ret ≠ 0 → s'.table = s.table ∧ s'.mountList = s.mountList ∧ s'.slots = s.slots

theorem framed_returns (c : Int) : Framed s (s.returns c) := ⟨rfl, fun _ => ⟨rfl, rfl, rfl⟩⟩

theorem slotUnload_framed : Framed s (s.slotUnload i) := by
  unfold MountSys.slotUnload
  split_ifs
  · exact framed_returns _
  · exact framed_returns _
  · exact ⟨rfl, fun hret => absurd rfl hret⟩

/-- **A failed call changes nothing** that the three tables hold, and only a boot sets `vfs_root`. -/
theorem step_framed (h : Inv s) (hc : Careful s ev) (hs : step s ev = some s')
    (hboot : ∀ boot accepts layout, ev ≠ .boot boot accepts layout) : Framed s s' := by
  cases ev <;> obtain rfl := Option.some.inj hs
  case load path image =>
    unfold MountSys.fsModLoad
    split
    · exact framed_returns _
    · dsimp only
      split_ifs
      · exact framed_returns _
      · split
        · exact framed_returns _
        · exact ⟨rfl, fun hret => absurd rfl hret⟩
  case unload inst =>
    unfold MountSys.fsModUnload
    split
    · exact framed_returns _
    · exact slotUnload_framed
  case unloadSlot i =>
    unfold MountSys.fsModUnloadSlot
    split_ifs
    · exact framed_returns _
    · exact slotUnload_framed
  -- a refused attach unmounts the device again
  case mount devarg target fstype accepts ok =>
    rcases vfsdevMount_cases devarg target ok hc with ⟨c, -, heq⟩ | ⟨i, ht, heq⟩
    · rw [heq]
      exact framed_returns c
    · rcases attach_cases (s.fsMount i (blkNameFromArg devarg)) (blkNameFromArg devarg) target s.nextNode ok
        with ⟨c, -, heq'⟩ | ⟨host, name, -, -, heq'⟩ <;> rw [heq, heq']
      · exact ⟨rfl, fun _ => ⟨rfl, rfl, fsMount_fsModUnmountDev ht⟩⟩
      · exact ⟨rfl, fun hret => absurd rfl hret⟩
  case umount arg =>
    unfold MountSys.vfsdevUmount
    split
    · exact framed_returns _
    · next m hfind =>
      obtain ⟨table, -, hdet⟩ := h.detach (mem_of_findMount hfind) (hc m hfind)
      rw [hdet]
      dsimp only [Option.getD_some]
      split <;> exact ⟨rfl, fun hret => absurd rfl hret⟩
  case boot devname accepts layout => exact absurd rfl (hboot devname accepts layout)
  all_goals exact ⟨rfl, fun hret => absurd rfl hret⟩

/-- With a RAM file system at the root, no module is behind `vfs_root`, and booting succeeds. -/
theorem mntfsInit_framed {boot : Option (List UInt8)} (h : s.vfsRoot = none)
    (hc : boot.filter s.blkdevFind = none ∨ s.fsModPick [] accepts = none) (layout : List (Nat × List UInt8)) :
    (s.mntfsInit boot accepts layout).vfsRoot = none ∧ (s.mntfsInit boot accepts layout).ret = 0 := by
  unfold MountSys.mntfsInit
  split_ifs
  · exact ⟨h, rfl⟩
  · refine ⟨?_, rfl⟩
    rw [foldl_mountLayout_vfsRoot]
    split
    · next d i hd hi =>
      rcases hc with hnone | hnone
      · rw [hnone] at hd
        cases hd
      · rw [hnone] at hi
        cases hi
    · rfl

theorem step_kept (h : Inv s) (hroot : s.vfsRoot = none) (hc : Clean s ev)
    (hs : step s ev = some s') : s'.vfsRoot = none ∧
      (s'.ret ≠ 0 → s'.table = s.table ∧ s'.mountList = s.mountList ∧ s'.slots = s.slots) := by
  by_cases hboot : ∃ boot accepts layout, ev = .boot boot accepts layout
  · obtain ⟨boot, accepts, layout, rfl⟩ := hboot
    obtain rfl := Option.some.inj hs
    obtain ⟨hnone, hret⟩ := mntfsInit_framed hroot hc.2 layout
    exact ⟨hnone, fun hne => absurd hret hne⟩
  · obtain ⟨hsame, hfail⟩ := step_framed h hc.1 hs fun boot accepts layout he => hboot ⟨boot, accepts, layout, he⟩
    exact ⟨hsame.trans hroot, hfail⟩

/-- The root that the call `k` returned can be reached. -/
def Visible (s : MountSys) (k : Nat) : Prop := s.vfsRoot = some k ∨ ∃ e ∈ s.table, e.target = some k

/-- The module behind the call is resident with its image, has a mount on record and was not told
to unmount, and the device counts as mounted. -/
structure Busy (s : MountSys) (r : FsRoot) : Prop where
  used : (s.slots r.slot).used = true
  image : ∃ j, r.image = some j ∧ (s.slots r.slot).image = some j ∧ s.allocated j = true
  count : 0 < (s.slots r.slot).mounted.length
  unmounted : r.unmounted = false
  device : s.vfsdevDeviceMounted r.dev = true

theorem Inv.busy (h : Inv s) {e : VfsMount} (he : e ∈ s.table) (hk : e.target = some k) :
    ∃ r, s.origin k = some r ∧ s.Busy r := by
  obtain ⟨m, hm, rfl, -, -⟩ := h.entry e he k hk
  obtain ⟨r, hr, hd, hp⟩ := h.pinned m hm
  refine ⟨r, hr, hp.used, hp.image, List.length_pos_of_mem hp.record, hp.unmounted, ?_⟩
  unfold vfsdevDeviceMounted findDev
  rw [List.find?_isSome]
  exact ⟨m, hm, decide_eq_true hd.symm⟩

/-- **A mount keeps its module and its device busy**, and a call that fails leaves the tables as
they were, in every run that boots from RAM, unmounts while the target still leads to the mount,
and mounts only devices that are on no module's record, while the module has room for one. -/
theorem mounts_pin_modules (es : List Event) (s : MountSys) (hclean : MeetsAll step Clean start es)
    (hrun : run step start es = some s) :
    (∀ k, s.Visible k → ∃ r, s.origin k = some r ∧ s.Busy r) ∧
      ∀ ev s', Clean s ev → step s ev = some s' → s'.ret ≠ 0 →
        s'.table = s.table ∧ s'.mountList = s.mountList ∧ s'.slots = s.slots := by
  obtain ⟨hinv, hroot⟩ := run_invariant (P := fun s => Inv s ∧ s.vfsRoot = none)
    (fun h hc hs => ⟨h.1.step hc.1 hs, (step_kept h.1 h.2 hc hs).1⟩)
    ⟨Inv.start, rfl⟩ hclean hrun
  refine ⟨fun k hk => ?_, fun ev s' hc hs hret => (step_kept hinv hroot hc hs).2 hret⟩
  rcases hk with hk | ⟨e, he, hk⟩
  · rw [hroot] at hk
    cases hk
  · exact hinv.busy he hk

/-! ### Runs that do and do not keep to it -/

/-- "ext4", "sda" and "mnt". -/
def ext4 : List UInt8 := [101, 120, 116, 52]
def sda : List UInt8 := [115, 100, 97]
def mnt : List UInt8 := [109, 110, 116]

/-- The working directory is the node `n`; every name resolves in it. -/
def inside (n : Nat) : List UInt8 → Option PathParent := fun path => some ⟨n, true, path⟩

/-- `sda` is mounted on `mnt` in the directory 1. -/
def mountedRun : List Event :=
  [.load ext4 (.ok true), .boot none (fun _ => true) [(1, sda)], .device sda true, .resolves (inside 1),
    .mount sda mnt autoType (fun _ => true) true]

def tidyRun : List Event :=
  mountedRun ++ [.unload ext4, .mount sda mnt ext4 (fun _ => true) true, .umount mnt,
    .mount sda sda ext4 (fun _ => true) true, .mount sda mnt ext4 (fun _ => true) false,
    .mount sda mnt ext4 (fun _ => true) true]

/-- What the example runs look at; `slot`, `image` and `unmounted` are of the first of each. -/
structure View where
  targets : List (Option Nat)
  slot : Bool
  image : Bool
  listed : List (List UInt8)
  unmounted : Option Bool
  ret : Int
deriving DecidableEq

def view (s : MountSys) : View :=
  ⟨s.table.map (·.target), (s.slots 0).used, s.allocated 0, s.mountList.map (·.devname),
    (s.origin 0).map (·.unmounted), s.ret⟩

theorem mounts_pin_modules_tidyRun :
    MeetsAll step Clean start tidyRun ∧
      ∃ s, run step start tidyRun = some s ∧
        ((∀ k, s.Visible k → ∃ r, s.origin k = some r ∧ s.Busy r) ∧
          ∀ ev s', Clean s ev → step s ev = some s' → s'.ret ≠ 0 →
            s'.table = s.table ∧ s'.mountList = s.mountList ∧ s'.slots = s.slots) ∧
        s.view = ⟨[none, some 3], true, true, [sda], some true, 0⟩ := by
  have hclean : MeetsAll step Clean start tidyRun := by decide +kernel
  exact ⟨hclean, exists_of_check (by decide +kernel) fun s hs hview =>
    ⟨mounts_pin_modules tidyRun s hclean hs, hview⟩⟩

/-- The caller changes its directory, unmounts, and unloads the module. -/
def elsewhereRun : List Event := mountedRun ++ [.resolves (inside 2), .umount mnt, .unload ext4]

/-- **`umount` from another directory** fails and drops list entry and record: the module can be
unloaded under the mount, which is still there. -/
theorem umount_from_elsewhere :
    (run step start (mountedRun ++ [.resolves (inside 2), .umount mnt])).map view =
        some ⟨[none, some 0], true, true, [], some true, -1⟩ ∧
      (run step start elsewhereRun).map view = some ⟨[none, some 0], false, false, [], some true, 0⟩ := by
  decide +kernel

/-- The kernel boots from `sda`; `unload` is then refused. -/
theorem boot_module_stays_sda :
    ∃ s, run step start [.load ext4 (.ok true), .device sda true, .boot (some sda) (fun _ => true) [],
      .unload ext4] = some s ∧ s.vfsRoot = some 0 ∧ ∃ r, s.origin 0 = some r ∧ s.Pinned r :=
  exists_of_check (p := (·.vfsRoot = some 0)) (by decide +kernel) fun s hs hk =>
    ⟨hk, boot_module_stays _ s (by simp [MeetsAll, Careful]; decide +kernel) hs 0 hk⟩

end MountSys

end CactKernel
