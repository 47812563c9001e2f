import Mathlib.Algebra.Order.BigOperators.Group.List
import Mathlib.Algebra.Order.Group.Nat
import Mathlib.Data.List.Pairwise
import Mathlib.Data.Nat.Bitwise
import HammerJS.Memory.Heap

/-!
# The arena of the parser

`ParserArena.h`, `ParserArena.cpp`: the nodes of a tree get their memory from pools of 8000
bytes.  The current pool is known by its end only; it joins the list of full pools when the
next one is allocated.

* `ParserArena.allocateFreeable`, `ParserArena.reset`, `ParserArena.deallocateObjects` — the
  functions.
* `ArenaRun` — the calls of a program, and the blocks that it was given.
* `ArenaRun.Valid` — the invariant: the arena owns what is live.
* `parserArena_sound` — blocks never overlap, and each pool is freed once.
-/

namespace HammerJS

open Memory

/-! ## The functions -/

def freeablePoolSize : Nat := 8000

/-- `sizeof(AllocAlignmentInteger)`. -/
def allocAlignment : Nat := 8

/-- `alignSize`, on a `size_t`. -/
def alignSize (size : Nat) : Nat :=
  (size + allocAlignment - 1) % 2 ^ 64 &&& (2 ^ 64 - 1 - (allocAlignment - 1))

/-- `ASSERT`. -/
def assertHolds (c : Prop) [Decidable c] : Except Fault Unit :=
  if c then .ok () else .error .assertion

/-- The fields that say which memory the arena has; the null pointer is 0. -/
structure ParserArena where
  freeableMemory : Nat
  freeablePoolEnd : Nat
  freeablePools : List Nat

namespace ParserArena

/-- The constructor. -/
def new : ParserArena := ⟨0, 0, []⟩

def freeablePool (arena : ParserArena) : Except Fault Nat := do
  assertHolds (arena.freeablePoolEnd ≠ 0)
  return arena.freeablePoolEnd - freeablePoolSize

def deallocateObjects (arena : ParserArena) (heap : Heap) : Except Fault Heap := do
  let heap ←
    if arena.freeablePoolEnd ≠ 0 then heap.free (← arena.freeablePool) else pure heap
  Heap.freeAll arena.freeablePools heap

def reset (arena : ParserArena) (heap : Heap) : Except Fault (ParserArena × Heap) := do
  let heap ← arena.deallocateObjects heap
  return (⟨0, 0, []⟩, heap)

variable [Malloc]

def allocateFreeablePool (arena : ParserArena) (heap : Heap) :
    Except Fault (ParserArena × Heap) := do
  let freeablePools ←
    if arena.freeablePoolEnd ≠ 0 then pure (arena.freeablePools ++ [← arena.freeablePool])
    else pure arena.freeablePools
  let pool := Malloc.malloc freeablePoolSize heap
  let heap := ⟨⟨pool, freeablePoolSize⟩, 0⟩ :: heap
  let arena : ParserArena := ⟨pool, pool + freeablePoolSize, freeablePools⟩
  assertHolds ((← arena.freeablePool) = pool)
  return (arena, heap)

/-- `allocateFreeable`, with the block that it returns. -/
def allocateFreeable (size : Nat) (arena : ParserArena) (heap : Heap) :
    Except Fault (Nat × ParserArena × Heap) := do
  assertHolds (size ≠ 0)
  assertHolds (size ≤ freeablePoolSize)
  let alignedSize := alignSize size
  assertHolds (alignedSize ≤ freeablePoolSize)
  let (arena, heap) ←
    if arena.freeablePoolEnd - arena.freeableMemory < alignedSize then
      arena.allocateFreeablePool heap
    else pure (arena, heap)
  let block := arena.freeableMemory
  return (block, { arena with freeableMemory := arena.freeableMemory + alignedSize }, heap)

end ParserArena

/-! ## Sizes -/

theorem alignSize_eq {size : Nat} (h : size ≤ freeablePoolSize) :
    alignSize size = (size + 7) / 8 * 8 := by
  have hlt : size + 7 < 2 ^ 64 := by
    unfold freeablePoolSize at h
    omega
  have hsum : (size + allocAlignment - 1) % 2 ^ 64 = size + 7 := Nat.mod_eq_of_lt hlt
  rw [alignSize, hsum]
  apply Nat.eq_of_testBit_eq
  intro i
  have hmask : (2 ^ 64 - 1 - (allocAlignment - 1) : Nat) = (2 ^ 61 - 1) * 2 ^ 3 := by decide
  have hright : (size + 7) / 8 * 8 = (size + 7) / 2 ^ 3 * 2 ^ 3 := rfl
  rw [Nat.testBit_and, hmask, hright, Nat.testBit_mul_two_pow, Nat.testBit_mul_two_pow,
    Nat.testBit_two_pow_sub_one, Nat.testBit_div_two_pow]
  by_cases hi : 3 ≤ i
  · rw [Nat.sub_add_cancel hi]
    by_cases hbig : i < 64
    · simp [hi]
      omega
    · have hzero : (size + 7).testBit i = false :=
        Nat.testBit_lt_two_pow (hlt.trans_le (Nat.pow_le_pow_right (by decide) (by omega)))
      simp [hzero]
  · simp [hi]

theorem freeablePoolSize_pos : 0 < freeablePoolSize := by decide

/-- A request is rounded up, to a size that a pool has room for. -/
theorem alignSize_range {size : Nat} (h : size ≤ freeablePoolSize) :
    size ≤ alignSize size ∧ alignSize size ≤ freeablePoolSize ∧ 8 ∣ alignSize size := by
  rw [alignSize_eq h]
  unfold freeablePoolSize at *
  omega

/-! ## Runs -/

/-- What the program asks of the arena. -/
inductive ArenaCall where
  | allocateFreeable (size : Nat)
  | reset
  deriving DecidableEq

/-- The sizes that may be asked for. -/
def ArenaCall.Legal : ArenaCall → Prop
  | .allocateFreeable size => 0 < size ∧ size ≤ freeablePoolSize
  | .reset => True

/-- A block that was handed out, and the pool that was the current one then. -/
structure Block extends Extent where
  pool : Nat

/-- An arena in use: `blocks` are those handed out since the last reset, the latest first. -/
structure ArenaRun where
  arena : ParserArena
  heap : Heap
  blocks : List Block

namespace ArenaRun

/-- Nothing was asked for. -/
def start : ArenaRun := ⟨.new, [], []⟩

def perform [Malloc] (run : ArenaRun) : ArenaCall → Except Fault ArenaRun
  | .allocateFreeable size => do
      let (block, arena, heap) ← run.arena.allocateFreeable size run.heap
      return ⟨arena, heap, ⟨⟨block, size⟩, ← arena.freeablePool⟩ :: run.blocks⟩
  | .reset => do
      let (arena, heap) ← run.arena.reset run.heap
      return ⟨arena, heap, []⟩

/-- One call after the other. -/
def performAll [Malloc] : List ArenaCall → ArenaRun → Except Fault ArenaRun
  | [], run => .ok run
  | call :: calls, run => do performAll calls (← run.perform call)

/-- The destructor, and the heap that it leaves. -/
def destroy (run : ArenaRun) : Except Fault Heap := run.arena.deallocateObjects run.heap

/-- The blocks handed out since the last reset are memory of their own. -/
structure Sound (run : ArenaRun) : Prop where
  /-- A block lies in the pool that was the current one. -/
  inside : ∀ b ∈ run.blocks, Extent.Inside b.toExtent ⟨b.pool, freeablePoolSize⟩
  offset : ∀ b ∈ run.blocks, 8 ∣ b.address - b.pool
  apart : run.blocks.Pairwise fun a b => Extent.Apart a.toExtent b.toExtent
  /-- The pool of a block is not freed. -/
  kept : ∀ b ∈ run.blocks, ∃ a ∈ run.heap, a.address = b.pool ∧ a.freed = 0

end ArenaRun

/-! ## The invariant -/

/-- The pools that an arena owns, in the order in which they are freed. -/
def ParserArena.pools (arena : ParserArena) : List Nat :=
  (if arena.freeablePoolEnd = 0 then [] else [arena.freeablePoolEnd - freeablePoolSize]) ++
    arena.freeablePools

/-- Where the memory starts that is not handed out. -/
structure ParserArena.Room (arena : ParserArena) : Prop where
  none : arena.freeablePoolEnd = 0 → arena.freeableMemory = 0 ∧ arena.freeablePools = []
  some : arena.freeablePoolEnd ≠ 0 →
    ∃ used, arena.freeableMemory = arena.freeablePoolEnd - freeablePoolSize + used ∧
      used ≤ freeablePoolSize ∧ 8 ∣ used ∧ freeablePoolSize < arena.freeablePoolEnd

/-- What holds between two calls. -/
structure ArenaRun.Valid (run : ArenaRun) : Prop where
  heap : Heap.Valid freeablePoolSize run.heap
  owns : run.heap.live.Perm run.arena.pools
  room : run.arena.Room
  inside : ∀ b ∈ run.blocks, Extent.Inside b.toExtent ⟨b.pool, freeablePoolSize⟩
  offset : ∀ b ∈ run.blocks, 8 ∣ b.address - b.pool
  apart : run.blocks.Pairwise fun a b => Extent.Apart a.toExtent b.toExtent
  pool : ∀ b ∈ run.blocks, b.pool ∈ run.arena.pools
  /-- What was handed out of the current pool lies below the memory not handed out. -/
  below : ∀ b ∈ run.blocks, b.pool = run.arena.freeablePoolEnd - freeablePoolSize →
    b.address + b.size ≤ run.arena.freeableMemory

theorem assertHolds_eq {c : Prop} [Decidable c] (h : c) : assertHolds c = .ok () := if_pos h

theorem ok_bind {α β : Type} (a : α) (f : α → Except Fault β) : (Except.ok a >>= f) = f a := rfl

namespace ParserArena

theorem freeablePool_eq {arena : ParserArena} (h : arena.freeablePoolEnd ≠ 0) :
    arena.freeablePool = .ok (arena.freeablePoolEnd - freeablePoolSize) := by
  rw [freeablePool, assertHolds_eq h, ok_bind]
  rfl

theorem pools_of_current {arena : ParserArena} (h : arena.freeablePoolEnd ≠ 0) :
    arena.pools = (arena.freeablePoolEnd - freeablePoolSize) :: arena.freeablePools := by
  rw [pools, if_neg h]
  rfl

/-- Freeing the pools, the current one first. -/
theorem deallocateObjects_eq (arena : ParserArena) (heap : Heap) :
    arena.deallocateObjects heap = Heap.freeAll arena.pools heap := by
  unfold deallocateObjects pools
  by_cases h : arena.freeablePoolEnd = 0
  · rw [if_neg (not_not.mpr h), if_pos h, pure_bind, List.nil_append]
  · rw [if_pos h, if_neg h, freeablePool_eq h, ok_bind]
    simp only [List.cons_append, List.nil_append, Heap.freeAll]

/-- The arena after a refill. -/
def refilled (pool : Nat) (arena : ParserArena) : ParserArena :=
  ⟨pool, pool + freeablePoolSize,
    if arena.freeablePoolEnd ≠ 0 then
      arena.freeablePools ++ [arena.freeablePoolEnd - freeablePoolSize]
    else arena.freeablePools⟩

theorem refilled_pool (pool : Nat) (freeablePools : List Nat) :
    (ParserArena.mk pool (pool + freeablePoolSize) freeablePools).freeablePool = .ok pool := by
  have hend : pool + freeablePoolSize ≠ 0 := by
    unfold freeablePoolSize
    omega
  rw [freeablePool_eq hend]
  simp only [Nat.add_sub_cancel]

theorem allocateFreeablePool_eq [Malloc] (arena : ParserArena) (heap : Heap) :
    arena.allocateFreeablePool heap =
      .ok (arena.refilled (Malloc.malloc freeablePoolSize heap),
        ⟨⟨Malloc.malloc freeablePoolSize heap, freeablePoolSize⟩, 0⟩ :: heap) := by
  unfold allocateFreeablePool refilled
  by_cases h : arena.freeablePoolEnd = 0
  · rw [if_neg (not_not.mpr h), if_neg (not_not.mpr h), pure_bind]
    dsimp only
    rw [refilled_pool, ok_bind, assertHolds_eq rfl, ok_bind]
    rfl
  · rw [if_pos h, if_pos h, freeablePool_eq h, ok_bind, pure_bind]
    dsimp only
    rw [refilled_pool, ok_bind, assertHolds_eq rfl, ok_bind]
    rfl

/-- There is room for a block, once the pool was refilled where there was not. -/
theorem allocateFreeable_eq [Malloc] {size : Nat} (hpos : 0 < size) (hle : size ≤ freeablePoolSize)
    (arena : ParserArena) (heap : Heap) :
    arena.allocateFreeable size heap =
      (if arena.freeablePoolEnd - arena.freeableMemory < alignSize size then
        arena.allocateFreeablePool heap
      else pure (arena, heap)) >>= fun r =>
        pure (r.1.freeableMemory,
          { r.1 with freeableMemory := r.1.freeableMemory + alignSize size }, r.2) := by
  have haligned := (alignSize_range hle).2.1
  unfold allocateFreeable
  rw [assertHolds_eq (Nat.pos_iff_ne_zero.mp hpos), ok_bind, assertHolds_eq hle, ok_bind]
  dsimp only
  rw [assertHolds_eq haligned, ok_bind]
  split <;> rfl

end ParserArena

theorem ParserArena.Room.refilled {pool : Nat} (hpool : pool ≠ 0) (arena : ParserArena) :
    (arena.refilled pool).Room where
  none h := by
    change pool + freeablePoolSize = 0 at h
    omega
  some _ := by
    refine ⟨0, ?_, Nat.zero_le _, Nat.dvd_zero 8, ?_⟩
    · show pool = pool + freeablePoolSize - freeablePoolSize + 0
      omega
    · show freeablePoolSize < pool + freeablePoolSize
      omega

namespace ArenaRun.Valid

variable {run : ArenaRun}

theorem start : ArenaRun.start.Valid where
  heap := .nil _
  owns := .refl _
  room := ⟨fun _ => ⟨rfl, rfl⟩, fun h => absurd rfl h⟩
  inside := nofun
  offset := nofun
  apart := .nil
  pool := nofun
  below := nofun

/-- Two pools of the arena lie apart. -/
theorem pools_apart (h : run.Valid) {p q : Nat} (hp : p ∈ run.arena.pools)
    (hq : q ∈ run.arena.pools) (hne : p ≠ q) :
    Extent.Apart ⟨p, freeablePoolSize⟩ ⟨q, freeablePoolSize⟩ := by
  have hapart := h.heap.live_apart
  have hsymm : Std.Symm fun p q : Nat =>
      Extent.Apart ⟨p, freeablePoolSize⟩ ⟨q, freeablePoolSize⟩ := ⟨fun _ _ => Extent.Apart.symm⟩
  exact hapart.forall (h.owns.mem_iff.mpr hp) (h.owns.mem_iff.mpr hq) hne

/-- The next pool. -/
theorem refill [Malloc] (h : run.Valid) :
    ArenaRun.Valid ⟨run.arena.refilled (Malloc.malloc freeablePoolSize run.heap),
      ⟨⟨Malloc.malloc freeablePoolSize run.heap, freeablePoolSize⟩, 0⟩ :: run.heap,
      run.blocks⟩ := by
  have hheap := h.heap.malloc
  have hnull := Malloc.ne_null freeablePoolSize run.heap
  generalize Malloc.malloc freeablePoolSize run.heap = pool at hheap hnull ⊢
  have hpools : (run.arena.refilled pool).pools.Perm (pool :: run.arena.pools) := by
    have hend : (run.arena.refilled pool).freeablePoolEnd ≠ 0 := by
      show pool + freeablePoolSize ≠ 0
      omega
    rw [ParserArena.pools_of_current hend]
    have hcurrent : (run.arena.refilled pool).freeablePoolEnd - freeablePoolSize = pool :=
      Nat.add_sub_cancel pool freeablePoolSize
    rw [hcurrent]
    refine List.Perm.cons pool ?_
    unfold ParserArena.refilled ParserArena.pools
    by_cases hzero : run.arena.freeablePoolEnd = 0
    · simp [hzero]
    · simp only [ne_eq, hzero, not_false_eq_true, if_true, if_false]
      exact List.perm_append_comm
  have hold : ∀ b ∈ run.blocks, b.pool ≠ pool := fun b hb heq => by
    have hlive := h.owns.mem_iff.mpr (h.pool b hb)
    rw [heq] at hlive
    have hapart := (List.pairwise_cons.mp (Heap.live_malloc pool ▸ hheap.live_apart)).1 pool hlive
    exact Extent.not_apart_of_address rfl freeablePoolSize_pos freeablePoolSize_pos hapart
  refine ⟨hheap, ?_, .refilled hnull _, h.inside, h.offset, h.apart, ?_, ?_⟩
  · rw [Heap.live_malloc]
    exact (h.owns.cons pool).trans hpools.symm
  · exact fun b hb => hpools.mem_iff.mpr (List.mem_cons_of_mem _ (h.pool b hb))
  · intro b hb hpool
    have hcurrent : (run.arena.refilled pool).freeablePoolEnd - freeablePoolSize = pool :=
      Nat.add_sub_cancel pool freeablePoolSize
    rw [hcurrent] at hpool
    exact absurd hpool (hold b hb)

/-- The next block of the current pool. -/
theorem handOut (h : run.Valid) {size : Nat} (hpos : 0 < size) (hle : size ≤ freeablePoolSize)
    (hroom : ¬ run.arena.freeablePoolEnd - run.arena.freeableMemory < alignSize size) :
    ParserArena.freeablePool
        { run.arena with freeableMemory := run.arena.freeableMemory + alignSize size } =
      .ok (run.arena.freeablePoolEnd - freeablePoolSize) ∧ ArenaRun.Valid
      ⟨{ run.arena with freeableMemory := run.arena.freeableMemory + alignSize size }, run.heap,
        ⟨⟨run.arena.freeableMemory, size⟩, run.arena.freeablePoolEnd - freeablePoolSize⟩ ::
          run.blocks⟩ := by
  obtain ⟨hsize, haligned, height⟩ := alignSize_range hle
  have hend : run.arena.freeablePoolEnd ≠ 0 := fun hzero => by
    have hmemory := (h.room.none hzero).1
    omega
  obtain ⟨used, hmemory, hused, hdvd, hlt⟩ := h.room.some hend
  have hpool : run.arena.freeablePoolEnd - freeablePoolSize ∈ run.arena.pools := by
    rw [ParserArena.pools_of_current hend]
    exact List.mem_cons_self ..
  have hinside : Extent.Inside ⟨run.arena.freeableMemory, size⟩
      ⟨run.arena.freeablePoolEnd - freeablePoolSize, freeablePoolSize⟩ := by
    unfold Extent.Inside
    simp only
    omega
  refine ⟨ParserArena.freeablePool_eq hend, h.heap, h.owns,
    ⟨fun hzero => absurd hzero hend, fun _ => ?_⟩, ?_, ?_, ?_, ?_, ?_⟩
  · refine ⟨used + alignSize size, ?_, by omega, Nat.dvd_add hdvd height, hlt⟩
    simp only [hmemory, Nat.add_assoc]
  · exact List.forall_mem_cons.mpr ⟨hinside, h.inside⟩
  · refine List.forall_mem_cons.mpr ⟨?_, h.offset⟩
    simp only [hmemory, Nat.add_sub_cancel_left]
    exact hdvd
  · refine List.pairwise_cons.mpr ⟨fun b hb => ?_, h.apart⟩
    by_cases hcurrent : b.pool = run.arena.freeablePoolEnd - freeablePoolSize
    · exact Or.inr (h.below b hb hcurrent)
    · exact (h.pools_apart hpool (h.pool b hb) (Ne.symm hcurrent)).mono hinside (h.inside b hb)
  · exact List.forall_mem_cons.mpr ⟨hpool, h.pool⟩
  · refine List.forall_mem_cons.mpr ⟨fun _ => ?_, fun b hb hcurrent => ?_⟩
    · simp only
      omega
    · have hbelow := h.below b hb hcurrent
      simp only
      omega

/-- What is freed is all that the arena owns. -/
theorem deallocateObjects (h : run.Valid) : ∃ heap, run.arena.deallocateObjects run.heap = .ok heap ∧
    heap.Valid freeablePoolSize ∧ heap.live = [] := by
  rw [ParserArena.deallocateObjects_eq]
  exact h.heap.freeAll freeablePoolSize_pos h.owns

/-- A call that is allowed meets its assertions, and keeps the invariant. -/
theorem perform [Malloc] (h : run.Valid) {call : ArenaCall} (hcall : call.Legal) :
    ∃ run', run.perform call = .ok run' ∧ run'.Valid := by
  cases call with
  | allocateFreeable size =>
      obtain ⟨hpos, hle⟩ := hcall
      unfold ArenaRun.perform
      dsimp only
      rw [ParserArena.allocateFreeable_eq hpos hle]
      by_cases hfull : run.arena.freeablePoolEnd - run.arena.freeableMemory < alignSize size
      · have hroom : ¬ (run.arena.refilled
            (Malloc.malloc freeablePoolSize run.heap)).freeablePoolEnd -
              (run.arena.refilled (Malloc.malloc freeablePoolSize run.heap)).freeableMemory <
                alignSize size := by
          have haligned := (alignSize_range hle).2.1
          simp only [ParserArena.refilled, Nat.add_sub_cancel_left]
          omega
        obtain ⟨hpool, hvalid⟩ := h.refill.handOut hpos hle hroom
        rw [if_pos hfull, ParserArena.allocateFreeablePool_eq, ok_bind, pure_bind]
        dsimp only
        rw [hpool, ok_bind]
        exact ⟨_, rfl, hvalid⟩
      · obtain ⟨hpool, hvalid⟩ := h.handOut hpos hle hfull
        rw [if_neg hfull, pure_bind, pure_bind]
        dsimp only
        rw [hpool, ok_bind]
        exact ⟨_, rfl, hvalid⟩
  | reset =>
      obtain ⟨heap, hfree, hheap, hlive⟩ := h.deallocateObjects
      refine ⟨⟨⟨0, 0, []⟩, heap, []⟩, ?_, hheap, ?_, ?_, nofun, nofun, .nil, nofun, nofun⟩
      · unfold ArenaRun.perform ParserArena.reset
        rw [hfree, ok_bind, pure_bind]
        rfl
      · rw [hlive]
        exact .refl _
      · exact ⟨fun _ => ⟨rfl, rfl⟩, fun hend => absurd rfl hend⟩

theorem performAll [Malloc] (h : run.Valid) {calls : List ArenaCall}
    (hcalls : ∀ call ∈ calls, call.Legal) :
    ∃ run', ArenaRun.performAll calls run = .ok run' ∧ run'.Valid := by
  induction calls generalizing run with
  | nil => exact ⟨run, rfl, h⟩
  | cons call calls ih =>
      obtain ⟨hcall, hrest⟩ := List.forall_mem_cons.mp hcalls
      obtain ⟨next, hperform, hnext⟩ := h.perform hcall
      obtain ⟨run', hall, hvalid⟩ := ih hnext hrest
      refine ⟨run', ?_, hvalid⟩
      rw [ArenaRun.performAll, hperform, ok_bind, hall]

/-- The invariant says what the program relies on. -/
theorem sound (h : run.Valid) : run.Sound where
  inside := h.inside
  offset := h.offset
  apart := h.apart
  kept b hb := by
    obtain ⟨a, ha, hfreed, haddress⟩ := Heap.mem_live.mp (h.owns.mem_iff.mpr (h.pool b hb))
    exact ⟨a, ha, haddress, hfreed⟩

end ArenaRun.Valid

/-- **The memory of the arena.**  Whatever is asked for, in any order, no assertion fails and
nothing is freed that is not allocated; the blocks handed out since the last reset lie in
their pools, none of which is freed, and do not overlap; and after the destructor each pool
was freed once. -/
theorem parserArena_sound [Malloc] (calls : List ArenaCall) (h : ∀ call ∈ calls, call.Legal) :
    ∃ run, ArenaRun.performAll calls .start = .ok run ∧ run.Sound ∧
      ∃ heap, run.destroy = .ok heap ∧
        ∀ a ∈ heap, a.size = freeablePoolSize ∧ a.freed = 1 := by
  obtain ⟨run, hrun, hvalid⟩ := ArenaRun.Valid.start.performAll h
  obtain ⟨heap, hfree, hheap, hlive⟩ := hvalid.deallocateObjects
  exact ⟨run, hrun, hvalid.sound, heap, hfree, fun a ha => ⟨hheap.sized a ha,
    hheap.freed_once hlive a ha⟩⟩

/-- A `malloc` that never returns an address twice. -/
@[reducible]
def bumpMalloc : Malloc where
  malloc size heap := 8 * (size + (heap.map fun a => a.address + a.size).sum + 1)
  ne_null size heap := by omega
  aligned size heap := Nat.dvd_mul_right ..
  fresh size heap a ha _ := by
    have hle : a.address + a.size ≤ (heap.map fun a => a.address + a.size).sum :=
      List.le_sum_of_mem (List.mem_map_of_mem ha)
    refine Or.inr ?_
    simp only
    omega

/-- Two blocks that fill a pool, a third that does not fit any more, and one after a reset. -/
def fillingCalls : List ArenaCall :=
  [.reset, .allocateFreeable 7993, .allocateFreeable 1, .allocateFreeable 8, .reset,
    .allocateFreeable 8000]

theorem parserArena_sound_fills :
    letI := bumpMalloc
    ∃ run, ArenaRun.performAll fillingCalls .start = .ok run ∧ run.Sound ∧
      ∃ heap, run.destroy = .ok heap ∧
        ∀ a ∈ heap, a.size = freeablePoolSize ∧ a.freed = 1 := by
  let _ := bumpMalloc
  have hlegal : ∀ call ∈ fillingCalls, call.Legal := by
    simp [fillingCalls, ArenaCall.Legal, freeablePoolSize]
  exact parserArena_sound fillingCalls hlegal

end HammerJS
