import Mathlib.Data.List.Perm.Basic
import Mathlib.Data.List.Perm.Lattice

/-!
# Memory from `malloc`

The heap as its history: each piece of memory that `malloc` has returned, with the number of
times `free` was called on it.  An address may be returned again once it was freed.

* `Extent` — a range of addresses; `Extent.Apart`, `Extent.Inside`.
* `Malloc` — an implementation of `malloc`, which returns fresh memory.
* `Heap.free` — the call of `free`; it faults on an address that `malloc` never returned.
* `Heap.live` — the memory not freed so far.
* `Heap.Valid.free`, `Heap.Valid.freeAll` — freeing what is live.
-/

namespace Memory

/-! ## Extents -/

/-- The addresses from `address` on, `size` of them. -/
structure Extent where
  address : Nat
  size : Nat
  deriving DecidableEq

namespace Extent

variable {a b c d : Extent}

/-- No address belongs to both. -/
def Apart (a b : Extent) : Prop :=
  a.address + a.size ≤ b.address ∨ b.address + b.size ≤ a.address

/-- Every address of the first belongs to the second. -/
def Inside (a b : Extent) : Prop :=
  b.address ≤ a.address ∧ a.address + a.size ≤ b.address + b.size

theorem Apart.symm (h : Apart a b) : Apart b a := Or.symm h

theorem Apart.mono (h : Apart a b) (hc : c.Inside a) (hd : d.Inside b) : Apart c d := by
  unfold Apart Inside at *
  omega

theorem not_apart_of_address (h : a.address = b.address) (ha : 0 < a.size) (hb : 0 < b.size) :
    ¬ Apart a b := by
  unfold Apart
  omega

end Extent

/-! ## The heap -/

/-- What `malloc` has returned, and how often `free` was called on it. -/
structure Allocation extends Extent where
  freed : Nat

/-- The history of the heap, the latest allocation first. -/
abbrev Heap := List Allocation

/-- The ways in which code goes wrong. -/
inductive Fault where
  /-- `free` of what `malloc` has not returned. -/
  | invalidFree
  | assertion
  deriving DecidableEq

/-- An implementation of `malloc`, for requests of `size > 0`: it knows all that has happened. -/
class Malloc where
  malloc : Nat → Heap → Nat
  ne_null : ∀ size heap, malloc size heap ≠ 0
  aligned : ∀ size heap, 8 ∣ malloc size heap
  fresh : ∀ size (heap : Heap), ∀ a ∈ heap, a.freed = 0 →
    Extent.Apart ⟨malloc size heap, size⟩ a.toExtent

namespace Heap

/-- Count a call of `free` for the latest allocation at an address. -/
def release (address : Nat) : Heap → Option Heap
  | [] => none
  | a :: heap =>
      if a.address = address then some ({ a with freed := a.freed + 1 } :: heap)
      else (release address heap).map (a :: ·)

/-- `free(address)`. -/
def free (address : Nat) (heap : Heap) : Except Fault Heap :=
  if address = 0 then .ok heap
  else
    match release address heap with
    | some heap => .ok heap
    | none => .error .invalidFree

/-- `free` of one address after the other. -/
def freeAll : List Nat → Heap → Except Fault Heap
  | [], heap => .ok heap
  | address :: rest, heap => do freeAll rest (← heap.free address)

/-- The addresses that are not freed. -/
def live (heap : Heap) : List Nat :=
  (heap.filter fun a => a.freed = 0).map fun a => a.address

/-- No allocation has been freed twice, and what is not freed is apart from what was
returned later. -/
structure Valid (size : Nat) (heap : Heap) : Prop where
  notNull : ∀ a ∈ heap, a.address ≠ 0
  aligned : ∀ a ∈ heap, 8 ∣ a.address
  sized : ∀ a ∈ heap, a.size = size
  once : ∀ a ∈ heap, a.freed ≤ 1
  apart : heap.Pairwise fun later a => a.freed = 0 → Extent.Apart later.toExtent a.toExtent

theorem mem_live {heap : Heap} {address : Nat} :
    address ∈ heap.live ↔ ∃ a ∈ heap, a.freed = 0 ∧ a.address = address := by
  simp [live, and_assoc]

theorem Valid.nil (size : Nat) : Valid size [] :=
  ⟨nofun, nofun, nofun, nofun, .nil⟩

variable {size : Nat} {heap : Heap}

theorem Valid.tail {a : Allocation} (h : Valid size (a :: heap)) : Valid size heap where
  notNull b hb := h.notNull b (List.mem_cons_of_mem _ hb)
  aligned b hb := h.aligned b (List.mem_cons_of_mem _ hb)
  sized b hb := h.sized b (List.mem_cons_of_mem _ hb)
  once b hb := h.once b (List.mem_cons_of_mem _ hb)
  apart := h.apart.of_cons

/-- What is not freed lies apart. -/
theorem Valid.live_apart (h : Valid size heap) :
    heap.live.Pairwise fun p q => Extent.Apart ⟨p, size⟩ ⟨q, size⟩ := by
  unfold live
  rw [List.pairwise_map]
  refine (h.apart.filter fun a => decide (a.freed = 0)).imp_of_mem ?_
  intro a b ha hb hab
  rw [List.mem_filter] at ha hb
  have hapart := hab (of_decide_eq_true hb.2)
  rw [← h.sized a ha.1] at *
  have hsize := h.sized b hb.1
  rw [← h.sized a ha.1] at hsize
  unfold Extent.Apart at *
  simp only at *
  omega

/-- `malloc` adds to what is live. -/
theorem Valid.malloc [Malloc] (h : Valid size heap) :
    Valid size (⟨⟨Malloc.malloc size heap, size⟩, 0⟩ :: heap) where
  notNull := List.forall_mem_cons.mpr ⟨Malloc.ne_null size heap, h.notNull⟩
  aligned := List.forall_mem_cons.mpr ⟨Malloc.aligned size heap, h.aligned⟩
  sized := List.forall_mem_cons.mpr ⟨rfl, h.sized⟩
  once := List.forall_mem_cons.mpr ⟨Nat.zero_le 1, h.once⟩
  apart := List.pairwise_cons.mpr ⟨Malloc.fresh size heap, h.apart⟩

theorem live_malloc (address : Nat) :
    live (⟨⟨address, size⟩, 0⟩ :: heap) = address :: heap.live := rfl

/-- The latest allocation at a live address is the live one. -/
theorem Valid.head_freed {a : Allocation} (h : Valid size (a :: heap)) (hsize : 0 < size)
    (hlive : a.address ∈ live (a :: heap)) : a.freed = 0 := by
  obtain ⟨b, hb, hfreed, haddress⟩ := mem_live.mp hlive
  rcases List.mem_cons.mp hb with rfl | hb
  · exact hfreed
  · have hapart := (List.pairwise_cons.mp h.apart).1 b hb hfreed
    have ha := h.sized a (List.mem_cons_self ..)
    have hb := h.sized b (List.mem_cons_of_mem _ hb)
    exact absurd hapart (Extent.not_apart_of_address haddress.symm (by omega) (by omega))

/-- What stays of an allocation when `free` is called. -/
theorem exists_of_mem_release {address : Nat} {heap' : Heap} (h : release address heap = some heap')
    {b : Allocation} (hb : b ∈ heap') :
    ∃ a ∈ heap, b.toExtent = a.toExtent ∧ a.freed ≤ b.freed := by
  induction heap generalizing heap' with
  | nil => cases h
  | cons a heap ih =>
      unfold release at h
      by_cases ha : a.address = address
      · rw [if_pos ha] at h
        cases h
        rcases List.mem_cons.mp hb with rfl | hb
        · exact ⟨a, List.mem_cons_self .., rfl, Nat.le_succ _⟩
        · exact ⟨b, List.mem_cons_of_mem _ hb, rfl, Nat.le_refl _⟩
      · rw [if_neg ha] at h
        obtain ⟨rest, hrest, rfl⟩ := Option.map_eq_some_iff.mp h
        rcases List.mem_cons.mp hb with rfl | hb
        · exact ⟨b, List.mem_cons_self .., rfl, Nat.le_refl _⟩
        · obtain ⟨c, hc, heq⟩ := ih hrest hb
          exact ⟨c, List.mem_cons_of_mem _ hc, heq⟩

theorem Valid.release (h : Valid size heap) (hsize : 0 < size) {address : Nat}
    (hlive : address ∈ heap.live) : ∃ heap', Heap.release address heap = some heap' ∧
      Valid size heap' ∧ heap'.live = heap.live.erase address := by
  induction heap with
  | nil => cases hlive
  | cons a heap ih =>
      unfold Heap.release
      by_cases ha : a.address = address
      · -- the latest one at this address: it has not been freed
        subst ha
        have hfreed := h.head_freed hsize hlive
        refine ⟨_, if_pos rfl, ⟨?_, ?_, ?_, ?_, ?_⟩, ?_⟩
        · exact List.forall_mem_cons.mpr (List.forall_mem_cons.mp h.notNull)
        · exact List.forall_mem_cons.mpr (List.forall_mem_cons.mp h.aligned)
        · exact List.forall_mem_cons.mpr (List.forall_mem_cons.mp h.sized)
        · exact List.forall_mem_cons.mpr ⟨by simp [hfreed], h.tail.once⟩
        · exact List.pairwise_cons.mpr (List.pairwise_cons.mp h.apart)
        · simp [live, hfreed]
      · have htail : address ∈ live heap := by
          obtain ⟨b, hb, hfreed, haddress⟩ := mem_live.mp hlive
          rcases List.mem_cons.mp hb with rfl | hb
          · exact absurd haddress ha
          · exact mem_live.mpr ⟨b, hb, hfreed, haddress⟩
        obtain ⟨heap', hrelease, hvalid, hlive'⟩ := ih h.tail htail
        refine ⟨a :: heap', by rw [if_neg ha, hrelease]; rfl, ⟨?_, ?_, ?_, ?_, ?_⟩, ?_⟩
        · exact List.forall_mem_cons.mpr ⟨(List.forall_mem_cons.mp h.notNull).1, hvalid.notNull⟩
        · exact List.forall_mem_cons.mpr ⟨(List.forall_mem_cons.mp h.aligned).1, hvalid.aligned⟩
        · exact List.forall_mem_cons.mpr ⟨(List.forall_mem_cons.mp h.sized).1, hvalid.sized⟩
        · exact List.forall_mem_cons.mpr ⟨(List.forall_mem_cons.mp h.once).1, hvalid.once⟩
        · refine List.pairwise_cons.mpr ⟨fun b hb hfreed => ?_, hvalid.apart⟩
          obtain ⟨c, hc, hextent, hle⟩ := exists_of_mem_release hrelease hb
          rw [hextent]
          exact (List.pairwise_cons.mp h.apart).1 c hc (by omega)
        · by_cases hfreed : a.freed = 0
          · have hcons (heap : Heap) : live (a :: heap) = a.address :: live heap := by
              simp [live, hfreed]
            rw [hcons, hcons, hlive', List.erase_cons_tail (by simpa using ha)]
          · have hskip (heap : Heap) : live (a :: heap) = live heap := by simp [live, hfreed]
            rw [hskip, hskip, hlive']

/-- **Live memory can be freed**, and then it is no longer live. -/
theorem Valid.free (h : Valid size heap) (hsize : 0 < size) {address : Nat}
    (hlive : address ∈ heap.live) : ∃ heap', Heap.free address heap = .ok heap' ∧
      Valid size heap' ∧ heap'.live = heap.live.erase address := by
  obtain ⟨heap', hrelease, hvalid, hlive'⟩ := h.release hsize hlive
  obtain ⟨a, ha, -, rfl⟩ := mem_live.mp hlive
  refine ⟨heap', ?_, hvalid, hlive'⟩
  rw [Heap.free, if_neg (h.notNull a ha), hrelease]

/-- **All that is live can be freed**, in any order, and then nothing is live. -/
theorem Valid.freeAll (h : Valid size heap) (hsize : 0 < size) {addresses : List Nat}
    (hlive : heap.live.Perm addresses) : ∃ heap', Heap.freeAll addresses heap = .ok heap' ∧
      Valid size heap' ∧ heap'.live = [] := by
  induction addresses generalizing heap with
  | nil => exact ⟨heap, rfl, h, hlive.eq_nil⟩
  | cons address rest ih =>
      obtain ⟨next, hfree, hvalid, hnext⟩ :=
        h.free hsize (hlive.mem_iff.mpr (List.mem_cons_self ..))
      have hrest : next.live.Perm rest := by
        rw [hnext]
        exact List.erase_cons_head address rest ▸ hlive.erase address
      obtain ⟨heap', hall, hdone⟩ := ih hvalid hrest
      refine ⟨heap', ?_, hdone⟩
      rw [Heap.freeAll, hfree]
      exact hall

/-- Where nothing is live, all was freed once. -/
theorem Valid.freed_once (h : Valid size heap) (hlive : heap.live = []) :
    ∀ a ∈ heap, a.freed = 1 := by
  intro a ha
  have hle := h.once a ha
  have hne : a.freed ≠ 0 := fun hfreed => by
    have hmem := mem_live.mpr ⟨a, ha, hfreed, rfl⟩
    rw [hlive] at hmem
    cases hmem
  omega

end Heap

end Memory
