import Mathlib.Tactic.Common

/-!
# UTF-8, one code unit at a time

A conversion between UTF-16 code units and bytes: each unit has an encoding of
one to three bytes of its own, and a byte that fits nowhere is decoded to the
replacement character.

* `encode`, `decode` — the two directions.
* `decode_encode` — decoding undoes encoding.
* `decode_append_ascii` — an ASCII byte is always a character by itself.
-/

namespace Utf8

/-- The encoding of a code unit. -/
def encodeUnit (u : UInt16) : List UInt8 :=
  let n := u.toNat
  if n < 0x80 then [UInt8.ofNat n]
  else if n < 0x800 then [UInt8.ofNat (0xC0 + n / 64), UInt8.ofNat (0x80 + n % 64)]
  else [UInt8.ofNat (0xE0 + n / 4096), UInt8.ofNat (0x80 + n / 64 % 64),
    UInt8.ofNat (0x80 + n % 64)]

/-- The encoding of some code units. -/
def encode (s : List UInt16) : List UInt8 := s.flatMap encodeUnit

/-- What stands for a byte that fits nowhere. -/
def replacement : UInt16 := 0xFFFD

/-- What has been read of an encoding: nothing, all but its last byte, or the
first of its three bytes. -/
inductive Pending where
  | nothing
  | one (bits : Nat)
  | two (bits : Nat)

/-- What stands for an encoding that breaks off. -/
def Pending.broken : Pending → List UInt16
  | .nothing => []
  | _ => [replacement]

/-- The code units that some bytes stand for, after a part of an encoding. -/
def decodeFrom : Pending → List UInt8 → List UInt16
  | p, [] => p.broken
  | p, b :: bs =>
      if b.toNat < 0x80 then p.broken ++ UInt16.ofNat b.toNat :: decodeFrom .nothing bs
      else if b.toNat < 0xC0 then
        match p with
        | .nothing => replacement :: decodeFrom .nothing bs
        | .one bits => UInt16.ofNat (bits * 64 + (b.toNat - 0x80)) :: decodeFrom .nothing bs
        | .two bits => decodeFrom (.one (bits * 64 + (b.toNat - 0x80))) bs
      else if b.toNat < 0xE0 then p.broken ++ decodeFrom (.one (b.toNat - 0xC0)) bs
      else if b.toNat < 0xF0 then p.broken ++ decodeFrom (.two (b.toNat - 0xE0)) bs
      else p.broken ++ replacement :: decodeFrom .nothing bs

/-- The code units that some bytes stand for. -/
def decode (bytes : List UInt8) : List UInt16 := decodeFrom .nothing bytes

/-- Decoding the encoding of a unit. -/
theorem decode_encodeUnit (u : UInt16) (bs : List UInt8) :
    decode (encodeUnit u ++ bs) = u :: decode bs := by
  have hlt := u.toNat_lt
  have hu : UInt16.ofNat u.toNat = u := UInt16.ofNat_toNat
  unfold encodeUnit decode
  dsimp only
  split
  case isTrue h =>
    have htoNat : (UInt8.ofNat u.toNat).toNat = u.toNat := by
      rw [UInt8.toNat_ofNat']
      omega
    simp only [List.singleton_append, decodeFrom, htoNat, hu]
    rw [if_pos h]
    rfl
  case isFalse h =>
    split
    case isTrue h' =>
      have h₁ : (UInt8.ofNat (0xC0 + u.toNat / 64)).toNat = 0xC0 + u.toNat / 64 := by
        rw [UInt8.toNat_ofNat']
        omega
      have h₂ : (UInt8.ofNat (0x80 + u.toNat % 64)).toNat = 0x80 + u.toNat % 64 := by
        rw [UInt8.toNat_ofNat']
        omega
      have hvalue : (0xC0 + u.toNat / 64 - 0xC0) * 64 + (0x80 + u.toNat % 64 - 0x80) = u.toNat := by
        omega
      simp only [List.cons_append, List.nil_append, decodeFrom, h₁, h₂, hvalue, hu]
      rw [if_neg (by omega), if_neg (by omega), if_pos (by omega), if_neg (by omega),
        if_pos (by omega)]
      rfl
    case isFalse h' =>
      have h₁ : (UInt8.ofNat (0xE0 + u.toNat / 4096)).toNat = 0xE0 + u.toNat / 4096 := by
        rw [UInt8.toNat_ofNat']
        omega
      have h₂ : (UInt8.ofNat (0x80 + u.toNat / 64 % 64)).toNat = 0x80 + u.toNat / 64 % 64 := by
        rw [UInt8.toNat_ofNat']
        omega
      have h₃ : (UInt8.ofNat (0x80 + u.toNat % 64)).toNat = 0x80 + u.toNat % 64 := by
        rw [UInt8.toNat_ofNat']
        omega
      have hvalue : ((0xE0 + u.toNat / 4096 - 0xE0) * 64 + (0x80 + u.toNat / 64 % 64 - 0x80)) * 64 +
          (0x80 + u.toNat % 64 - 0x80) = u.toNat := by
        omega
      simp only [List.cons_append, List.nil_append, decodeFrom, h₁, h₂, h₃, hvalue, hu]
      rw [if_neg (by omega), if_neg (by omega), if_neg (by omega), if_pos (by omega),
        if_neg (by omega), if_pos (by omega), if_neg (by omega), if_pos (by omega)]
      rfl

/-- **Decoding undoes encoding.** -/
theorem decode_encode (s : List UInt16) : decode (encode s) = s := by
  induction s with
  | nil => rfl
  | cons u s ih =>
      rw [encode, List.flatMap_cons, decode_encodeUnit]
      exact congrArg _ ih

theorem decodeFrom_append_ascii {x : UInt8} (hx : x.toNat < 0x80) (p : Pending)
    (a b : List UInt8) :
    decodeFrom p (a ++ x :: b) = decodeFrom p a ++ UInt16.ofNat x.toNat :: decode b := by
  induction a generalizing p with
  | nil =>
      simp only [List.nil_append, decodeFrom]
      rw [if_pos hx]
      rfl
  | cons c a ih =>
      simp only [List.cons_append, decodeFrom, ih]
      split
      · simp
      · split
        · cases p <;> simp
        · split
          · simp
          · split <;> simp

/-- An ASCII byte is a character by itself, whatever comes before it. -/
theorem decode_append_ascii {x : UInt8} (hx : x.toNat < 0x80) (a b : List UInt8) :
    decode (a ++ x :: b) = decode a ++ UInt16.ofNat x.toNat :: decode b :=
  decodeFrom_append_ascii hx .nothing a b

/-- A byte of the encoding of a unit that is not the unit itself is not ASCII. -/
theorem encodeUnit_cases (u : UInt16) :
    (u.toNat < 0x80 ∧ encodeUnit u = [UInt8.ofNat u.toNat]) ∨
      (0x80 ≤ u.toNat ∧ ∀ b ∈ encodeUnit u, 0x80 ≤ b.toNat) := by
  have hlt := u.toNat_lt
  unfold encodeUnit
  dsimp only
  split
  case isTrue h => exact Or.inl ⟨h, rfl⟩
  case isFalse h =>
    refine Or.inr ⟨by omega, ?_⟩
    split
    · simp only [List.forall_mem_cons, UInt8.toNat_ofNat']
      refine ⟨by omega, by omega, by simp⟩
    · simp only [List.forall_mem_cons, UInt8.toNat_ofNat']
      refine ⟨by omega, by omega, by omega, by simp⟩

/-- ASCII text is encoded by its own values. -/
theorem encode_ascii {s : List UInt16} (h : ∀ u ∈ s, u.toNat < 0x80) :
    encode s = s.map fun u => UInt8.ofNat u.toNat := by
  induction s with
  | nil => rfl
  | cons u s ih =>
      rw [List.forall_mem_cons] at h
      obtain ⟨-, hu⟩ | ⟨hu, -⟩ := encodeUnit_cases u
      · rw [encode, List.flatMap_cons, hu, List.map_cons, ← ih h.2]
        rfl
      · omega

/-- An ASCII byte occurs in the encoding exactly where its unit occurs. -/
theorem mem_encode_ascii {x : UInt16} (hx : x.toNat < 0x80) (s : List UInt16) :
    UInt8.ofNat x.toNat ∈ encode s ↔ x ∈ s := by
  have htoNat : (UInt8.ofNat x.toNat).toNat = x.toNat := by
    rw [UInt8.toNat_ofNat']
    omega
  rw [encode, List.mem_flatMap]
  constructor
  · rintro ⟨u, hmem, hbyte⟩
    obtain ⟨hu, hencode⟩ | ⟨-, hbytes⟩ := encodeUnit_cases u
    · rw [hencode, List.mem_singleton] at hbyte
      have hvalue := congrArg UInt8.toNat hbyte
      rw [htoNat, UInt8.toNat_ofNat'] at hvalue
      have heq : x = u := UInt16.toNat_inj.mp (by omega)
      exact heq ▸ hmem
    · have := hbytes _ hbyte
      omega
  · intro hmem
    refine ⟨x, hmem, ?_⟩
    obtain ⟨-, hencode⟩ | ⟨hge, -⟩ := encodeUnit_cases x
    · rw [hencode]
      exact List.mem_singleton_self _
    · omega

end Utf8
