import Mathlib

namespace Shroot.General

open List UInt32

/-- The low `width` bytes of a number, least significant first. -/
def littleEndian : Nat → Nat → List UInt8
  | 0, _ => []
  | width + 1, value => UInt8.ofNat value :: littleEndian width (value / 256)

def littleEndianValue : List UInt8 → Nat
  | [] => 0
  | byte :: rest => byte.toNat + 256 * littleEndianValue rest

@[simp] theorem length_littleEndian (width val : Nat) : (littleEndian width val).length = width := by
  induction width generalizing val with
  | zero => rfl
  | succ width ih => simp [littleEndian, ih]

theorem littleEndianValue_littleEndian (width val : Nat) :
    littleEndianValue (littleEndian width val) = val % 256 ^ width := by
  induction width generalizing val with
  | zero => simp [littleEndian, littleEndianValue, Nat.mod_one]
  | succ width ih =>
    have low : (UInt8.ofNat val).toNat = val % 256 := UInt8.toNat_ofNat'
    rw [littleEndian, littleEndianValue, ih, low, Nat.pow_succ', Nat.mod_mul]

theorem littleEndianValue_lt (bytes : List UInt8) : littleEndianValue bytes < 256 ^ bytes.length := by
  induction bytes with
  | nil => simp [littleEndianValue]
  | cons byte rest ih =>
    have small := byte.toNat_lt
    simp only [littleEndianValue, length_cons, Nat.pow_succ']
    omega

theorem littleEndian_littleEndianValue (bytes : List UInt8) :
    littleEndian bytes.length (littleEndianValue bytes) = bytes := by
  induction bytes with
  | nil => rfl
  | cons byte rest ih =>
    have small := byte.toNat_lt
    have quotient : (byte.toNat + 256 * littleEndianValue rest) / 256 = littleEndianValue rest := by omega
    have low : UInt8.ofNat (byte.toNat + 256 * littleEndianValue rest) = byte := by
      apply UInt8.toNat_inj.mp
      rw [UInt8.toNat_ofNat']
      omega
    simp only [length_cons, littleEndian, littleEndianValue, quotient, low, ih]

/-- The memory image of a fixed-size type without padding: `size` bytes that
determine the value and are determined by it. -/
structure Image (α : Type) (size : Nat) where
  encode : α → List UInt8
  decode : List UInt8 → α
  length_encode : ∀ value, (encode value).length = size
  decode_encode : ∀ value, decode (encode value) = value
  encode_decode : ∀ bytes, bytes.length = size → encode (decode bytes) = bytes

namespace Image

variable {α β : Type} {m n : Nat}

def uint32 : Image UInt32 4 where
  encode value := littleEndian 4 value.toNat
  decode bytes := ofNat (littleEndianValue bytes)
  length_encode value := length_littleEndian 4 value.toNat
  decode_encode value := by
    apply UInt32.toNat_inj.mp
    have small := value.toNat_lt
    rw [toNat_ofNat', littleEndianValue_littleEndian]
    omega
  encode_decode bytes length := by
    have small := littleEndianValue_lt bytes
    rw [length] at small
    rw [toNat_ofNat', Nat.mod_eq_of_lt (by omega), ← length, littleEndian_littleEndianValue]

def uint64 : Image UInt64 8 where
  encode value := littleEndian 8 value.toNat
  decode bytes := UInt64.ofNat (littleEndianValue bytes)
  length_encode value := length_littleEndian 8 value.toNat
  decode_encode value := by
    apply UInt64.toNat_inj.mp
    have small := value.toNat_lt
    rw [UInt64.toNat_ofNat', littleEndianValue_littleEndian]
    omega
  encode_decode bytes length := by
    have small := littleEndianValue_lt bytes
    rw [length] at small
    rw [UInt64.toNat_ofNat', Nat.mod_eq_of_lt (by omega), ← length, littleEndian_littleEndianValue]

def pair (first : Image α m) (second : Image β n) : Image (α × β) (m + n) where
  encode value := first.encode value.1 ++ second.encode value.2
  decode bytes := (first.decode (bytes.take m), second.decode (bytes.drop m))
  length_encode value := by rw [length_append, first.length_encode, second.length_encode]
  decode_encode value := by
    rw [take_left' (first.length_encode _), drop_left' (first.length_encode _), first.decode_encode,
      second.decode_encode]
  encode_decode bytes length := by
    have front : (bytes.take m).length = m := by rw [length_take]; omega
    have back : (bytes.drop m).length = n := by rw [length_drop]; omega
    rw [first.encode_decode _ front, second.encode_decode _ back, take_append_drop]

def record (fields : α ≃ β) (image : Image β n) : Image α n where
  encode value := image.encode (fields value)
  decode bytes := fields.symm (image.decode bytes)
  length_encode value := image.length_encode (fields value)
  decode_encode value := by rw [image.decode_encode, Equiv.symm_apply_apply]
  encode_decode bytes length := by rw [Equiv.apply_symm_apply, image.encode_decode bytes length]

def encodeAll (image : Image α n) (values : List α) : List UInt8 := values.flatMap image.encode

def decodeAll (image : Image α n) : Nat → List UInt8 → List α
  | 0, _ => []
  | count + 1, bytes => image.decode (bytes.take n) :: image.decodeAll count (bytes.drop n)

theorem length_encodeAll (image : Image α n) (values : List α) :
    (image.encodeAll values).length = values.length * n := by
  induction values with
  | nil => simp [encodeAll]
  | cons val rest ih =>
    simp only [encodeAll, flatMap_cons, length_append, image.length_encode, length_cons] at ih ⊢
    rw [ih, Nat.succ_mul, Nat.add_comm]

theorem decodeAll_encodeAll (image : Image α n) (values : List α) (rest : List UInt8) :
    image.decodeAll values.length (image.encodeAll values ++ rest) = values := by
  induction values with
  | nil => rfl
  | cons val tail ih =>
    have split : image.encodeAll (val :: tail) ++ rest = image.encode val ++ (image.encodeAll tail ++ rest) := by
      simp [encodeAll]
    rw [split, length_cons, decodeAll, take_left' (image.length_encode _), drop_left' (image.length_encode _),
      image.decode_encode, ih]

end Image

/-- The ranges, given by start and length, cover the numbers from `first` up to `last` one
after the other. -/
def Tiles : Nat → List (Nat × Nat) → Nat → Prop
  | first, [], last => first = last
  | first, range :: rest, last => range.1 = first ∧ Tiles (first + range.2) rest last

theorem Tiles.append {first mid last : Nat} {left right : List (Nat × Nat)}
    (front : Tiles first left mid) (back : Tiles mid right last) : Tiles first (left ++ right) last := by
  induction left generalizing first with
  | nil =>
    obtain rfl : first = mid := front
    exact back
  | cons range rest ih => exact ⟨front.1, ih front.2⟩

theorem tiles_singleton (first length : Nat) : Tiles first [(first, length)] (first + length) := ⟨rfl, rfl⟩

variable {ranges : List (Nat × Nat)} {first last : Nat}

theorem Tiles.le_start (tiles : Tiles first ranges last) : ∀ range ∈ ranges, first ≤ range.1 := by
  induction ranges generalizing first with
  | nil => simp
  | cons head rest ih =>
    intro range mem
    rcases List.mem_cons.mp mem with rfl | later
    · exact tiles.1.ge
    · have := ih tiles.2 range later
      omega

theorem Tiles.disjoint (tiles : Tiles first ranges last) : ranges.Pairwise fun a b => a.1 + a.2 ≤ b.1 := by
  induction ranges generalizing first with
  | nil => exact .nil
  | cons head rest ih =>
    refine .cons (fun range mem => ?_) (ih tiles.2)
    have := tiles.2.le_start range mem
    have := tiles.1
    omega

end Shroot.General
