/-
  CompileCache.Bytes — byte strings, the words written in them, and their hexadecimal text.

  A byte string is a list of bytes. A number is written in it with the least
  significant byte first (`littleEndian`), in as many bytes as the format gives it;
  `ofLittleEndian` reads any number of bytes back.
-/

namespace CompileCache

abbrev Bytes := List UInt8

namespace Bytes

/-- The UTF-8 form of a text. -/
def ofString (s : String) : Bytes := s.toUTF8.data.toList

/-- `n` in `width` bytes, least significant first; what does not fit is cut off. -/
def littleEndian : (width : Nat) → (n : Nat) → Bytes
  | 0, _ => []
  | width + 1, n => UInt8.ofNat n :: littleEndian width (n / 256)

def ofLittleEndian : Bytes → Nat
  | [] => 0
  | b :: bs => b.toNat + 256 * ofLittleEndian bs

/-- The least number that needs more than `width` bytes. -/
def limit : (width : Nat) → Nat
  | 0 => 1
  | width + 1 => 256 * limit width

/-- `n` in `width` bytes, most significant first. -/
def bigEndian (width n : Nat) : Bytes := (littleEndian width n).reverse

@[simp] theorem length_littleEndian (width n : Nat) : (littleEndian width n).length = width := by
  induction width generalizing n with
  | zero => rfl
  | succ width ih => simp [littleEndian, ih]

@[simp] theorem length_bigEndian (width n : Nat) : (bigEndian width n).length = width := by
  simp [bigEndian]

theorem ofLittleEndian_littleEndian (width n : Nat) :
    ofLittleEndian (littleEndian width n) = n % limit width := by
  induction width generalizing n with
  | zero => simp [littleEndian, ofLittleEndian, limit, Nat.mod_one]
  | succ width ih =>
    simp only [littleEndian, ofLittleEndian, ih, limit]
    rw [Nat.mod_mul]
    simp

theorem ofLittleEndian_lt (bs : Bytes) : ofLittleEndian bs < limit bs.length := by
  induction bs with
  | nil => simp [ofLittleEndian, limit]
  | cons b bs ih =>
    have := b.toNat_lt
    simp only [ofLittleEndian, List.length_cons, limit]
    omega

theorem limit_mono {a b : Nat} (h : a ≤ b) : limit a ≤ limit b := by
  induction h with
  | refl => exact Nat.le_refl _
  | step _ ih =>
    simp only [limit]
    omega

theorem littleEndian_ofLittleEndian (bs : Bytes) :
    littleEndian bs.length (ofLittleEndian bs) = bs := by
  induction bs with
  | nil => rfl
  | cons b bs ih =>
    have hd : (b.toNat + 256 * ofLittleEndian bs) / 256 = ofLittleEndian bs := by
      have := b.toNat_lt
      omega
    have hb : UInt8.ofNat (b.toNat + 256 * ofLittleEndian bs) = b := by
      apply UInt8.toNat_inj.1
      simp
    simp [littleEndian, ofLittleEndian, hd, hb, ih]

/-- Two lower-case digits for each byte. -/
def hex (bs : Bytes) : String :=
  String.ofList (bs.flatMap fun b => [Nat.digitChar (b.toNat / 16), Nat.digitChar (b.toNat % 16)])

end Bytes

end CompileCache
