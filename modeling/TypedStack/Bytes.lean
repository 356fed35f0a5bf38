/-!
# Byte sequences

Bytes are lists, and integers of a fixed number of bytes are stored least
significant byte first.
-/

namespace TypedStack

/-- A byte sequence. -/
abbrev Bytes := List UInt8

namespace Bytes

/-- The low `width` bytes of a number, least significant first. -/
def ofNatLE : Nat → Nat → Bytes
  | 0, _ => []
  | width + 1, n => UInt8.ofNat (n % 256) :: ofNatLE width (n / 256)

/-- The number whose bytes, least significant first, are given. -/
def toNatLE : Bytes → Nat
  | [] => 0
  | byte :: rest => byte.toNat + 256 * toNatLE rest

@[simp] theorem length_ofNatLE (width n : Nat) : (ofNatLE width n).length = width := by
  induction width generalizing n with
  | zero => rfl
  | succ width ih => simp [ofNatLE, ih]

theorem toNatLE_ofNatLE (width n : Nat) (h : n < Nat.pow 256 width) :
    toNatLE (ofNatLE width n) = n := by
  induction width generalizing n with
  | zero =>
    have hzero : n = 0 := Nat.lt_one_iff.1 h
    rw [hzero]
    rfl
  | succ width ih =>
    have hdiv : n / 256 < Nat.pow 256 width := by
      have hmul : n < 256 * Nat.pow 256 width := by
        rwa [Nat.mul_comm]
      exact Nat.div_lt_of_lt_mul hmul
    have hbyte : (UInt8.ofNat (n % 256)).toNat = n % 256 := by
      simp [UInt8.toNat_ofNat']
    rw [ofNatLE, toNatLE, ih _ hdiv, hbyte]
    omega

theorem toNatLE_lt (bytes : Bytes) : toNatLE bytes < Nat.pow 256 bytes.length := by
  induction bytes with
  | nil => simp [toNatLE]
  | cons byte rest ih =>
    have hbyte := byte.toNat_lt
    have hpow : Nat.pow 256 (rest.length + 1) = Nat.pow 256 rest.length * 256 := rfl
    simp only [toNatLE, List.length_cons, hpow]
    omega

theorem ofNatLE_toNatLE (bytes : Bytes) : ofNatLE bytes.length (toNatLE bytes) = bytes := by
  induction bytes with
  | nil => rfl
  | cons byte rest ih =>
    have hbyte := byte.toNat_lt
    have hlow : (byte.toNat + 256 * toNatLE rest) % 256 = byte.toNat := by omega
    have hhigh : (byte.toNat + 256 * toNatLE rest) / 256 = toNatLE rest := by omega
    rw [toNatLE, List.length_cons, ofNatLE, hlow, hhigh, ih, UInt8.ofNat_toNat]

/-- A number has one sequence of bytes of each width that it fits. -/
theorem toNatLE_eq_iff {bytes : Bytes} {width n : Nat} (h : bytes.length = width) :
    toNatLE bytes = n ↔ n < Nat.pow 256 width ∧ bytes = ofNatLE width n := by
  subst h
  constructor
  · rintro rfl
    exact ⟨toNatLE_lt bytes, (ofNatLE_toNatLE bytes).symm⟩
  · rintro ⟨hn, hbytes⟩
    rw [hbytes, toNatLE_ofNatLE _ _ hn]

theorem toNatLE_take_eq_iff {bytes : Bytes} {width n : Nat} (h : width ≤ bytes.length) :
    toNatLE (bytes.take width) = n ↔ n < Nat.pow 256 width ∧ ofNatLE width n <+: bytes := by
  rw [toNatLE_eq_iff (List.length_take_of_le h), List.prefix_iff_eq_take, length_ofNatLE,
    eq_comm (b := ofNatLE width n)]

/-- The UTF-8 encoding of a text. -/
def ofString (text : String) : Bytes :=
  text.toUTF8.data.toList

/-- The text that the bytes encode, if they are valid UTF-8. -/
def toString? (bytes : Bytes) : Option String :=
  String.fromUTF8? ⟨bytes.toArray⟩

theorem toString?_eq_some {bytes : Bytes} {text : String} :
    toString? bytes = some text ↔ ofString text = bytes := by
  unfold toString? String.fromUTF8? ofString String.toUTF8
  constructor
  · intro h
    split at h
    · obtain rfl := Option.some.inj h
      rfl
    · simp at h
  · rintro rfl
    rw [dif_pos text.isValidUTF8]
    rfl

end Bytes

end TypedStack
