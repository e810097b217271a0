import DataFlash.FieldType
import DataFlash.Proofs.Numeral
import DataFlash.Proofs.Utf8
import Mathlib.Algebra.Ring.Nat

namespace DataFlash

namespace Bytes

def values (size : Nat) : Nat := 256 ^ size

def ofNat : Nat → Nat → List UInt8
  | 0, _ => []
  | size + 1, n => UInt8.ofNat n :: ofNat size (n / 256)

def ofInt (size : Nat) (n : Int) : List UInt8 := ofNat size (n % values size).toNat

def ofText (size : Nat) (s : String) : List UInt8 :=
  Utf8.encode s ++ List.replicate (size - (Utf8.encode s).length) 0

@[simp] theorem length_ofNat (size n : Nat) : (ofNat size n).length = size := by
  induction size generalizing n with
  | zero => rfl
  | succ size ih => simp [ofNat, ih]

theorem length_ofText {size : Nat} {s : String} (h : (Utf8.encode s).length ≤ size) :
    (ofText size s).length = size := by
  simp only [ofText, List.length_append, List.length_replicate]
  omega

theorem toNat_ofNat (size n : Nat) : toNat (ofNat size n) = n % values size := by
  induction size generalizing n with
  | zero => simp [ofNat, toNat, values, Nat.mod_one]
  | succ size ih =>
    have hb : (UInt8.ofNat n).toNat = n % 256 := by simp
    rw [ofNat, toNat, ih, hb, values, values, Nat.pow_succ', Nat.mod_mul]

theorem toInt_ofInt {size : Nat} {n : Int} (hlow : -(values size / 2 : Int) ≤ n)
    (hhigh : n < (values size / 2 : Int)) : toInt (ofInt size n) = n := by
  have hpos : 0 < values size := Nat.pow_pos (by omega)
  have hmod : 0 ≤ n % (values size : Int) := Int.emod_nonneg n (by omega)
  have hlt : n % (values size : Int) < values size := Int.emod_lt_of_pos n (by omega)
  -- The bytes hold the remainder of `n`, of which `n` is the representative next to zero.
  have hnat : (toNat (ofInt size n) : Int) = n % (values size : Int) := by
    rw [ofInt, toNat_ofNat, Nat.mod_eq_of_lt (by omega)]
    omega
  have hsize : Nat.pow 256 (ofInt size n).length = values size := by
    rw [ofInt, length_ofNat]
    rfl
  rw [toInt, hnat, hsize, Int.emod_bmod]
  exact Int.bmod_eq_of_le (by omega) (by omega)

theorem toText_ofText {s : String} (h : '\x00' ∉ s.toList) (size : Nat) :
    toText (ofText size s) = s := by
  have hnonzero : ∀ b ∈ Utf8.encode s, (b != 0) = true := by
    intro b hb
    simp only [bne_iff_ne]
    rintro rfl
    exact Utf8.zero_notMem_encode h hb
  have htake : (ofText size s).takeWhile (· != 0) = Utf8.encode s := by
    rw [ofText, List.takeWhile_append_of_pos hnonzero]
    cases size - (Utf8.encode s).length with
    | zero => simp
    | succ n => simp [List.replicate_succ]
  rw [toText, htake, Utf8.decode_encode, String.ofList_toList]

end Bytes

namespace FieldType

/-- The integers and texts that have room in the bytes of a field. -/
def Holds : FieldType → Value → Prop
  | signed size, .int n =>
    -(Bytes.values size / 2 : Int) ≤ n.toInt ∧ n.toInt < (Bytes.values size / 2 : Int)
  | unsigned size, .uint n => n.toNat < Bytes.values size
  | text size, .text s => '\x00' ∉ s.toList ∧ (Utf8.encode s).length ≤ size
  | _, _ => False

instance (type : FieldType) (v : Value) : Decidable (type.Holds v) := by
  unfold Holds
  split <;> infer_instance

def encode : FieldType → Value → List UInt8
  | signed size, .int n => Bytes.ofInt size n.toInt
  | unsigned size, .uint n => Bytes.ofNat size n.toNat
  | text size, .text s => Bytes.ofText size s
  | _, _ => []

variable {type : FieldType} {v : Value}

/-- A fact about the values that fields hold is shown for integers of both kinds and for texts. -/
theorem Holds.cases {motive : FieldType → Value → Prop} (h : type.Holds v)
    (signed : ∀ size n, -(Bytes.values size / 2 : Int) ≤ n.toInt →
      n.toInt < (Bytes.values size / 2 : Int) → motive (.signed size) (.int n))
    (unsigned : ∀ size n, n.toNat < Bytes.values size → motive (.unsigned size) (.uint n))
    (text : ∀ size s, '\x00' ∉ s.toList → (Utf8.encode s).length ≤ size →
      motive (.text size) (.text s)) : motive type v := by
  unfold Holds at h
  split at h
  · exact signed _ _ h.1 h.2
  · exact unsigned _ _ h
  · exact text _ _ h.1 h.2
  · exact h.elim

theorem length_encode (h : type.Holds v) : (type.encode v).length = type.size := by
  apply h.cases (motive := fun type v => (type.encode v).length = type.size)
  · intro size n _ _
    simp [encode, FieldType.size, Bytes.ofInt]
  · intro size n _
    simp [encode, FieldType.size]
  · intro size s _ hlen
    exact Bytes.length_ofText hlen

/-- A value is read back from the bytes of its field. -/
theorem decode_encode (h : type.Holds v) : type.decode (type.encode v) = v := by
  apply h.cases (motive := fun type v => type.decode (type.encode v) = v)
  · intro size n hlow hhigh
    simp [encode, decode, Bytes.toInt_ofInt hlow hhigh]
  · intro size n hlt
    simp [encode, decode, Bytes.toNat_ofNat, Nat.mod_eq_of_lt hlt]
  · intro size s hnul _
    simp [encode, decode, Bytes.toText_ofText hnul]

/-- A value is read back from its part of a line. -/
theorem parse?_display (h : type.Holds v) : type.parse? v.display = some v := by
  apply h.cases (motive := fun type v => type.parse? v.display = some v)
  · intro size n _ _
    simp only [Value.display, parse?, Numeral.signed?_toString, Option.map_some]
  · intro size n _
    simp only [Value.display, parse?, Numeral.unsigned?_toString, Option.map_some]
  · intro size s _ _
    rfl

end FieldType

def Value.Clean : Value → Prop
  | .text s => Text.Clean s.toList
  | _ => True

instance : (v : Value) → Decidable v.Clean
  | .text s => inferInstanceAs (Decidable (Text.Clean s.toList))
  | .int _ | .uint _ | .float _ | .array _ => isTrue trivial

theorem FieldType.Holds.clean_display {type : FieldType} {v : Value} (h : type.Holds v)
    (hclean : v.Clean) : Text.Clean v.display.toList := by
  revert hclean
  apply h.cases (motive := fun _ v => v.Clean → Text.Clean v.display.toList)
  · intro size n _ _ _
    exact Numeral.clean_toString_int n.toInt
  · intro size n _ _
    exact Numeral.clean_toString_nat n.toNat
  · intro size s _ _ hs
    exact hs

end DataFlash
