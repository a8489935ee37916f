import Mathlib

set_option autoImplicit false

namespace ReductStore.BigEndian

def toBytes (value : Nat) : List UInt8 :=
  [UInt8.ofNat (value / 2 ^ 56), UInt8.ofNat (value / 2 ^ 48), UInt8.ofNat (value / 2 ^ 40),
    UInt8.ofNat (value / 2 ^ 32), UInt8.ofNat (value / 2 ^ 24), UInt8.ofNat (value / 2 ^ 16),
    UInt8.ofNat (value / 2 ^ 8), UInt8.ofNat value]

def ofBytes (bytes : List UInt8) : Nat := bytes.foldl (fun value byte => value * 256 + byte.toNat) 0

@[simp] theorem length_toBytes (value : Nat) : (toBytes value).length = 8 := rfl

theorem ofBytes_toBytes (value : Nat) (bound : value < 2 ^ 64) : ofBytes (toBytes value) = value := by
  simp only [ofBytes, toBytes, List.foldl_cons, List.foldl_nil, UInt8.toNat_ofNat']
  omega

end ReductStore.BigEndian
