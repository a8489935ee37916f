import ReductStore.Shared.Text

set_option autoImplicit false

namespace ReductStore.Percent

def hexDigit (value : Nat) : Char := Char.ofNat (if value < 10 then 48 + value else 55 + value)

def hexValue (byte : UInt8) : Option Nat :=
  if 48 ≤ byte ∧ byte ≤ 57 then some (byte.toNat - 48)
  else if 65 ≤ byte ∧ byte ≤ 70 then some (byte.toNat - 55)
  else if 97 ≤ byte ∧ byte ≤ 102 then some (byte.toNat - 87)
  else none

def encodeByte (keeps : UInt8 → Bool) (byte : UInt8) : List Char :=
  if keeps byte then [Char.ofNat byte.toNat] else ['%', hexDigit (byte.toNat / 16), hexDigit (byte.toNat % 16)]

def encode (keeps : UInt8 → Bool) (bytes : List UInt8) : List Char := bytes.flatMap (encodeByte keeps)

def decode : List UInt8 → Option (List UInt8)
  | [] => some []
  | 37 :: high :: low :: rest => do
    let high ← hexValue high
    let low ← hexValue low
    let decoded ← decode rest
    pure (UInt8.ofNat (high * 16 + low) :: decoded)
  | 37 :: _ => none
  | byte :: rest => do
    let decoded ← decode rest
    pure (byte :: decoded)

def utf8 (text : List Char) : List UInt8 := text.flatMap String.utf8EncodeChar

def fromUtf8 (bytes : List UInt8) : Option (List Char) := bytes.toByteArray.utf8Decode?.map Array.toList

theorem fromUtf8_utf8 (text : List Char) : fromUtf8 (utf8 text) = some text := by
  have decoded : text.utf8Encode.utf8Decode? = some text.toArray := List.utf8Decode?_utf8Encode
  rw [fromUtf8, show (utf8 text).toByteArray = text.utf8Encode from rfl, decoded]
  rfl

theorem fromUtf8_eq_some {bytes : List UInt8} {text : List Char} (decoded : fromUtf8 bytes = some text) : bytes = utf8 text := by
  obtain ⟨chars, found, rfl⟩ := Option.map_eq_some_iff.mp decoded
  have whole : (bytes.toByteArray.utf8Decode?.get (by simp [found])).toList.utf8Encode = bytes.toByteArray :=
    ByteArray.utf8Encode_get_utf8Decode?
  have same : (utf8 chars.toList).toByteArray = bytes.toByteArray := by
    simp only [found, Option.get_some] at whole
    exact whole
  exact (List.toByteArray_inj.mp same).symm

theorem utf8_ascii {char : Char} (small : char.toNat < 128) : String.utf8EncodeChar char = [UInt8.ofNat char.toNat] := by
  have bound : char.val.toNat ≤ 127 := Nat.le_of_lt_succ small
  simp only [String.utf8EncodeChar, if_pos bound]
  rfl

theorem utf8_small {char : Char} {byte : UInt8} (small : byte.toNat < 128) (member : byte ∈ String.utf8EncodeChar char) :
    Char.ofNat byte.toNat = char := by
  have large : ∀ value, 128 ≤ value → value < 256 → byte ≠ UInt8.ofNat value := by
    rintro value lower upper rfl
    rw [UInt8.toNat_ofNat', Nat.mod_eq_of_lt upper] at small
    omega
  by_cases ascii : char.toNat < 128
  · rw [utf8_ascii ascii, List.mem_singleton] at member
    rw [member, UInt8.toNat_ofNat', Nat.mod_eq_of_lt (by omega), Char.ofNat_toNat]
  · have bound : ¬ char.val.toNat ≤ 127 := fun contrary => ascii (Nat.lt_succ_of_le contrary)
    simp only [String.utf8EncodeChar, if_neg bound] at member
    exfalso
    split at member
    · simp only [List.mem_cons, List.not_mem_nil, or_false] at member
      rcases member with same | same <;> exact large _ (by omega) (by omega) same
    · split at member
      · simp only [List.mem_cons, List.not_mem_nil, or_false] at member
        rcases member with same | same | same <;> exact large _ (by omega) (by omega) same
      · simp only [List.mem_cons, List.not_mem_nil, or_false] at member
        rcases member with same | same | same | same <;> exact large _ (by omega) (by omega) same

theorem mem_utf8 {text : List Char} {byte : UInt8} (small : byte.toNat < 128) (member : byte ∈ utf8 text) :
    Char.ofNat byte.toNat ∈ text := by
  obtain ⟨char, present, inside⟩ := List.mem_flatMap.mp member
  rw [utf8_small small inside]
  exact present

section RoundTrip

variable {keeps : UInt8 → Bool}

theorem hexDigit_small {value : Nat} (small : value < 16) :
    (hexDigit value).toNat < 128 ∧ hexValue (UInt8.ofNat (hexDigit value).toNat) = some value := by
  interval_cases value <;> decide

theorem decode_kept {byte : UInt8} (other : byte ≠ 37) (rest : List UInt8) :
    decode (byte :: rest) = (decode rest).map (byte :: ·) := by
  rw [decode.eq_def]
  split
  next => contradiction
  next same => exact absurd (List.cons.inj same).1 other
  next same => exact absurd (List.cons.inj same).1 other
  next same =>
    obtain ⟨rfl, rfl⟩ := List.cons.inj same
    cases decode rest <;> rfl

theorem decode_digits (byte : UInt8) (rest : List UInt8) :
    decode (utf8 ['%', hexDigit (byte.toNat / 16), hexDigit (byte.toNat % 16)] ++ rest) =
      (decode rest).map (byte :: ·) := by
  have size := byte.toNat_lt
  obtain ⟨highAscii, high⟩ := hexDigit_small (show byte.toNat / 16 < 16 by omega)
  obtain ⟨lowAscii, low⟩ := hexDigit_small (show byte.toNat % 16 < 16 by omega)
  have whole : UInt8.ofNat (byte.toNat / 16 * 16 + byte.toNat % 16) = byte := by
    rw [Nat.div_add_mod']
    exact UInt8.ofNat_toNat
  have text : utf8 ['%', hexDigit (byte.toNat / 16), hexDigit (byte.toNat % 16)] =
      [37, UInt8.ofNat (hexDigit (byte.toNat / 16)).toNat, UInt8.ofNat (hexDigit (byte.toNat % 16)).toNat] := by
    simp only [utf8, List.flatMap_cons, List.flatMap_nil, utf8_ascii highAscii, utf8_ascii lowAscii]
    rfl
  rw [text]
  simp only [List.cons_append, List.nil_append, decode, high, low]
  cases decode rest with
  | none => rfl
  | some decoded => exact congrArg (fun first => some (first :: decoded)) whole

theorem utf8_kept {byte : UInt8} (ascii : byte.toNat < 128) : utf8 [Char.ofNat byte.toNat] = [byte] := by
  have char : (Char.ofNat byte.toNat).toNat = byte.toNat := by
    rw [Char.toNat_ofNat, if_pos (.inl (by omega))]
  rw [utf8, List.flatMap_cons, List.flatMap_nil, List.append_nil, utf8_ascii (by rw [char]; exact ascii), char,
    UInt8.ofNat_toNat]

theorem utf8_encode_cons (byte : UInt8) (bytes : List UInt8) :
    utf8 (encode keeps (byte :: bytes)) = utf8 (encodeByte keeps byte) ++ utf8 (encode keeps bytes) := by
  simp [utf8, encode]

theorem decode_encode (bytes : List UInt8) (plain : ∀ byte ∈ bytes, keeps byte = true → byte.toNat < 128 ∧ byte ≠ 37) :
    decode (utf8 (encode keeps bytes)) = some bytes := by
  induction bytes with
  | nil => rfl
  | cons byte bytes ih =>
    have rest := ih fun other member => plain other (List.mem_cons_of_mem _ member)
    rw [utf8_encode_cons, encodeByte]
    split
    next kept =>
      obtain ⟨ascii, other⟩ := plain byte List.mem_cons_self kept
      rw [utf8_kept ascii, List.singleton_append, decode_kept other, rest]
      rfl
    next =>
      rw [decode_digits, rest]
      rfl

theorem encode_starts (plain : ∀ byte, keeps byte = true → byte.toNat < 128) (byte : UInt8) (bytes : List UInt8) :
    byte ≠ 37 ∧ utf8 (encode keeps (byte :: bytes)) = byte :: utf8 (encode keeps bytes) ∨
      ∃ rest, utf8 (encode keeps (byte :: bytes)) = 37 :: rest := by
  rw [utf8_encode_cons, encodeByte]
  split
  next kept =>
    rw [utf8_kept (plain byte kept)]
    by_cases percent : byte = 37
    · exact .inr ⟨_, by rw [percent]; rfl⟩
    · exact .inl ⟨percent, rfl⟩
  next => exact .inr ⟨_, rfl⟩

theorem decode_percent (plain : ∀ byte, keeps byte = true → byte.toNat < 128) {bytes out : List UInt8}
    (decoded : decode (37 :: utf8 (encode keeps bytes)) = some out) :
    ∃ high low rest byte decoded, bytes = high :: low :: rest ∧ out = byte :: decoded ∧
      decode (utf8 (encode keeps rest)) = some decoded := by
  have unread (first : UInt8) (tail : List UInt8) : decode (37 :: 37 :: tail) = none ∧ decode (37 :: first :: 37 :: tail) = none := by
    constructor
    · cases tail with
      | nil => rfl
      | cons next tail => rfl
    · rw [decode]
      cases hexValue first <;> rfl
  cases bytes with
  | nil => cases decoded
  | cons high bytes =>
    rcases encode_starts plain high bytes with ⟨-, kept⟩ | ⟨rest, escaped⟩
    · rw [kept] at decoded
      cases bytes with
      | nil => cases decoded
      | cons low rest =>
        rcases encode_starts plain low rest with ⟨-, kept⟩ | ⟨behind, escaped⟩
        · rw [kept, decode] at decoded
          obtain ⟨first, -, decoded⟩ := Option.bind_eq_some_iff.mp decoded
          obtain ⟨second, -, decoded⟩ := Option.bind_eq_some_iff.mp decoded
          obtain ⟨others, found, decoded⟩ := Option.bind_eq_some_iff.mp decoded
          exact ⟨high, low, rest, _, others, rfl, (Option.some.inj decoded).symm, found⟩
        · rw [escaped, (unread high behind).2] at decoded
          cases decoded
    · rw [escaped, (unread 0 rest).1] at decoded
      cases decoded

theorem decode_length (plain : ∀ byte, keeps byte = true → byte.toNat < 128) (bytes : List UInt8) {out : List UInt8}
    (decoded : decode (utf8 (encode keeps bytes)) = some out) :
    out.length ≤ bytes.length ∧ (keeps 37 = true → 37 ∈ bytes → out.length < bytes.length) := by
  induction length : bytes.length using Nat.strong_induction_on generalizing bytes out with
  | _ length ih =>
    subst length
    cases bytes with
    | nil =>
      obtain rfl := Option.some.inj decoded
      exact ⟨le_rfl, fun _ member => by cases member⟩
    | cons byte bytes =>
      -- a byte that is read back as itself
      have shift (same : (decode (utf8 (encode keeps bytes))).map (byte :: ·) = some out)
          (other : keeps 37 = true → byte ≠ 37) :
          out.length ≤ (byte :: bytes).length ∧ (keeps 37 = true → 37 ∈ byte :: bytes → out.length < (byte :: bytes).length) := by
        obtain ⟨tail, found, rfl⟩ := Option.map_eq_some_iff.mp same
        obtain ⟨short, shorter⟩ := ih bytes.length (by simp) bytes found rfl
        refine ⟨by simpa using short, fun kept member => ?_⟩
        simpa using shorter kept ((List.mem_cons.mp member).resolve_left fun equal => other kept equal.symm)
      rw [utf8_encode_cons, encodeByte] at decoded
      split at decoded
      next kept =>
        rw [utf8_kept (plain byte kept), List.singleton_append] at decoded
        by_cases percent : byte = 37
        · subst percent
          obtain ⟨high, low, rest, first, tail, rfl, rfl, found⟩ := decode_percent plain decoded
          obtain ⟨short, -⟩ := ih rest.length (by simp; omega) rest found rfl
          simp only [List.length_cons]
          exact ⟨by omega, fun _ _ => by omega⟩
        · rw [decode_kept percent] at decoded
          exact shift decoded fun _ => percent
      next dropped =>
        rw [decode_digits] at decoded
        exact shift decoded fun kept equal => dropped (equal ▸ kept)

theorem encode_forall {holds : Char → Prop} (kept : ∀ byte, keeps byte = true → holds (Char.ofNat byte.toNat))
    (percent : holds '%') (digits : ∀ value < 16, holds (hexDigit value)) (bytes : List UInt8) :
    ∀ char ∈ encode keeps bytes, holds char := by
  intro char member
  obtain ⟨byte, -, inside⟩ := List.mem_flatMap.mp member
  have size := byte.toNat_lt
  unfold encodeByte at inside
  split at inside
  next keep =>
    rw [List.mem_singleton.mp inside]
    exact kept byte keep
  next =>
    simp only [List.mem_cons, List.not_mem_nil, or_false] at inside
    rcases inside with rfl | rfl | rfl
    · exact percent
    · exact digits _ (by omega)
    · exact digits _ (by omega)

theorem encode_eq_nil {bytes : List UInt8} (empty : encode keeps bytes = []) : bytes = [] := by
  cases bytes with
  | nil => rfl
  | cons byte bytes =>
    have first : encodeByte keeps byte = [] := (List.append_eq_nil_iff.mp empty).1
    unfold encodeByte at first
    split at first <;> cases first

end RoundTrip

end ReductStore.Percent
