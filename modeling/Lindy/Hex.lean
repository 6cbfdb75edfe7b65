import Lindy.Keys
import Lindy.Machine.Fill
import Lindy.P2p.Framing

/-! # Hex

`hex.rs`: the `FromStr` and the `Deserialize` that `impl_fromstr_deserailize` gives to a type
made of `n` bytes. `none` is a panic of an index out of bounds.
-/

namespace Lindy.Hex

open Bitcoin Machine P2p

section Source

inductive HexError where
  | invalidHex
  | invalidLength
  | invalidEncoding
deriving DecidableEq

def hexVal (c : UInt8) : Except HexError UInt8 :=
  if 'A'.toUInt8 ≤ c ∧ c ≤ 'F'.toUInt8 then .ok (c - 'A'.toUInt8 + 10)
  else if 'a'.toUInt8 ≤ c ∧ c ≤ 'f'.toUInt8 then .ok (c - 'a'.toUInt8 + 10)
  else if '0'.toUInt8 ≤ c ∧ c ≤ '9'.toUInt8 then .ok (c - '0'.toUInt8)
  else .error .invalidHex

/-- `chunks(2)`; the last chunk may be a single byte. -/
def chunksOfTwo : Bytes → List Bytes
  | [] => []
  | [c] => [[c]]
  | c :: d :: rest => [c, d] :: chunksOfTwo rest

/-- `hex_val(hex_byte[0])? << 4 | hex_val(hex_byte[1])?` -/
def hexByte (chunk : Bytes) : Option (Except HexError UInt8) := do
  match hexVal (← chunk[0]?) with
  | .error error => some (.error error)
  | .ok high => match hexVal (← chunk[1]?) with
    | .error error => some (.error error)
    | .ok low => some (.ok (high <<< 4 ||| low))

/-- The arguments of `impl_fromstr_deserailize`. -/
structure FromBytes (n : Nat) (T : Type) where
  name : String
  fromBytes : Vector UInt8 n → Option T

variable {n : Nat} {T : Type} (type : FromBytes n T)

namespace FromBytes

def fromStr (hex : String) : Option (Except HexError T) :=
  if (asBytes hex).length % 2 = 1 then some (.error .invalidHex)
  else if n * 2 ≠ (asBytes hex).length then some (.error .invalidLength)
  else match fill hexByte 0 (chunksOfTwo (asBytes hex)) (.replicate n 0) with
    | none => none
    | some (.error error) => some (.error error)
    | some (.ok buf) => some ((type.fromBytes buf).elim (.error .invalidEncoding) .ok)

/-- The errors of `serde::de::Error` that the visitors make, with what they say was expected. -/
inductive DeError where
  | custom (message : String)
  | invalidLength (length : Nat) (expected : String)
  | invalidValue (unexpected expected : String)

/-- What a deserializer hands to the visitor: the text when it is human readable, otherwise what
    each `next_element` of the tuple yields. -/
inductive Deserializer where
  | humanReadable (text : String)
  | binary (elements : Nat → Except DeError (Option UInt8))

/-- `HexVisitor::expecting` -/
def expectingHex : String := "a " ++ toString n ++ "-byte hex encoded " ++ type.name

/-- `BytesVisitor::expecting` -/
def expectingBytes : String := "a valid " ++ toString n ++ "-byte encoding of a " ++ type.name

def visitError (v : String) : HexError → DeError
  | .invalidLength => .invalidLength (asBytes v).length (toString n)
  | .invalidEncoding => .invalidValue v type.expectingHex
  | .invalidHex => .custom "invalid hex"

def visitStr (v : String) : Option (Except DeError T) :=
  (type.fromStr v).map (Except.mapError (type.visitError v))

def nextByte (elements : Nat → Except DeError (Option UInt8)) (i : Nat) :
    Option (Except DeError UInt8) :=
  match elements i with
  | .error error => some (.error error)
  | .ok none => some (.error (.custom
      ("invalid length " ++ toString i ++ ", expected " ++ type.expectingBytes)))
  | .ok (some byte) => some (.ok byte)

def visitSeq (elements : Nat → Except DeError (Option UInt8)) : Option (Except DeError T) :=
  match fill (type.nextByte elements) 0 (List.range n) (.replicate n 0) with
  | none => none
  | some (.error error) => some (.error error)
  | some (.ok input) => some ((type.fromBytes input).elim
      (.error (.custom ("invalid byte encoding, expected " ++ type.expectingBytes))) .ok)

def deserialize : Deserializer → Option (Except DeError T)
  | .humanReadable text => type.visitStr text
  | .binary elements => type.visitSeq elements

end FromBytes

end Source

/-- `Seed([u8; 64])` -/
def seed : FromBytes 64 Seed where
  name := "32-byte lindy seed"
  fromBytes := fun bytes => some ⟨bytes.toList⟩

section Encoding

/-- `u8::to_ascii_lowercase` -/
def toAsciiLowercase (c : UInt8) : UInt8 :=
  if 'A'.toUInt8 ≤ c ∧ c ≤ 'Z'.toUInt8 then c + 32 else c

/-- `str::eq_ignore_ascii_case` -/
def EqIgnoreAsciiCase (a b : String) : Prop :=
  (asBytes a).map toAsciiLowercase = (asBytes b).map toAsciiLowercase

/-- The digits of each byte, the one of the higher nibble first. -/
def hexDigits (bytes : Bytes) : List Char :=
  bytes.flatMap fun byte => [(byte.toNat / 16).digitChar, (byte.toNat % 16).digitChar]

/-- A text encodes bytes when it is their digits, in any mixture of cases. -/
def Encodes (hex : String) (bytes : Bytes) : Prop :=
  EqIgnoreAsciiCase hex (.ofList (hexDigits bytes))

/-- An ASCII hex digit of either case. -/
def IsHexDigit (c : UInt8) : Prop := ∃ v < 16, toAsciiLowercase c = v.digitChar.toUInt8

theorem hexVal_error {c : UInt8} {error : HexError} (failed : hexVal c = .error error) :
    error = .invalidHex := by
  unfold hexVal at failed
  split_ifs at failed
  exact (Except.error.inj failed).symm

theorem hexVal_table : ∀ n < 256,
    if (hexVal (.ofNat n)).toOption = none then
      ∀ v < 16, toAsciiLowercase (.ofNat n) ≠ v.digitChar.toUInt8
    else ∃ v < 16, toAsciiLowercase (.ofNat n) = v.digitChar.toUInt8 ∧
      (hexVal (.ofNat n)).toOption = some (.ofNat v) := by
  decide +kernel

/-- A byte is either a digit, and its value is read, or it is refused. -/
theorem hexVal_cases (c : UInt8) :
    (∃ v < 16, toAsciiLowercase c = v.digitChar.toUInt8 ∧ hexVal c = .ok (.ofNat v)) ∨
      ¬ IsHexDigit c ∧ hexVal c = .error .invalidHex := by
  have entry := hexVal_table c.toNat c.toNat_lt_size
  rw [UInt8.ofNat_toNat] at entry
  cases read : hexVal c with
  | error error =>
      rw [read] at entry
      refine .inr ⟨?_, congrArg _ (hexVal_error read)⟩
      rintro ⟨v, small, digit⟩
      exact entry v small digit
  | ok value =>
      rw [read] at entry
      obtain ⟨v, small, digit, same⟩ := entry
      exact .inl ⟨v, small, digit, congrArg _ (Option.some.inj same)⟩

theorem digitChar_inj : ∀ v < 16, ∀ w < 16, v.digitChar.toUInt8 = w.digitChar.toUInt8 → v = w := by
  decide

theorem digitChar_lower : ∀ v < 16,
    toAsciiLowercase v.digitChar.toUInt8 = v.digitChar.toUInt8 := by
  decide

theorem digitChar_ascii : ∀ v < 16,
    String.utf8EncodeChar v.digitChar = [v.digitChar.toUInt8] := by
  decide

theorem nibbles_packed : ∀ h < 16, ∀ l < 16,
    UInt8.ofNat h <<< 4 ||| UInt8.ofNat l = UInt8.ofNat (16 * h + l) := by
  decide +kernel

/-- The lower case digits of bytes, as they stand in a text. -/
def digitBytes (bytes : Bytes) : Bytes := (hexDigits bytes).map Char.toUInt8

@[simp] theorem digitBytes_nil : digitBytes [] = [] := rfl

@[simp] theorem digitBytes_cons (byte : UInt8) (bytes : Bytes) : digitBytes (byte :: bytes) =
    (byte.toNat / 16).digitChar.toUInt8 :: (byte.toNat % 16).digitChar.toUInt8 ::
      digitBytes bytes := rfl

theorem digitBytes_lower (bytes : Bytes) :
    (digitBytes bytes).map toAsciiLowercase = digitBytes bytes := by
  induction bytes with
  | nil => rfl
  | cons byte bytes ih =>
      have small : byte.toNat < 256 := byte.toNat_lt_size
      rw [digitBytes_cons, List.map_cons, List.map_cons, ih,
        digitChar_lower _ (by omega), digitChar_lower _ (by omega)]

theorem asBytes_hexDigits (bytes : Bytes) :
    asBytes (.ofList (hexDigits bytes)) = digitBytes bytes := by
  rw [asBytes_eq, String.toList_ofList]
  induction bytes with
  | nil => rfl
  | cons byte bytes ih =>
      have small : byte.toNat < 256 := byte.toNat_lt_size
      have high := digitChar_ascii (byte.toNat / 16) (by omega)
      have low := digitChar_ascii (byte.toNat % 16) (by omega)
      rw [digitBytes_cons, ← ih]
      simp only [hexDigits, List.flatMap_cons, high, low, List.cons_append, List.nil_append]

theorem encodes_iff {hex : String} {bytes : Bytes} :
    Encodes hex bytes ↔ (asBytes hex).map toAsciiLowercase = digitBytes bytes := by
  rw [Encodes, EqIgnoreAsciiCase, asBytes_hexDigits, digitBytes_lower]

theorem length_digitBytes (bytes : Bytes) : (digitBytes bytes).length = bytes.length * 2 := by
  induction bytes with
  | nil => rfl
  | cons byte bytes ih =>
      simp only [digitBytes_cons, List.length_cons, ih]
      omega

theorem digitBytes_injective : Function.Injective digitBytes := by
  intro bytes
  induction bytes with
  | nil =>
      intro bytes' same
      cases bytes' with
      | nil => rfl
      | cons => simp at same
  | cons byte bytes ih =>
      intro bytes' same
      cases bytes' with
      | nil => simp at same
      | cons byte' bytes' =>
          simp only [digitBytes_cons, List.cons.injEq] at same
          obtain ⟨high, low, rest⟩ := same
          have small : byte.toNat < 256 := byte.toNat_lt_size
          have small' : byte'.toNat < 256 := byte'.toNat_lt_size
          have sameHigh := digitChar_inj _ (by omega) _ (by omega) high
          have sameLow := digitChar_inj _ (by omega) _ (by omega) low
          rw [ih rest, UInt8.toNat_inj.mp (show byte.toNat = byte'.toNat by omega)]

theorem Encodes.length {hex : String} {bytes : Bytes} (encodes : Encodes hex bytes) :
    (asBytes hex).length = bytes.length * 2 := by
  have same := congrArg List.length (encodes_iff.mp encodes)
  rwa [List.length_map, length_digitBytes] at same

theorem mem_digitBytes {bytes : Bytes} {c : UInt8} (member : c ∈ digitBytes bytes) :
    ∃ v < 16, c = v.digitChar.toUInt8 := by
  induction bytes with
  | nil => cases member
  | cons byte bytes ih =>
      have small : byte.toNat < 256 := byte.toNat_lt_size
      simp only [digitBytes_cons, List.mem_cons] at member
      rcases member with rfl | rfl | member
      · exact ⟨_, by omega, rfl⟩
      · exact ⟨_, by omega, rfl⟩
      · exact ih member

theorem Encodes.isHexDigit {hex : String} {bytes : Bytes} (encodes : Encodes hex bytes) {c : UInt8}
    (member : c ∈ asBytes hex) : IsHexDigit c :=
  mem_digitBytes (encodes_iff.mp encodes ▸ List.mem_map_of_mem member)

end Encoding

section Decoding

/-- Two digits make the byte they are the digits of. -/
theorem hexByte_cases (c d : UInt8) :
    (∃ byte, [c, d].map toAsciiLowercase = digitBytes [byte] ∧ hexByte [c, d] = some (.ok byte)) ∨
      (¬ IsHexDigit c ∨ ¬ IsHexDigit d) ∧ hexByte [c, d] = some (.error .invalidHex) := by
  rcases hexVal_cases c with ⟨h, small, high, readHigh⟩ | ⟨other, failed⟩
  · rcases hexVal_cases d with ⟨l, small', low, readLow⟩ | ⟨other, failed⟩
    · refine .inl ⟨.ofNat (16 * h + l), ?_, ?_⟩
      · have value : (UInt8.ofNat (16 * h + l)).toNat = 16 * h + l := by
          rw [UInt8.toNat_ofNat', Nat.mod_eq_of_lt (by omega)]
        have upper : (16 * h + l) / 16 = h := by omega
        have lower : (16 * h + l) % 16 = l := by omega
        simp only [List.map_cons, List.map_nil, digitBytes_cons, digitBytes_nil, value, upper,
          lower, high, low]
      · rw [← nibbles_packed h small l small']
        simp [hexByte, readHigh, readLow]
    · refine .inr ⟨.inr other, ?_⟩
      simp [hexByte, readHigh, failed]
  · refine .inr ⟨.inl other, ?_⟩
    simp [hexByte, failed]

theorem length_chunksOfTwo {digits : Bytes} (even : digits.length % 2 = 0) :
    (chunksOfTwo digits).length * 2 = digits.length := by
  fun_induction chunksOfTwo digits with
  | case1 => rfl
  | case2 c => simp at even
  | case3 c d rest ih =>
      simp only [List.length_cons] at even ⊢
      have := ih (by omega)
      omega

theorem mem_chunksOfTwo {digits chunk : Bytes} (even : digits.length % 2 = 0)
    (member : chunk ∈ chunksOfTwo digits) : ∃ c ∈ digits, ∃ d ∈ digits, chunk = [c, d] := by
  fun_induction chunksOfTwo digits with
  | case1 => cases member
  | case2 c => simp at even
  | case3 c d rest ih =>
      rcases List.mem_cons.mp member with rfl | later
      · exact ⟨c, by simp, d, by simp, rfl⟩
      · simp only [List.length_cons] at even
        obtain ⟨c', mem, d', mem', same⟩ := ih (by omega) later
        exact ⟨c', by simp [mem], d', by simp [mem'], same⟩

/-- What the chunks are decoded to has the digits they are made of. -/
theorem digits_of_decoded {digits ys : Bytes} (even : digits.length % 2 = 0)
    (decoded : List.Forall₂ (fun chunk y => hexByte chunk = some (.ok y))
      (chunksOfTwo digits) ys) : digits.map toAsciiLowercase = digitBytes ys := by
  fun_induction chunksOfTwo digits generalizing ys with
  | case1 => cases decoded; rfl
  | case2 c => simp at even
  | case3 c d rest ih =>
      obtain _ | ⟨first, others⟩ := decoded
      rename_i y ys
      simp only [List.length_cons] at even
      rcases hexByte_cases c d with ⟨byte, digits, read⟩ | ⟨-, read⟩
      · obtain rfl : byte = y := by simpa [read] using first
        have pair := congrArg (· ++ digitBytes ys) digits
        simpa [ih (by omega) others] using pair
      · simp [read] at first

variable {n : Nat} {T : Type} {type : FromBytes n T} {hex : String}

namespace FromBytes

/-- At the right length the text encodes bytes, which are what the constructor is given, or has
    something else than digits in it. -/
theorem fromStr_of_length (type : FromBytes n T) (long : (asBytes hex).length = n * 2) :
    (∃ bytes : Vector UInt8 n, Encodes hex bytes.toList ∧ type.fromStr hex =
      some ((type.fromBytes bytes).elim (.error .invalidEncoding) .ok)) ∨
    (∃ c ∈ asBytes hex, ¬ IsHexDigit c) ∧ type.fromStr hex = some (.error .invalidHex) := by
  have even : (asBytes hex).length % 2 = 0 := by omega
  have notOdd : ¬ (asBytes hex).length % 2 = 1 := by omega
  have right : ¬ n * 2 ≠ (asBytes hex).length := by omega
  have total : ∀ chunk ∈ chunksOfTwo (asBytes hex), ∃ result, hexByte chunk = some result := by
    intro chunk member
    obtain ⟨c, -, d, -, rfl⟩ := mem_chunksOfTwo even member
    rcases hexByte_cases c d with ⟨byte, -, read⟩ | ⟨-, read⟩
    · exact ⟨_, read⟩
    · exact ⟨_, read⟩
  have fits : 0 + (chunksOfTwo (asBytes hex)).length = n := by
    have := length_chunksOfTwo even
    omega
  rcases fill_cases total (.replicate n 0) fits with
    ⟨ys, out, decoded, filled, written⟩ | ⟨chunk, member, error, failed, filled⟩
  · refine .inl ⟨out, ?_, by rw [fromStr, if_neg notOdd, if_neg right, filled]⟩
    rw [written, List.take_zero, List.nil_append, encodes_iff]
    exact digits_of_decoded even decoded
  · obtain ⟨c, mem, d, mem', rfl⟩ := mem_chunksOfTwo even member
    rcases hexByte_cases c d with ⟨byte, -, read⟩ | ⟨other, read⟩
    · simp [read] at failed
    · obtain rfl : HexError.invalidHex = error := by simpa [read] using failed
      refine .inr ⟨?_, by rw [fromStr, if_neg notOdd, if_neg right, filled]⟩
      rcases other with other | other
      · exact ⟨c, mem, other⟩
      · exact ⟨d, mem', other⟩

theorem fromStr_of_encodes {bytes : Vector UInt8 n} (encodes : Encodes hex bytes.toList) :
    type.fromStr hex = some ((type.fromBytes bytes).elim (.error .invalidEncoding) .ok) := by
  have long := encodes.length
  rw [Vector.length_toList] at long
  rcases type.fromStr_of_length long with ⟨bytes', encodes', read⟩ | ⟨⟨c, mem, other⟩, -⟩
  · obtain rfl : bytes' = bytes := by
      apply Vector.toList_inj.mp
      exact digitBytes_injective ((encodes_iff.mp encodes').symm.trans (encodes_iff.mp encodes))
    exact read
  · exact absurd (encodes.isHexDigit mem) other

/-- The three errors come in this order: an odd length, another length, something else than
    digits, and last what the constructor refuses. -/
theorem fromStr_cases (type : FromBytes n T) (hex : String) :
    ((asBytes hex).length % 2 = 1 ∧ type.fromStr hex = some (.error .invalidHex)) ∨
    ((asBytes hex).length % 2 = 0 ∧ (asBytes hex).length ≠ n * 2 ∧
      type.fromStr hex = some (.error .invalidLength)) ∨
    ((asBytes hex).length = n * 2 ∧ (∃ c ∈ asBytes hex, ¬ IsHexDigit c) ∧
      type.fromStr hex = some (.error .invalidHex)) ∨
    ∃ bytes : Vector UInt8 n, Encodes hex bytes.toList ∧ type.fromStr hex =
      some ((type.fromBytes bytes).elim (.error .invalidEncoding) .ok) := by
  by_cases odd : (asBytes hex).length % 2 = 1
  · exact .inl ⟨odd, by rw [fromStr, if_pos odd]⟩
  by_cases wrong : n * 2 ≠ (asBytes hex).length
  · exact .inr (.inl ⟨by omega, wrong.symm, by rw [fromStr, if_neg odd, if_pos wrong]⟩)
  have long : (asBytes hex).length = n * 2 := by omega
  rcases type.fromStr_of_length long with decoded | ⟨other, read⟩
  · exact .inr (.inr (.inr decoded))
  · exact .inr (.inr (.inl ⟨long, other, read⟩))

theorem fromStr_total (type : FromBytes n T) (hex : String) :
    ∃ result, type.fromStr hex = some result := by
  rcases type.fromStr_cases hex with
    ⟨-, read⟩ | ⟨-, -, read⟩ | ⟨-, -, read⟩ | ⟨_, -, read⟩ <;>
  exact ⟨_, read⟩

theorem nextByte_total (elements : Nat → Except DeError (Option UInt8)) (i : Nat) :
    ∃ result, type.nextByte elements i = some result := by
  rcases next : elements i with error | _ | byte <;> exact ⟨_, by simp only [nextByte, next]; rfl⟩

theorem deserialize_total (type : FromBytes n T) (deserializer : Deserializer) :
    ∃ result, type.deserialize deserializer = some result := by
  cases deserializer with
  | humanReadable text =>
      obtain ⟨result, read⟩ := type.fromStr_total text
      exact ⟨_, by simp only [deserialize, visitStr, read, Option.map_some]; rfl⟩
  | binary elements =>
      rcases fill_cases (fun i _ => type.nextByte_total elements i) (.replicate n 0)
          (show 0 + (List.range n).length = n by simp) with
        ⟨ys, out, -, filled, -⟩ | ⟨i, -, error, -, filled⟩ <;>
      exact ⟨_, by simp only [deserialize, visitSeq, filled]; rfl⟩

/-- Bytes handed over one by one are what the constructor is given. -/
theorem visitSeq_of_elements (type : FromBytes n T)
    {elements : Nat → Except DeError (Option UInt8)} {bytes : Vector UInt8 n}
    (handed : ∀ i (inside : i < n), elements i = .ok (some bytes[i])) :
    ∃ error, type.visitSeq elements = some ((type.fromBytes bytes).elim (.error error) .ok) := by
  have next : ∀ i (inside : i < n), type.nextByte elements i = some (.ok bytes[i]) := by
    intro i inside
    simp only [nextByte, handed i inside]
  rcases fill_cases (fun i _ => type.nextByte_total elements i) (.replicate n 0)
      (show 0 + (List.range n).length = n by simp) with
    ⟨ys, out, read, filled, written⟩ | ⟨i, member, error, failed, -⟩
  · obtain rfl : out = bytes := by
      apply Vector.ext
      intro i inside
      have long : ys.length = n := by simpa using read.length_eq.symm
      have same := read.get (i := i) (by simpa using inside) (by omega)
      simp only [List.get_eq_getElem, List.getElem_range, next i inside, Option.some.injEq,
        Except.ok.injEq] at same
      have there : out.toList[i]? = ys[i]? := by
        rw [written, List.take_zero, List.nil_append]
      rw [same]
      simpa [inside, long] using there
    exact ⟨_, by simp only [visitSeq, filled]; rfl⟩
  · rw [next i (List.mem_range.mp member)] at failed
    cases failed

end FromBytes

theorem Encodes.same {hex hex' : String} {bytes bytes' : Bytes} (encodes : Encodes hex bytes)
    (encodes' : Encodes hex' bytes') : bytes = bytes' ↔ EqIgnoreAsciiCase hex hex' := by
  rw [EqIgnoreAsciiCase, encodes_iff.mp encodes, encodes_iff.mp encodes',
    digitBytes_injective.eq_iff]

/-- A text of the right length encodes bytes just when there is nothing but digits in it. -/
theorem encodes_iff_digits (hex : String) (n : Nat) :
    (∃ bytes : Vector UInt8 n, Encodes hex bytes.toList) ↔
      (asBytes hex).length = n * 2 ∧ ∀ c ∈ asBytes hex, IsHexDigit c := by
  constructor
  · rintro ⟨bytes, encodes⟩
    have long := encodes.length
    rw [Vector.length_toList] at long
    exact ⟨long, fun c member => encodes.isHexDigit member⟩
  · rintro ⟨long, digits⟩
    -- the constructor does not matter here
    rcases FromBytes.fromStr_of_length ⟨"", some⟩ long with
      ⟨bytes, encodes, -⟩ | ⟨⟨c, member, other⟩, -⟩
    · exact ⟨bytes, encodes⟩
    · exact absurd (digits c member) other

namespace FromBytes

/-- Past the checks of the text, the result is that of the constructor. -/
theorem encodes_of_result {result : Except HexError T} (read : type.fromStr hex = some result)
    (isHex : result ≠ .error .invalidHex) (isLong : result ≠ .error .invalidLength) :
    ∃ bytes : Vector UInt8 n, Encodes hex bytes.toList ∧
      result = (type.fromBytes bytes).elim (.error .invalidEncoding) .ok := by
  rcases type.fromStr_cases hex with
    ⟨-, failed⟩ | ⟨-, -, failed⟩ | ⟨-, -, failed⟩ | ⟨bytes, encodes, decoded⟩
  · exact absurd (Option.some.inj (read.symm.trans failed)) isHex
  · exact absurd (Option.some.inj (read.symm.trans failed)) isLong
  · exact absurd (Option.some.inj (read.symm.trans failed)) isHex
  · exact ⟨bytes, encodes, Option.some.inj (read.symm.trans decoded)⟩

theorem fromStr_eq_ok {value : T} : type.fromStr hex = some (.ok value) ↔
    ∃ bytes : Vector UInt8 n, Encodes hex bytes.toList ∧ type.fromBytes bytes = some value := by
  constructor
  · intro read
    obtain ⟨bytes, encodes, same⟩ := encodes_of_result read (by simp) (by simp)
    cases made : type.fromBytes bytes with
    | none => simp [made] at same
    | some value' =>
        obtain rfl : value = value' := by simpa [made] using same
        exact ⟨bytes, encodes, made⟩
  · rintro ⟨bytes, encodes, made⟩
    rw [fromStr_of_encodes encodes, made, Option.elim_some]

theorem fromStr_invalidEncoding : type.fromStr hex = some (.error .invalidEncoding) ↔
    ∃ bytes : Vector UInt8 n, Encodes hex bytes.toList ∧ type.fromBytes bytes = none := by
  constructor
  · intro read
    obtain ⟨bytes, encodes, same⟩ := encodes_of_result read (by simp) (by simp)
    cases made : type.fromBytes bytes with
    | none => exact ⟨bytes, encodes, made⟩
    | some value => simp [made] at same
  · rintro ⟨bytes, encodes, refused⟩
    rw [fromStr_of_encodes encodes, refused, Option.elim_none]

/-- Only the constructor refuses what encodes bytes. -/
theorem fromStr_error_of_encodes {bytes : Vector UInt8 n} {error : HexError}
    (encodes : Encodes hex bytes.toList) (read : type.fromStr hex = some (.error error)) :
    error = .invalidEncoding := by
  rw [fromStr_of_encodes encodes] at read
  cases made : type.fromBytes bytes with
  | none => simpa [made] using read.symm
  | some value => simp [made] at read

theorem fromStr_invalidHex : type.fromStr hex = some (.error .invalidHex) ↔
    (asBytes hex).length % 2 = 1 ∨
      (asBytes hex).length = n * 2 ∧ ∃ c ∈ asBytes hex, ¬ IsHexDigit c := by
  rcases type.fromStr_cases hex with
    ⟨odd, read⟩ | ⟨even, wrong, read⟩ | ⟨long, other, read⟩ | ⟨bytes, encodes, read⟩
  · simp [odd, read]
  · simp [even, wrong, read]
  · simp [long, other, read]
  · obtain ⟨long, digits⟩ := (encodes_iff_digits hex n).mp ⟨bytes, encodes⟩
    constructor
    · intro failed
      cases fromStr_error_of_encodes encodes failed
    · rintro (odd | ⟨-, c, member, other⟩)
      · omega
      · exact absurd (digits c member) other

theorem fromStr_invalidLength : type.fromStr hex = some (.error .invalidLength) ↔
    (asBytes hex).length % 2 = 0 ∧ (asBytes hex).length ≠ n * 2 := by
  rcases type.fromStr_cases hex with
    ⟨odd, read⟩ | ⟨even, wrong, read⟩ | ⟨long, other, read⟩ | ⟨bytes, encodes, read⟩
  · simp [odd, read]
  · simp [even, wrong, read]
  · simp [long, read]
  · obtain ⟨long, -⟩ := (encodes_iff_digits hex n).mp ⟨bytes, encodes⟩
    constructor
    · intro failed
      cases fromStr_error_of_encodes encodes failed
    · rintro ⟨-, wrong⟩
      exact absurd long wrong

/-- A text and the bytes it encodes are read as the same value, or both refused. -/
theorem deserialize_agrees {elements : Nat → Except DeError (Option UInt8)}
    {bytes : Vector UInt8 n} (encodes : Encodes hex bytes.toList)
    (handed : ∀ i (inside : i < n), elements i = .ok (some bytes[i])) :
    ∃ result result', type.deserialize (.humanReadable hex) = some result ∧
      type.deserialize (.binary elements) = some result' ∧
      result.toOption = type.fromBytes bytes ∧ result'.toOption = type.fromBytes bytes := by
  obtain ⟨error, read⟩ := type.visitSeq_of_elements handed
  refine ⟨_, _, by rw [deserialize, visitStr, fromStr_of_encodes encodes]; rfl, read, ?_, ?_⟩ <;>
    cases type.fromBytes bytes <;> rfl

end FromBytes

/-- What `from_str` answers for each text, that it never panics, and that the texts which encode
    the same bytes, and those bytes themselves, are read as the same value. -/
theorem hexParsing (type : FromBytes n T) (hex : String) :
    ((∃ bytes : Vector UInt8 n, Encodes hex bytes.toList) ↔
      (asBytes hex).length = n * 2 ∧ ∀ c ∈ asBytes hex, IsHexDigit c) ∧
    (∀ value, type.fromStr hex = some (.ok value) ↔
      ∃ bytes : Vector UInt8 n, Encodes hex bytes.toList ∧ type.fromBytes bytes = some value) ∧
    (type.fromStr hex = some (.error .invalidHex) ↔ (asBytes hex).length % 2 = 1 ∨
      (asBytes hex).length = n * 2 ∧ ∃ c ∈ asBytes hex, ¬ IsHexDigit c) ∧
    (type.fromStr hex = some (.error .invalidLength) ↔
      (asBytes hex).length % 2 = 0 ∧ (asBytes hex).length ≠ n * 2) ∧
    (type.fromStr hex = some (.error .invalidEncoding) ↔
      ∃ bytes : Vector UInt8 n, Encodes hex bytes.toList ∧ type.fromBytes bytes = none) ∧
    (∃ result, type.fromStr hex = some result) ∧
    (∀ bytes : Vector UInt8 n, Encodes hex bytes.toList →
      type.fromStr hex = some ((type.fromBytes bytes).elim (.error .invalidEncoding) .ok)) ∧
    (∀ (hex' : String) (bytes bytes' : Bytes), Encodes hex bytes → Encodes hex' bytes' →
      (bytes = bytes' ↔ EqIgnoreAsciiCase hex hex')) ∧
    (∀ elements (bytes : Vector UInt8 n), Encodes hex bytes.toList →
      (∀ i (inside : i < n), elements i = .ok (some bytes[i])) →
      ∃ result result', type.deserialize (.humanReadable hex) = some result ∧
        type.deserialize (.binary elements) = some result' ∧
        result.toOption = type.fromBytes bytes ∧ result'.toOption = type.fromBytes bytes) ∧
    ∀ deserializer, ∃ result, type.deserialize deserializer = some result := by
  refine ⟨encodes_iff_digits hex n, fun value => FromBytes.fromStr_eq_ok,
    FromBytes.fromStr_invalidHex, FromBytes.fromStr_invalidLength,
    FromBytes.fromStr_invalidEncoding, type.fromStr_total hex, ?_, ?_, ?_, type.deserialize_total⟩
  · exact fun bytes encodes => FromBytes.fromStr_of_encodes encodes
  · exact fun hex' bytes bytes' encodes encodes' => encodes.same encodes'
  · exact fun elements bytes encodes handed => FromBytes.deserialize_agrees encodes handed

theorem mixedCase_encodes : Encodes (.ofList (List.replicate 64 ['A', 'a']).flatten)
    (Vector.replicate 64 170).toList := by
  rw [encodes_iff, asBytes_eq, String.toList_ofList]
  decide +kernel

theorem hexParsing_seed : ∃ result result',
    seed.deserialize (.humanReadable (.ofList (List.replicate 64 ['A', 'a']).flatten)) =
      some result ∧
    seed.deserialize (.binary fun _ => .ok (some 170)) = some result' ∧
    result.toOption = some ⟨List.replicate 64 170⟩ ∧
    result'.toOption = some ⟨List.replicate 64 170⟩ :=
  (hexParsing seed _).2.2.2.2.2.2.2.2.1 _ (.replicate 64 170) mixedCase_encodes
    fun i inside => by rw [Vector.getElem_replicate]

end Decoding

end Lindy.Hex
