import Lindy.Keys
import Mathlib.Algebra.Field.ZMod
import Mathlib.Tactic.NormNum.Prime

/-! # A small instance of the crates

The group of order 101, with signatures that show their key and message. It meets every law
of `Crates` but the one on transaction ids (`smallCratesWith` takes the id function), so the
laws are consistent and results that assume them can be used on concrete inputs.
-/

namespace Lindy

open Bitcoin Machine

instance fact_prime_101 : Fact (Nat.Prime 101) := ⟨by norm_num⟩

/-- Keys in the order of the policy, as the small miniscript. -/
def compileSmall : Policy (PublicKey (ZMod 101)) → Option (List (PublicKey (ZMod 101)))
  | .and [.key key₁, .key key₂] => some [key₁, key₂]
  | _ => none

def smallBytes (P : ZMod 101) : UInt8 := P.val.toUInt8

def fromScalarMulSmall (P x : ZMod 101) : ZMod 101 × ZMod 101 :=
  if (x • P).val % 2 = 0 then (x • P, x) else ((-x) • P, -x)

theorem even_neg_small : ∀ P : ZMod 101, P ≠ 0 → P.val % 2 ≠ 0 → (-P).val % 2 = 0 := by decide

/-- A signature shows its key and message; an encrypted one also its encryption key. -/
def verifySmall (P : ZMod 101) (message : Bytes) (signature : ZMod 101 × Bytes) : Bool :=
  signature == (P, message)

def verifyEncryptedSmall (P Y : ZMod 101) (message : Bytes)
    (encrypted : ZMod 101 × ZMod 101 × Bytes) : Bool :=
  encrypted == (P, Y, message)

def decryptSmall (y : ZMod 101) (encrypted : ZMod 101 × ZMod 101 × Bytes) :
    ZMod 101 × Bytes :=
  if encrypted.2.1 = y then (encrypted.1, encrypted.2.2) else (0, [])

theorem verifySmall_signed (x : ZMod 101) (message : Bytes) :
    verifySmall (x • 1) message (x, message) = true := by
  simp [verifySmall]

theorem verifyEncryptedSmall_signed (x y : ZMod 101) (message : Bytes) :
    verifyEncryptedSmall (x • 1) (y • 1) message (x, y • 1, message) = true := by
  simp [verifyEncryptedSmall]

theorem verifySmall_decrypted {P y : ZMod 101} {message : Bytes}
    {encrypted : ZMod 101 × ZMod 101 × Bytes}
    (accepted : verifyEncryptedSmall P (y • 1) message encrypted = true) :
    verifySmall P message (decryptSmall y encrypted) = true := by
  obtain rfl : encrypted = (P, y • 1, message) := beq_iff_eq.mp accepted
  simp [verifySmall, decryptSmall]

def satisfySmall (txin : TxIn) :
    Descriptor (List (PublicKey (ZMod 101))) (PublicKey (ZMod 101)) →
    Option (PsbtInput (PublicKey (ZMod 101))) → Option TxIn
  | .wsh keys, some input => some { txin with witness := keys.filterMap input.partialSigs.get }
  | _, _ => none

def smallCratesWith (txid : Transaction → Txid) (overflowChecks : Bool) : Crates where
  Scalar := ZMod 101
  Point := ZMod 101
  G := 1
  G_ne_zero := by decide
  isYEven := fun P => decide (P.val % 2 = 0)
  fromScalarMul := fromScalarMulSmall
  fromScalarMul_smul := by
    intro P x
    unfold fromScalarMulSmall
    split <;> rfl
  fromScalarMul_even := by
    intro P x base scalar
    unfold fromScalarMulSmall
    split
    · rename_i even
      exact ⟨smul_ne_zero scalar base, decide_eq_true even⟩
    · rename_i odd
      refine ⟨smul_ne_zero (neg_ne_zero.mpr scalar) base, decide_eq_true ?_⟩
      rw [neg_smul]
      exact even_neg_small _ (smul_ne_zero scalar base) odd
  toBytes := fun P => [smallBytes P]
  fromBytesModOrder := fun bytes => ((bytes.headD 0).toNat : ZMod 101)
  Signature := ZMod 101 × Bytes
  EncryptedSignature := ZMod 101 × ZMod 101 × Bytes
  Entropy := Unit
  encryptedSign := fun x Y message _ => (x, Y, message)
  verifyEncryptedSignature := verifyEncryptedSmall
  decryptSignature := decryptSmall
  sign := fun x message _ => (x, message)
  verify := verifySmall
  isLowS := fun _ => true
  secp256k1Verify := fun message signature P => verifySmall P message signature
  serializeDer := fun signature => smallBytes signature.1 :: signature.2
  sha256 := fun bytes => bytes
  hmacSha512 := fun key message => key ++ message
  -- the streams of the two point kinds differ, and so do the two draws from each
  chacha20 := fun _ nonce position => (position / 32 + 1).toUInt8 + 2 * nonce.getLastD 0
  Miniscript := List (PublicKey (ZMod 101))
  compile := compileSmall
  scriptPubkey := fun descriptor => match descriptor with
    | .wsh keys => 1 :: keys.map fun key => smallBytes key.key
    | .wpkh key => [2, smallBytes key.key]
  witnessScript := fun descriptor => match descriptor with
    | .wsh keys => keys.map fun key => smallBytes key.key
    | .wpkh key => [smallBytes key.key]
  satisfy := fun descriptor txin psbt index => satisfySmall txin descriptor psbt.inputs[index]?
  txid := txid
  signatureHash := fun tx _ script value _ =>
    [tx.output.length.toUInt8, value.toUInt8] ++ script
  fromUnsignedTx := fun tx => some (.ofUnsigned tx)
  extractTx := Psbt.extracted
  BdkError := Unit
  displayOutPoint := fun outPoint => toString outPoint.txid ++ ":" ++ toString outPoint.vout.toNat
  displayXOnly := fun P => toString P.val
  overflowChecks := overflowChecks

/-- The lock time serves as the id. -/
def smallCrates : Crates := smallCratesWith (fun tx => tx.lockTime.toNat) true

/-- The keys of a node whose secret is an even number. -/
def smallKeyChain (txid : Transaction → Txid) (overflowChecks : Bool) (x : ZMod 101)
    (nonzero : x ≠ 0) (even : x.val % 2 = 0) :
    KeyChain (smallCratesWith txid overflowChecks) where
  seed := ⟨[]⟩
  keypair := {
    secretKey := x
    publicKey := ⟨x, nonzero, decide_eq_true even⟩
    consistent := (mul_one (M := ZMod 101) x).symm }

section Laws

variable {txid : Transaction → Txid} {overflowChecks : Bool}

theorem smallCrates_adaptor : (smallCratesWith txid overflowChecks).LawfulAdaptor where
  accepts := fun x y message _ _ _ => verifyEncryptedSmall_signed x y message
  decrypts := fun _ _ _ _ accepted => ⟨verifySmall_decrypted accepted, rfl⟩

theorem smallCrates_ecdsa : (smallCratesWith txid overflowChecks).LawfulEcdsa where
  signs := fun x message _ => ⟨verifySmall_signed x message, rfl⟩
  agrees := fun _ _ _ verified _ => verified

theorem smallCrates_miniscript : (smallCratesWith txid overflowChecks).LawfulMiniscript := by
  intro key₁ key₂ miniscript txin psbt input signature₁ signature₂ compiled first signed₁ signed₂
  obtain rfl : [key₁, key₂] = miniscript := Option.some.inj compiled
  refine ⟨_, congrArg (satisfySmall txin (.wsh [key₁, key₂])) first,
    List.mem_filterMap.mpr ⟨key₁, List.mem_cons_self, signed₁⟩,
    List.mem_filterMap.mpr ⟨key₂, List.mem_cons_of_mem _ List.mem_cons_self, signed₂⟩⟩

theorem smallCrates_psbt : (smallCratesWith txid overflowChecks).LawfulPsbt where
  fromUnsigned := fun _ _ => rfl
  extract := fun _ => rfl

end Laws

end Lindy
