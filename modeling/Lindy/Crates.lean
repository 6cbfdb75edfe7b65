import Lindy.Bitcoin.Transaction
import Mathlib.Algebra.Field.Defs
import Mathlib.Algebra.Module.Defs

/-! # What comes from other crates

The group of `secp256kfun`, the signatures of `ecdsa_fun` and `secp256k1`, the hashes and the
cipher, `miniscript` and the functions of `bitcoin` are not part of the repository. `Crates`
collects what is called of them and `Crates.Lawful…` what is relied on, each law on its own
so that a result names just those it rests on.
-/

namespace Lindy

open Bitcoin

structure Secp256kfun where
  Scalar : Type
  Point : Type
  [field : Field Scalar]
  [group : AddCommGroup Point]
  [scalarMul : Module Scalar Point]
  [scalarEq : DecidableEq Scalar]
  [pointEq : DecidableEq Point]
  /-- The generator. -/
  G : Point
  G_ne_zero : G ≠ 0
  isYEven : Point → Bool
  /-- `Point::<EvenY>::from_scalar_mul(base, &mut scalar)`: the point and the scalar as it
      is left, negated where the y coordinate came out odd. -/
  fromScalarMul : Point → Scalar → Point × Scalar
  fromScalarMul_smul : ∀ P x, (fromScalarMul P x).1 = (fromScalarMul P x).2 • P
  fromScalarMul_even : ∀ P x, P ≠ 0 → x ≠ 0 →
    (fromScalarMul P x).1 ≠ 0 ∧ isYEven (fromScalarMul P x).1 = true
  toBytes : Point → Bytes
  fromBytesModOrder : Bytes → Scalar

attribute [instance] Secp256kfun.field Secp256kfun.group Secp256kfun.scalarMul
  Secp256kfun.scalarEq Secp256kfun.pointEq

/-- `mark::<NonZero>()`. -/
def markNonZero {α : Type} [Zero α] [DecidableEq α] (a : α) : Option α :=
  if a = 0 then none else some a

theorem markNonZero_eq_some {α : Type} [Zero α] [DecidableEq α] {a b : α} :
    markNonZero a = some b ↔ a ≠ 0 ∧ b = a := by
  unfold markNonZero
  split
  · simp [*]
  · simp [*, eq_comm]

/-- `bitcoin::PublicKey`. -/
structure PublicKey (Point : Type) where
  compressed : Bool
  key : Point
  deriving DecidableEq

/-- `policy::concrete::Policy`. -/
inductive Policy (Key : Type) where
  | key (key : Key)
  | and (policies : List (Policy Key))

/-- The descriptors the repository makes. -/
inductive Descriptor (Miniscript Key : Type) where
  | wsh (miniscript : Miniscript)
  | wpkh (key : Key)
  deriving DecidableEq

structure Crates extends Secp256kfun where
  Signature : Type
  EncryptedSignature : Type
  /-- What the nonce generator draws. -/
  Entropy : Type
  encryptedSign : Scalar → Point → Bytes → Entropy → EncryptedSignature
  verifyEncryptedSignature : Point → Point → Bytes → EncryptedSignature → Bool
  decryptSignature : Scalar → EncryptedSignature → Signature
  sign : Scalar → Bytes → Entropy → Signature
  verify : Point → Bytes → Signature → Bool
  isLowS : Signature → Bool
  /-- `Secp256k1::verify(..).is_ok()` of the converted signature. -/
  secp256k1Verify : Bytes → Signature → Point → Bool
  serializeDer : Signature → Bytes
  sha256 : Bytes → Bytes
  hmacSha512 : Bytes → Bytes → Bytes
  /-- The key stream of a key and a nonce. -/
  chacha20 : Bytes → Bytes → Nat → UInt8
  Miniscript : Type
  [miniscriptEq : DecidableEq Miniscript]
  /-- `policy.compile::<Segwitv0>()`. -/
  compile : Policy (PublicKey Point) → Option Miniscript
  scriptPubkey : Descriptor Miniscript (PublicKey Point) → Script
  witnessScript : Descriptor Miniscript (PublicKey Point) → Script
  /-- `descriptor.satisfy(&mut txin, PsbtInputSatisfier::new(&psbt, index))`. -/
  satisfy : Descriptor Miniscript (PublicKey Point) → TxIn → Psbt (PublicKey Point) → Nat →
    Option TxIn
  txid : Transaction → Txid
  signatureHash : Transaction → Nat → Script → UInt64 → SigHashType → Bytes
  fromUnsignedTx : Transaction → Option (Psbt (PublicKey Point))
  extractTx : Psbt (PublicKey Point) → Transaction
  /-- `bdk::Error`. -/
  BdkError : Type
  displayOutPoint : OutPoint → String
  displayXOnly : Point → String
  /-- Whether the build panics on integer overflow; otherwise the value wraps. -/
  overflowChecks : Bool

attribute [instance] Crates.miniscriptEq

namespace Crates

variable (c : Crates)

abbrev PublicKey := Lindy.PublicKey c.Point

abbrev Descriptor := Lindy.Descriptor c.Miniscript c.PublicKey

abbrev Psbt := Bitcoin.Psbt c.PublicKey

/-- `a + b` on `u64`; `none` is a panic. -/
def addU64 (a b : UInt64) : Option UInt64 :=
  if c.overflowChecks ∧ 2 ^ 64 ≤ a.toNat + b.toNat then none else some (a + b)

/-- `a - b` on `u64`; `none` is a panic. -/
def subU64 (a b : UInt64) : Option UInt64 :=
  if c.overflowChecks ∧ a < b then none else some (a - b)

/-- `Point<EvenY>`, and `XOnly` alike: an x coordinate names the point above it with an even
    y. -/
def EvenPoint := { P : c.Point // P ≠ 0 ∧ c.isYEven P = true }

instance : DecidableEq c.EvenPoint := inferInstanceAs (DecidableEq (Subtype _))

/-- A remote node is known by the x coordinate of its key. -/
abbrev PeerId := c.EvenPoint

end Crates

/-- The policy of a 2-of-2. -/
def Policy.both {Key : Type} (key₁ key₂ : Key) : Policy Key :=
  .and [.key key₁, .key key₂]

/-- How a signature stands in a witness. -/
def Crates.rawSignature (c : Crates) (signature : c.Signature) : Bytes :=
  c.serializeDer signature ++ [SigHashType.all.toU8]

namespace Crates

/-- An adaptor signature is accepted for the keys it was made with. -/
def AcceptsSigned (c : Crates) : Prop :=
  ∀ (x y : c.Scalar) (message : Bytes) (entropy : c.Entropy), x ≠ 0 → y ≠ 0 →
    c.verifyEncryptedSignature (x • c.G) (y • c.G) message
      (c.encryptedSign x (y • c.G) message entropy) = true

/-- The adaptor signatures of `ecdsa_fun`. -/
structure LawfulAdaptor (c : Crates) : Prop where
  accepts : c.AcceptsSigned
  /-- What is accepted decrypts to a signature. -/
  decrypts : ∀ (P : c.Point) (y : c.Scalar) (message : Bytes)
    (encrypted : c.EncryptedSignature),
    c.verifyEncryptedSignature P (y • c.G) message encrypted = true →
      c.verify P message (c.decryptSignature y encrypted) = true ∧
        c.isLowS (c.decryptSignature y encrypted) = true

/-- The plain signatures of `ecdsa_fun`, and `secp256k1` agreeing with them. -/
structure LawfulEcdsa (c : Crates) : Prop where
  signs : ∀ (x : c.Scalar) (message : Bytes) (entropy : c.Entropy),
    c.verify (x • c.G) message (c.sign x message entropy) = true ∧
      c.isLowS (c.sign x message entropy) = true
  agrees : ∀ (P : c.Point) (message : Bytes) (signature : c.Signature),
    c.verify P message signature = true → c.isLowS signature = true →
      c.secp256k1Verify message signature P = true

/-- A 2-of-2 is satisfied once a signature stands under each key. -/
def LawfulMiniscript (c : Crates) : Prop :=
  ∀ (key₁ key₂ : c.PublicKey) (miniscript : c.Miniscript) (txin : TxIn) (psbt : c.Psbt)
    (input : PsbtInput c.PublicKey) (signature₁ signature₂ : c.Signature),
    c.compile (.both key₁ key₂) = some miniscript → psbt.inputs[0]? = some input →
    input.partialSigs.get key₁ = some (c.rawSignature signature₁) →
    input.partialSigs.get key₂ = some (c.rawSignature signature₂) →
    ∃ satisfied, c.satisfy (.wsh miniscript) txin psbt 0 = some satisfied ∧
      c.rawSignature signature₁ ∈ satisfied.witness ∧
      c.rawSignature signature₂ ∈ satisfied.witness

/-- Making a PSBT and taking the transaction out of it again. -/
structure LawfulPsbt (c : Crates) : Prop where
  fromUnsigned : ∀ tx : Transaction,
    (∀ input ∈ tx.input, input.scriptSig = [] ∧ input.witness = []) →
      c.fromUnsignedTx tx = some (.ofUnsigned tx)
  extract : ∀ psbt : c.Psbt, c.extractTx psbt = psbt.extracted

/-- A txid is a collision-free function of everything but the witnesses. -/
def LawfulTxid (c : Crates) : Prop :=
  ∀ tx tx' : Transaction, c.txid tx = c.txid tx' ↔ tx.withoutWitness = tx'.withoutWitness

/-- What signs everything is a collision-free function of the outpoint that is spent, the script
    and the value it holds, and the outputs. -/
def LawfulSighash (c : Crates) : Prop :=
  ∀ (tx tx' : Transaction) (input input' : TxIn) (script script' : Script) (value value' : UInt64),
    tx.input[0]? = some input → tx'.input[0]? = some input' →
    c.signatureHash tx 0 script value .all = c.signatureHash tx' 0 script' value' .all →
    input.previousOutput = input'.previousOutput ∧ script = script' ∧ value = value' ∧
      tx.output = tx'.output

/-- Distinct points give distinct scripts. -/
structure LawfulScripts (c : Crates) : Prop where
  wpkh : ∀ P P' : c.Point,
    c.scriptPubkey (.wpkh ⟨true, P⟩) = c.scriptPubkey (.wpkh ⟨true, P'⟩) → P = P'
  wsh : ∀ (P₁ P₂ P₁' P₂' : c.Point) (miniscript miniscript' : c.Miniscript),
    c.compile (.both ⟨true, P₁⟩ ⟨true, P₂⟩) = some miniscript →
    c.compile (.both ⟨true, P₁'⟩ ⟨true, P₂'⟩) = some miniscript' →
    c.witnessScript (.wsh miniscript) = c.witnessScript (.wsh miniscript') →
    P₁ = P₁' ∧ P₂ = P₂'

end Crates

end Lindy
