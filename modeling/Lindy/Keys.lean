import Lindy.Crates

/-! # Node keys

`seed.rs` and `keychain.rs`. A key pair carries what its maker establishes: the public key is
the secret one times the generator, with an even y coordinate.
-/

namespace Lindy

open Bitcoin

variable {c : Crates}

structure KeyPair (c : Crates) where
  secretKey : c.Scalar
  publicKey : c.EvenPoint
  consistent : publicKey.1 = secretKey • c.G

/-- `Seed([u8; 64])`. -/
structure Seed where
  bytes : Bytes

namespace Seed

/-- `to_sha2_hmac`, fed the tag. -/
def hmac (c : Crates) (seed : Seed) (tag : Bytes) : Bytes := c.hmacSha512 seed.bytes tag

def child (c : Crates) (seed : Seed) (tag : Bytes) : Seed := ⟨seed.hmac c tag⟩

/-- `keypair_from_slice`; `none` when the scalar is zero. -/
def keypairFromSlice (c : Crates) (hmac : Bytes) : Option (KeyPair c) :=
  let secretKey := c.fromBytesModOrder (hmac.take 32)
  if zero : secretKey = 0 then none
  else
    let made := c.fromScalarMul c.G secretKey
    some {
      secretKey := made.2
      publicKey := ⟨made.1, c.fromScalarMul_even c.G secretKey c.G_ne_zero zero⟩
      consistent := c.fromScalarMul_smul c.G secretKey }

def keypair (c : Crates) (seed : Seed) (tag : Bytes) : Option (KeyPair c) :=
  keypairFromSlice c (seed.hmac c tag)

end Seed

structure KeyChain (c : Crates) where
  seed : Seed
  keypair : KeyPair c

namespace KeyChain

def new (c : Crates) (seed : Seed) : Option (KeyChain c) := do
  let keypair ← (seed.child c "lindy".toUTF8.toList).keypair c "node-key".toUTF8.toList
  some ⟨seed, keypair⟩

def nodeKeypair (keychain : KeyChain c) : KeyPair c := keychain.keypair

end KeyChain

end Lindy
