import Lindy.Keys

/-! # The point randomizer

The keys of a channel are the two node keys, each shifted by a scalar drawn from a stream
that only the two nodes can start.
-/

namespace Lindy

open Bitcoin

variable {c : Crates}

/-- The cipher with the part of its key stream already used. -/
structure ChaCha20 where
  key : Bytes
  nonce : Bytes
  position : Nat

def ChaCha20.new (key nonce : Bytes) : ChaCha20 := ⟨key, nonce, 0⟩

def ChaCha20.encrypt (c : Crates) (cipher : ChaCha20) (buffer : Bytes) : Bytes × ChaCha20 :=
  (buffer.mapIdx fun i byte => byte ^^^ c.chacha20 cipher.key cipher.nonce (cipher.position + i),
    { cipher with position := cipher.position + buffer.length })

inductive PointKind where
  | funding | balance
  deriving DecidableEq

/-- `point_kind as u64`. -/
def PointKind.toU64 : PointKind → UInt64
  | .funding => 0
  | .balance => 1

/-- `to_be_bytes`. -/
def toBeBytes (n : UInt64) : Bytes :=
  (List.range 8).map fun i => (n >>> (56 - 8 * i.toUInt64)).toUInt8

structure PointRandomizer (c : Crates) where
  base1 : c.Point
  base2 : c.Point
  sharedSecret : Bytes

namespace PointRandomizer

/-- `from_ecdh`: party 1 comes first. -/
def fromEcdh (localKey : KeyPair c) (remote : c.EvenPoint) (iAmParty1 : Bool) :
    PointRandomizer c :=
  let point := localKey.secretKey • remote.1
  let res := c.sha256 (c.toBytes point)
  match iAmParty1 with
  | true => ⟨localKey.publicKey.1, remote.1, res⟩
  | false => ⟨remote.1, localKey.publicKey.1, res⟩

/-- `points_at`; `none` when a scalar or a point comes out zero. -/
def pointsAt (pr : PointRandomizer c) (pointKind : PointKind) :
    Option ((c.Scalar × c.Point) × (c.Scalar × c.Point)) := do
  let index := List.replicate 4 0 ++ toBeBytes pointKind.toU64
  let chacha := ChaCha20.new pr.sharedSecret index
  let (r1, chacha) := chacha.encrypt c (List.replicate 32 0)
  let (r2, _) := chacha.encrypt c (List.replicate 32 0)
  let r1 ← markNonZero (c.fromBytesModOrder r1)
  let r2 ← markNonZero (c.fromBytesModOrder r2)
  let point1 ← markNonZero (pr.base1 + r1 • c.G)
  let point2 ← markNonZero (pr.base2 + r2 • c.G)
  some ((r1, point1), (r2, point2))

/-- Each point is its base shifted by its scalar. -/
theorem pointsAt_eq_some {pr : PointRandomizer c} {kind : PointKind} {r₁ r₂ : c.Scalar}
    {P₁ P₂ : c.Point} (points : pr.pointsAt kind = some ((r₁, P₁), (r₂, P₂))) :
    P₁ = pr.base1 + r₁ • c.G ∧ P₂ = pr.base2 + r₂ • c.G ∧ P₁ ≠ 0 ∧ P₂ ≠ 0 := by
  simp only [pointsAt, Option.bind_eq_bind, Option.bind_eq_some_iff, markNonZero_eq_some,
    Option.some.injEq, Prod.mk.injEq] at points
  obtain ⟨_, ⟨-, rfl⟩, _, ⟨-, rfl⟩, _, ⟨nonzero₁, rfl⟩, _, ⟨nonzero₂, rfl⟩, ⟨rfl, rfl⟩, rfl,
    rfl⟩ := points
  exact ⟨rfl, rfl, nonzero₁, nonzero₂⟩

end PointRandomizer

end Lindy
