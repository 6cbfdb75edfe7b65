import Lindy.Channel.Commitment
import Lindy.Crates.Small

/-! # Both parties derive one channel

Party 1 and party 2 start their randomizers from the same shared secret and the same two
bases, so every object made from one is the object made from the other.
-/

namespace Lindy

open Bitcoin

variable {c : Crates}

/-- The two nodes meet at one point. -/
theorem KeyPair.ecdh (A B : KeyPair c) :
    A.secretKey • B.publicKey.1 = B.secretKey • A.publicKey.1 := by
  rw [A.consistent, B.consistent]
  exact smul_comm _ _ _

namespace PointRandomizer

theorem fromEcdh_comm (A B : KeyPair c) :
    fromEcdh A B.publicKey true = fromEcdh B A.publicKey false := by
  simp only [fromEcdh, A.ecdh B]

theorem fromEcdh_role (A B : KeyPair c) (role : Bool) :
    fromEcdh A B.publicKey role = fromEcdh B A.publicKey !role := by
  cases role with
  | true => exact fromEcdh_comm A B
  | false => exact (fromEcdh_comm B A).symm

/-- Only the bases depend on the role. -/
theorem fromEcdh_sharedSecret (A : KeyPair c) (remote : c.EvenPoint) (role : Bool) :
    (fromEcdh A remote role).sharedSecret = (fromEcdh A remote true).sharedSecret := by
  cases role <;> rfl

/-- The scalars are drawn from the shared secret alone. -/
theorem pointsAt_scalars {pr pr' : PointRandomizer c} {kind : PointKind}
    {r₁ r₂ r₁' r₂' : c.Scalar} {P₁ P₂ P₁' P₂' : c.Point}
    (secret : pr.sharedSecret = pr'.sharedSecret)
    (points : pr.pointsAt kind = some ((r₁, P₁), (r₂, P₂)))
    (points' : pr'.pointsAt kind = some ((r₁', P₁'), (r₂', P₂'))) : r₁ = r₁' ∧ r₂ = r₂' := by
  simp only [pointsAt, Option.bind_eq_bind, Option.bind_eq_some_iff, markNonZero_eq_some,
    Option.some.injEq, Prod.mk.injEq] at points points'
  obtain ⟨_, ⟨-, rfl⟩, _, ⟨-, rfl⟩, _, -, _, -, ⟨rfl, -⟩, rfl, -⟩ := points
  obtain ⟨_, ⟨-, rfl⟩, _, ⟨-, rfl⟩, _, -, _, -, ⟨rfl, -⟩, rfl, -⟩ := points'
  rw [secret]
  exact ⟨rfl, rfl⟩

end PointRandomizer

namespace ChannelManager

section Shared

variable (A B : ChannelManager c) (role : Bool)

theorem pointRandomizer_agree :
    A.pointRandomizer B.id role = B.pointRandomizer A.id !role :=
  PointRandomizer.fromEcdh_role _ _ role

theorem fundingPublicKeys_agree :
    A.fundingPublicKeys B.id role = B.fundingPublicKeys A.id !role := by
  simp only [fundingPublicKeys, A.pointRandomizer_agree B role]

theorem fundingDescriptorFor_agree :
    A.fundingDescriptorFor B.id role = B.fundingDescriptorFor A.id !role := by
  simp only [fundingDescriptorFor, A.fundingPublicKeys_agree B role]

theorem balanceDescriptors_agree :
    A.balanceDescriptors B.id role = B.balanceDescriptors A.id !role := by
  simp only [balanceDescriptors, A.pointRandomizer_agree B role]

theorem stateTx_agree (id : ChannelId) (index : UInt32) (commit : CommitState) :
    A.stateTx id index B.id commit role = B.stateTx id index A.id commit !role := by
  simp only [stateTx, A.balanceDescriptors_agree B role]

theorem stateSighash_agree (id : ChannelId) (index : UInt32) (commit : CommitState) :
    A.stateSighash id index B.id commit role = B.stateSighash id index A.id commit !role := by
  simp only [stateSighash, A.stateTx_agree B role, A.fundingDescriptorFor_agree B role]

end Shared

/-- A node knows the secret of the funding point of its role. -/
theorem fundingSecretKeyFor_point {m : ChannelManager c} {peer : c.PeerId} {role : Bool}
    {r₁ r₂ : c.Scalar} {P₁ P₂ : c.Point}
    (points : (m.pointRandomizer peer role).pointsAt .funding = some ((r₁, P₁), (r₂, P₂))) :
    ∃ secretKey, m.fundingSecretKeyFor peer role = some secretKey ∧
      secretKey • c.G = if role then P₁ else P₂ := by
  obtain ⟨shifted₁, shifted₂, nonzero₁, nonzero₂⟩ := PointRandomizer.pointsAt_eq_some points
  have own := m.keychain.nodeKeypair.consistent
  cases role with
  | true =>
      have point : (m.keychain.nodeKeypair.secretKey + r₁) • c.G = P₁ := by
        rw [add_smul, ← own, shifted₁]
        rfl
      refine ⟨_, ?_, point⟩
      simp only [fundingSecretKeyFor, points, Option.bind_eq_bind, Option.bind_some, if_true,
        markNonZero_eq_some, and_true]
      intro zero
      rw [zero, zero_smul] at point
      exact nonzero₁ point.symm
  | false =>
      have point : (m.keychain.nodeKeypair.secretKey + r₂) • c.G = P₂ := by
        rw [add_smul, ← own, shifted₂]
        rfl
      refine ⟨_, ?_, point⟩
      simp only [fundingSecretKeyFor, points, Option.bind_eq_bind, Option.bind_some,
        Bool.false_eq_true, if_false, markNonZero_eq_some, and_true]
      intro zero
      rw [zero, zero_smul] at point
      exact nonzero₂ point.symm

/-- Who opens the channel shows in its keys. -/
theorem fundingPublicKeys_role {m : ChannelManager c} {peer : c.PeerId} (distinct : m.id ≠ peer)
    {keys keys' : c.PublicKey × c.PublicKey}
    (first : m.fundingPublicKeys peer true = some keys)
    (second : m.fundingPublicKeys peer false = some keys') : keys ≠ keys' := by
  obtain ⟨r₁, P₁, r₂, P₂, points, rfl⟩ := fundingPublicKeys_eq_some.mp first
  obtain ⟨r₁', P₁', r₂', P₂', points', rfl⟩ := fundingPublicKeys_eq_some.mp second
  have secret := PointRandomizer.fromEcdh_sharedSecret m.keychain.nodeKeypair peer false
  obtain ⟨rfl, -⟩ := PointRandomizer.pointsAt_scalars secret.symm points points'
  have shifted := (PointRandomizer.pointsAt_eq_some points).1
  have shifted' := (PointRandomizer.pointsAt_eq_some points').1
  intro same
  obtain rfl : P₁ = P₁' := congrArg (fun keys => keys.1.key) same
  have bases : m.id.1 = peer.1 := add_right_cancel (shifted.symm.trans shifted')
  exact distinct (Subtype.ext bases)

end ChannelManager

/-- Nodes of the small group. -/
def smallAlice : ChannelManager smallCrates :=
  .new (smallKeyChain _ _ 2 (by decide) (by decide))

def smallBob : ChannelManager smallCrates :=
  .new (smallKeyChain _ _ 4 (by decide) (by decide))

def smallCarol : ChannelManager smallCrates :=
  .new (smallKeyChain _ _ 8 (by decide) (by decide))

def smallPoint (P : ZMod 101) : smallCrates.Point := P

theorem smallPoints : (smallAlice.pointRandomizer smallBob.id true).pointsAt .funding =
    some ((1, smallPoint 3), (2, smallPoint 6)) := by
  decide +kernel

end Lindy
