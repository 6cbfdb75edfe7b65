import Lindy.Channel.Derivation

/-! # The amounts of the state transaction

`state_tx` takes a flat fee of 1000 from party 1, when party 1 has anything. The machine
arithmetic is compared with the integers: a checked build panics where they differ, an
unchecked one signs a wrapped value.
-/

namespace Lindy

open Bitcoin

variable {c : Crates}

/-- What the outputs should pay, over the integers. -/
def CommitState.payouts (commit : CommitState) : List Int :=
  (if 0 < commit.p1 then [(commit.p1.toNat : Int) - 1000] else []) ++
    if 0 < commit.p2 then [(commit.p2.toNat : Int)] else []

theorem Crates.addU64_of_lt {a b : UInt64} (fits : a.toNat + b.toNat < 2 ^ 64) :
    c.addU64 a b = some (a + b) := by
  simp only [addU64, ite_eq_right_iff, reduceCtorEq, imp_false]
  omega

theorem Crates.subU64_of_le {a b : UInt64} (fits : b ≤ a) : c.subU64 a b = some (a - b) := by
  simp only [subU64, ite_eq_right_iff, reduceCtorEq, imp_false, not_and]
  intro _ less
  exact absurd fits (UInt64.not_le.mpr less)

namespace ChannelManager

/-- The state transaction, its PSBT and its sighash are computed with the amounts the
    integers give, and the transaction pays out something, but less than it spends. -/
def SoundAmounts (m : ChannelManager c) (id : ChannelId) (index : UInt32) (peer : c.PeerId)
    (commit : CommitState) (role : Bool) : Prop :=
  ∃ tx psbt sighash value,
    m.stateTx id index peer commit role = some tx ∧
    m.statePsbt id index peer commit role = some psbt ∧
    m.stateSighash id index peer commit role = some sighash ∧
    commit.fundingValue c = some value ∧
    value.toNat = commit.p1.toNat + commit.p2.toNat ∧
    (tx.output.map fun output => (output.value.toNat : Int)) = commit.payouts ∧
    tx.output ≠ [] ∧ tx.outputSum < value.toNat

variable {m : ChannelManager c} {id : ChannelId} {index : UInt32} {peer : c.PeerId}
  {commit : CommitState} {role : Bool}

/-- The outputs of a commitment that can pay the fee. -/
theorem stateOutputs_of_fee (p1BalDes p2BalDes : c.Descriptor) (fee : 1000 ≤ commit.p1) :
    stateOutputs c p1BalDes p2BalDes commit =
      some (⟨commit.p1 - 1000, c.scriptPubkey p1BalDes⟩ ::
        if 0 < commit.p2 then [⟨commit.p2, c.scriptPubkey p2BalDes⟩] else []) := by
  have positive : 0 < commit.p1 := UInt64.lt_of_lt_of_le (by decide) fee
  simp only [stateOutputs, positive, if_true, Crates.subU64_of_le fee, Option.bind_eq_bind,
    Option.bind_some]
  split <;> rfl

theorem stateTx_of_fee {p1BalDes p2BalDes : c.Descriptor}
    (balance : m.balanceDescriptors peer role = some (p1BalDes, p2BalDes))
    (fee : 1000 ≤ commit.p1) :
    m.stateTx id index peer commit role = some (spending id
      (⟨commit.p1 - 1000, c.scriptPubkey p1BalDes⟩ ::
        if 0 < commit.p2 then [⟨commit.p2, c.scriptPubkey p2BalDes⟩] else [])) := by
  simp only [stateTx, balance, stateOutputs_of_fee p1BalDes p2BalDes fee, Option.bind_eq_bind,
    Option.bind_some]

/-- The PSBT is made from the transaction as it stands. -/
theorem statePsbt_of_stateTx (lawful : c.LawfulPsbt) {outputs : List TxOut}
    {descriptor : c.Descriptor} {value : UInt64}
    (made : m.stateTx id index peer commit role = some (spending id outputs))
    (funding : m.fundingDescriptorFor peer role = some descriptor)
    (added : c.addU64 commit.p1 commit.p2 = some value) :
    ∃ psbt, m.statePsbt id index peer commit role = some psbt := by
  have unsigned : c.fromUnsignedTx (spending id outputs) =
      some (.ofUnsigned (spending id outputs)) := by
    apply lawful.fromUnsigned
    simp [spending]
  simp only [statePsbt, made, unsigned, funding, added, Option.bind_eq_bind, Option.bind_some]
  exact ⟨_, rfl⟩

theorem stateSighash_of_stateTx {outputs : List TxOut} {descriptor : c.Descriptor}
    {value : UInt64} (made : m.stateTx id index peer commit role = some (spending id outputs))
    (funding : m.fundingDescriptorFor peer role = some descriptor)
    (added : c.addU64 commit.p1 commit.p2 = some value) :
    ∃ sighash, m.stateSighash id index peer commit role = some sighash := by
  simp only [stateSighash, made, funding, CommitState.fundingValue, added, Option.bind_eq_bind,
    Option.bind_some]
  exact ⟨_, rfl⟩

/-- The fee is always paid out of party 1's part, so it has to be there. -/
theorem SoundAmounts.fee (sound : m.SoundAmounts id index peer commit role) :
    1000 ≤ commit.p1.toNat ∧ commit.p1.toNat + commit.p2.toNat < 2 ^ 64 := by
  obtain ⟨tx, psbt, sighash, value, -, -, -, -, exact', paid, some', less⟩ := sound
  refine ⟨?_, exact' ▸ value.toNat_lt⟩
  have sum : (tx.outputSum : Int) = commit.payouts.sum := by
    rw [← paid, Transaction.outputSum]
    induction tx.output with
    | nil => rfl
    | cons output outputs ih => simp [ih]
  have each : ∀ amount ∈ commit.payouts, 0 ≤ amount := by
    rw [← paid]
    simp
  by_contra small
  by_cases zero : 0 < commit.p1
  · have negative := each ((commit.p1.toNat : Int) - 1000) (by simp [CommitState.payouts, zero])
    omega
  · -- party 2 would get all of it, or nobody anything
    have none' : commit.p1.toNat = 0 := by
      have := UInt64.lt_iff_toNat_lt.not.mp zero
      simpa using this
    by_cases other : 0 < commit.p2
    · simp [CommitState.payouts, zero, other] at sum
      omega
    · simp [CommitState.payouts, zero, other] at paid
      exact some' paid

theorem soundAmounts_of_fee (lawful : c.LawfulPsbt) {descriptors : c.Descriptor × c.Descriptor}
    {descriptor : c.Descriptor} (balance : m.balanceDescriptors peer role = some descriptors)
    (funding : m.fundingDescriptorFor peer role = some descriptor)
    (fee : 1000 ≤ commit.p1.toNat) (fits : commit.p1.toNat + commit.p2.toNat < 2 ^ 64) :
    m.SoundAmounts id index peer commit role := by
  have fee' : 1000 ≤ commit.p1 := UInt64.le_iff_toNat_le.mpr fee
  have positive : 0 < commit.p1 := UInt64.lt_of_lt_of_le (by decide) fee'
  have made : m.stateTx id index peer commit role = some (spending id _) :=
    stateTx_of_fee balance fee'
  have added := Crates.addU64_of_lt (c := c) fits
  have value : (commit.p1 + commit.p2).toNat = commit.p1.toNat + commit.p2.toNat :=
    (UInt64.toNat_add _ _).trans (Nat.mod_eq_of_lt fits)
  have less : (commit.p1 - 1000).toNat = commit.p1.toNat - 1000 :=
    UInt64.toNat_sub_of_le _ _ fee'
  obtain ⟨psbt, psbt_made⟩ := statePsbt_of_stateTx lawful made funding added
  obtain ⟨sighash, hashed⟩ := stateSighash_of_stateTx made funding added
  refine ⟨_, psbt, sighash, commit.p1 + commit.p2, made, psbt_made, hashed, added, value, ?_,
    List.cons_ne_nil _ _, ?_⟩
  · have paid : ((commit.p1.toNat - 1000 : Nat) : Int) = commit.p1.toNat - 1000 := by omega
    simp only [spending, CommitState.payouts, positive, if_true, List.map_cons, less, paid]
    split <;> rfl
  · simp only [spending, Transaction.outputSum, value, List.map_cons, less]
    split <;> simp <;> omega

/-- The amounts are sound exactly when party 1 can pay the fee and the sum fits. -/
theorem soundAmounts_iff (lawful : c.LawfulPsbt) {descriptors : c.Descriptor × c.Descriptor}
    {descriptor : c.Descriptor} (balance : m.balanceDescriptors peer role = some descriptors)
    (funding : m.fundingDescriptorFor peer role = some descriptor) :
    m.SoundAmounts id index peer commit role ↔
      1000 ≤ commit.p1.toNat ∧ commit.p1.toNat + commit.p2.toNat < 2 ^ 64 :=
  ⟨SoundAmounts.fee, fun ⟨fee, fits⟩ => soundAmounts_of_fee lawful balance funding fee fits⟩

end ChannelManager

theorem smallFunding : smallBob.fundingDescriptorFor smallAlice.id false =
    some (.wsh [⟨true, smallPoint 3⟩, ⟨true, smallPoint 6⟩]) := by
  decide +kernel

theorem smallBalance : smallBob.balanceDescriptors smallAlice.id false =
    some (.wpkh ⟨true, smallPoint 5⟩, .wpkh ⟨true, smallPoint 8⟩) := by
  decide +kernel

theorem soundAmounts_small :
    smallBob.SoundAmounts ⟨7, 0⟩ 0 smallAlice.id ⟨1000, 5⟩ false ∧
      ¬ smallBob.SoundAmounts ⟨7, 0⟩ 0 smallAlice.id ⟨0, 5⟩ false :=
  ⟨(ChannelManager.soundAmounts_iff smallCrates_psbt smallBalance smallFunding).mpr (by decide),
    (ChannelManager.soundAmounts_iff smallCrates_psbt smallBalance smallFunding).not.mpr
      (by decide)⟩

/-- A remote offer of 999 satoshi has no state transaction. -/
theorem smallOffer : ¬ ∀ satoshis : UInt64,
    smallBob.SoundAmounts ⟨7, 0⟩ 0 smallAlice.id ⟨satoshis, 0⟩ false := by
  intro all
  obtain ⟨tx, psbt, sighash, value, made, -⟩ := all 999
  have panics : smallBob.stateTx ⟨7, 0⟩ 0 smallAlice.id ⟨999, 0⟩ false = none := by
    decide +kernel
  rw [panics] at made
  cases made

end Lindy
