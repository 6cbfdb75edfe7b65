import Lindy.Channel.Amounts
import Lindy.Signing

/-! # What a commit signature signs

The sighash of a state transaction binds the channel, the split of the balance and the direction
of opening. The outpoint says the channel and the keys say the direction. The split can be read
back from the outputs: a balance of zero has no output, and the fee is the same for every split.
-/

namespace Lindy

open Bitcoin

variable {c : Crates}

theorem Crates.subU64_eq_some {a b value : UInt64} (subtracted : c.subU64 a b = some value) :
    value = a - b := by
  unfold subU64 at subtracted
  split_ifs at subtracted
  exact (Option.some.inj subtracted).symm

namespace CommitState

/-- What a split pays, with the script of each party. -/
def outputs (commit : CommitState) (script₁ script₂ : Script) : List TxOut :=
  (if 0 < commit.p1 then [⟨commit.p1 - 1000, script₁⟩] else []) ++
    if 0 < commit.p2 then [⟨commit.p2, script₂⟩] else []

variable {script₁ script₂ : Script}

theorem outputs_filter₁ (distinct : script₁ ≠ script₂) (commit : CommitState) :
    (commit.outputs script₁ script₂).filter (·.scriptPubkey = script₁) =
      if 0 < commit.p1 then [⟨commit.p1 - 1000, script₁⟩] else [] := by
  unfold outputs
  split_ifs <;> simp [distinct.symm]

theorem outputs_filter₂ (distinct : script₁ ≠ script₂) (commit : CommitState) :
    (commit.outputs script₁ script₂).filter (·.scriptPubkey = script₂) =
      if 0 < commit.p2 then [⟨commit.p2, script₂⟩] else [] := by
  unfold outputs
  split_ifs <;> simp [distinct]

/-- A balance can be told from the output it has or has not. -/
theorem balance_unique {f : UInt64 → UInt64} (injective : Function.Injective f) {script : Script}
    {a b : UInt64} (same : (if 0 < a then [(⟨f a, script⟩ : TxOut)] else []) =
      if 0 < b then [⟨f b, script⟩] else []) : a = b := by
  have zero : ∀ n : UInt64, ¬ 0 < n → n = 0 := fun n none =>
    UInt64.le_antisymm (UInt64.not_lt.mp none) (UInt64.zero_le)
  by_cases first : 0 < a
  · by_cases second : 0 < b
    · simp only [if_pos first, if_pos second, List.cons.injEq, TxOut.mk.injEq, and_true] at same
      exact injective same
    · simp [first, second] at same
  · by_cases second : 0 < b
    · simp [first, second] at same
    · rw [zero a first, zero b second]

/-- Two splits with the same outputs are one, though the fee is taken from party 1 only. -/
theorem outputs_injective (distinct : script₁ ≠ script₂) {commit commit' : CommitState}
    (same : commit.outputs script₁ script₂ = commit'.outputs script₁ script₂) :
    commit = commit' := by
  have toParty₁ := congrArg (List.filter (·.scriptPubkey = script₁)) same
  have toParty₂ := congrArg (List.filter (·.scriptPubkey = script₂)) same
  rw [outputs_filter₁ distinct, outputs_filter₁ distinct] at toParty₁
  rw [outputs_filter₂ distinct, outputs_filter₂ distinct] at toParty₂
  obtain ⟨p1, p2⟩ := commit
  obtain ⟨p1', p2'⟩ := commit'
  obtain rfl : p1 = p1' :=
    balance_unique (fun _ _ => (UInt64.sub_left_inj 1000).mp) toParty₁
  obtain rfl : p2 = p2' := balance_unique Function.injective_id toParty₂
  rfl

end CommitState

namespace ChannelManager

theorem stateOutputs_eq_some {p1BalDes p2BalDes : c.Descriptor} {commit : CommitState}
    {outputs : List TxOut} (made : stateOutputs c p1BalDes p2BalDes commit = some outputs) :
    outputs = commit.outputs (c.scriptPubkey p1BalDes) (c.scriptPubkey p2BalDes) := by
  have last : ∀ outputs₁ : List TxOut, (if 0 < commit.p2 then
      some (outputs₁ ++ [⟨commit.p2, c.scriptPubkey p2BalDes⟩]) else some outputs₁) =
        some outputs → outputs = outputs₁ ++
          if 0 < commit.p2 then [⟨commit.p2, c.scriptPubkey p2BalDes⟩] else [] := by
    intro outputs₁ rest
    split_ifs at rest ⊢
    · exact (Option.some.inj rest).symm
    · rw [List.append_nil, Option.some.inj rest]
  unfold CommitState.outputs
  by_cases positive : 0 < commit.p1
  · simp only [stateOutputs, if_pos positive, Option.bind_eq_bind, Option.bind_eq_some_iff,
      Option.some.injEq] at made
    obtain ⟨value, subtracted, outputs₁, rfl, rest⟩ := made
    rw [if_pos positive, ← Crates.subU64_eq_some subtracted]
    exact last _ rest
  · simp only [stateOutputs, if_neg positive, Option.bind_eq_bind, Option.bind_some] at made
    rw [if_neg positive]
    exact last _ made

section Binding

variable {m : ChannelManager c} {peer : c.PeerId} {id id' : ChannelId}
  {commit commit' : CommitState} {role role' : Bool} {sighash sighash' : Bytes}

/-- The script that a commitment spends from tells the direction of opening. -/
theorem role_of_witnessScript (scripts : c.LawfulScripts) (distinct : m.id ≠ peer)
    {descriptor descriptor' : c.Descriptor}
    (made : m.fundingDescriptorFor peer role = some descriptor)
    (made' : m.fundingDescriptorFor peer role' = some descriptor')
    (same : c.witnessScript descriptor = c.witnessScript descriptor') : role = role' := by
  obtain ⟨key₁, key₂, miniscript, keys, compiled, rfl⟩ := fundingDescriptorFor_eq_some.mp made
  obtain ⟨key₁', key₂', miniscript', keys', compiled', rfl⟩ :=
    fundingDescriptorFor_eq_some.mp made'
  obtain ⟨_, P₁, _, P₂, -, points⟩ := fundingPublicKeys_eq_some.mp keys
  obtain ⟨_, P₁', _, P₂', -, points'⟩ := fundingPublicKeys_eq_some.mp keys'
  obtain ⟨rfl, rfl⟩ := Prod.mk.inj points
  obtain ⟨rfl, rfl⟩ := Prod.mk.inj points'
  obtain ⟨rfl, rfl⟩ := scripts.wsh _ _ _ _ _ _ compiled compiled' same
  cases role <;> cases role'
  · rfl
  · exact absurd rfl (fundingPublicKeys_role distinct keys' keys)
  · exact absurd rfl (fundingPublicKeys_role distinct keys keys')
  · rfl

/-- The two balance points of the pair differ, whoever opens. -/
def BalanceApart (m : ChannelManager c) (peer : c.PeerId) : Prop :=
  ∀ role r₁ P₁ r₂ P₂,
    (m.pointRandomizer peer role).pointsAt .balance = some ((r₁, P₁), (r₂, P₂)) → P₁ ≠ P₂

theorem BalanceApart.scripts (apart : m.BalanceApart peer) (scripts : c.LawfulScripts)
    {p1BalDes p2BalDes : c.Descriptor}
    (made : m.balanceDescriptors peer role = some (p1BalDes, p2BalDes)) :
    c.scriptPubkey p1BalDes ≠ c.scriptPubkey p2BalDes := by
  obtain ⟨r₁, P₁, r₂, P₂, points, pair⟩ := balanceDescriptors_eq_some.mp made
  obtain ⟨rfl, rfl⟩ := Prod.mk.inj pair
  exact fun same => apart role r₁ P₁ r₂ P₂ points (scripts.wpkh _ _ same)

/-- In one direction of opening, the outputs tell the split. -/
theorem commit_of_outputs (scripts : c.LawfulScripts) (apart : m.BalanceApart peer)
    {index : UInt32} {tx tx' : Transaction}
    (made : m.stateTx id index peer commit role = some tx)
    (made' : m.stateTx id' index peer commit' role = some tx')
    (same : tx.output = tx'.output) : commit = commit' := by
  obtain ⟨p1BalDes, p2BalDes, outputs, balance, paid, rfl⟩ := stateTx_eq_some made
  obtain ⟨p1BalDes', p2BalDes', outputs', balance', paid', rfl⟩ := stateTx_eq_some made'
  obtain ⟨rfl, rfl⟩ := Prod.mk.inj (Option.some.inj (balance.symm.trans balance'))
  apply CommitState.outputs_injective (apart.scripts scripts balance)
  rw [← stateOutputs_eq_some paid, ← stateOutputs_eq_some paid']
  exact same

/-- A sighash is that of one channel, one split and one direction of opening, so a signature that
    is accepted for one message only is accepted for one commitment only. -/
theorem sighashBinds (sighashes : c.LawfulSighash) (scripts : c.LawfulScripts)
    (distinct : m.id ≠ peer) (apart : m.BalanceApart peer)
    (hash : m.stateSighash id 0 peer commit role = some sighash)
    (hash' : m.stateSighash id' 0 peer commit' role' = some sighash') :
    (sighash = sighash' ↔ id = id' ∧ commit = commit' ∧ role = role') ∧
    ∀ (P Y P' Y' : c.Point) (commitSig : c.EncryptedSignature),
      (∀ message message', c.verifyEncryptedSignature P Y message commitSig = true →
        c.verifyEncryptedSignature P' Y' message' commitSig = true → message = message') →
      c.verifyEncryptedSignature P Y sighash commitSig = true →
      c.verifyEncryptedSignature P' Y' sighash' commitSig = true →
      id = id' ∧ commit = commit' ∧ role = role' := by
  have binds : sighash = sighash' → id = id' ∧ commit = commit' ∧ role = role' := by
    intro same
    obtain ⟨outputs, descriptor, value, made, funding, -, rfl⟩ := stateSighash_eq_some hash
    obtain ⟨outputs', descriptor', value', made', funding', -, rfl⟩ := stateSighash_eq_some hash'
    obtain ⟨outpoint, script, -, paid⟩ := sighashes _ _ _ _ _ _ _ _ rfl rfl same
    obtain rfl := role_of_witnessScript scripts distinct funding funding' script
    exact ⟨outpoint, commit_of_outputs scripts apart made made' paid, rfl⟩
  constructor
  · refine ⟨binds, ?_⟩
    rintro ⟨rfl, rfl, rfl⟩
    exact Option.some.inj (hash.symm.trans hash')
  · intro P Y P' Y' commitSig once accepted accepted'
    exact binds (once _ _ accepted accepted')

end Binding

end ChannelManager

section Small

/-- The small crates with another signature hash. -/
def hashingCrates (hash : OutPoint × Script × UInt64 × List TxOut → Bytes) : Crates :=
  { smallCrates with
    signatureHash := fun tx _ script value _ =>
      hash ((tx.input.headD .default).previousOutput, script, value, tx.output) }

variable {hash : OutPoint × Script × UInt64 × List TxOut → Bytes}

/-- A node of the small crates, whose keys these are too. -/
def hashing (hash : OutPoint × Script × UInt64 × List TxOut → Bytes)
    (m : ChannelManager smallCrates) : ChannelManager (hashingCrates hash) where
  toSelfDelay := m.toSelfDelay
  keychain := {
    seed := m.keychain.seed
    keypair := {
      secretKey := m.keychain.keypair.secretKey
      publicKey := m.keychain.keypair.publicKey
      consistent := m.keychain.keypair.consistent } }

theorem hashingCrates_sighash (injective : Function.Injective hash) :
    (hashingCrates hash).LawfulSighash := by
  intro tx tx' input input' script script' value value' first first' same
  have parts := injective same
  simp only [List.headD_eq_head?_getD, List.head?_eq_getElem?, first, first', Option.getD_some,
    Prod.mk.injEq] at parts
  exact parts

theorem smallBytes_injective : Function.Injective smallBytes := by
  intro P P' same
  have bound := ZMod.val_lt P
  have bound' := ZMod.val_lt P'
  apply ZMod.val_injective
  have value := congrArg UInt8.toNat same
  simp only [smallBytes, UInt8.toNat_ofNat'] at value
  omega

theorem hashingCrates_scripts : (hashingCrates hash).LawfulScripts where
  wpkh := by
    intro P P' same
    have bytes : [2, smallBytes P] = [2, smallBytes P'] := same
    simp only [List.cons.injEq, true_and, and_true] at bytes
    exact smallBytes_injective bytes
  wsh := by
    intro P₁ P₂ P₁' P₂' miniscript miniscript' compiled compiled' same
    obtain rfl : [⟨true, P₁⟩, ⟨true, P₂⟩] = miniscript := Option.some.inj compiled
    obtain rfl : [⟨true, P₁'⟩, ⟨true, P₂'⟩] = miniscript' := Option.some.inj compiled'
    have bytes : [smallBytes P₁, smallBytes P₂] = [smallBytes P₁', smallBytes P₂'] := same
    simp only [List.cons.injEq, and_true] at bytes
    exact ⟨smallBytes_injective bytes.1, smallBytes_injective bytes.2⟩

theorem hashing_pointsAt (A B : ChannelManager smallCrates) (role : Bool) (kind : PointKind) :
    ((hashing hash A).pointRandomizer (hashing hash B).id role).pointsAt kind =
      (A.pointRandomizer B.id role).pointsAt kind := by
  unfold PointRandomizer.pointsAt
  cases role <;> rfl

theorem smallBalance_true : (smallAlice.pointRandomizer smallBob.id true).pointsAt .balance =
    some ((3, smallPoint 5), (4, smallPoint 8)) := by
  decide +kernel

theorem smallBalance_false : (smallAlice.pointRandomizer smallBob.id false).pointsAt .balance =
    some ((3, smallPoint 7), (4, smallPoint 6)) := by
  decide +kernel

theorem hashing_apart : (hashing hash smallAlice).BalanceApart (hashing hash smallBob).id := by
  intro role r₁ P₁ r₂ P₂ points
  rw [hashing_pointsAt] at points
  cases role with
  | true =>
      cases Option.some.inj (smallBalance_true.symm.trans points)
      exact (by decide +kernel : smallPoint 5 ≠ smallPoint 8)
  | false =>
      cases Option.some.inj (smallBalance_false.symm.trans points)
      exact (by decide +kernel : smallPoint 7 ≠ smallPoint 6)

/-- The sighash of a split that leaves 1000 or more to party 1. -/
theorem hashing_sighash (hash : OutPoint × Script × UInt64 × List TxOut → Bytes)
    {commit : CommitState} (fee : 1000 ≤ commit.p1)
    (fits : commit.p1.toNat + commit.p2.toNat < 2 ^ 64) :
    ∃ sighash, (hashing hash smallAlice).stateSighash ⟨7, 0⟩ 0 (hashing hash smallBob).id commit
      true = some sighash := by
  have balance : (hashing hash smallAlice).balanceDescriptors (hashing hash smallBob).id true =
      some (.wpkh ⟨true, smallPoint 5⟩, .wpkh ⟨true, smallPoint 8⟩) := by
    rw [ChannelManager.balanceDescriptors, hashing_pointsAt, smallBalance_true]
    rfl
  have funding : (hashing hash smallAlice).fundingDescriptorFor (hashing hash smallBob).id true =
      some (.wsh [⟨true, smallPoint 3⟩, ⟨true, smallPoint 6⟩]) := by
    rw [ChannelManager.fundingDescriptorFor, ChannelManager.fundingPublicKeys, hashing_pointsAt,
      smallPoints]
    rfl
  exact ChannelManager.stateSighash_of_stateTx (ChannelManager.stateTx_of_fee balance fee) funding
    (Crates.addU64_of_lt fits)

theorem sighashBinds_small : ∃ hash sighash sighash', Function.Injective hash ∧
    (hashing hash smallAlice).stateSighash ⟨7, 0⟩ 0 (hashing hash smallBob).id ⟨5000, 0⟩ true =
      some sighash ∧
    (hashing hash smallAlice).stateSighash ⟨7, 0⟩ 0 (hashing hash smallBob).id ⟨3000, 2000⟩ true =
      some sighash' ∧ sighash ≠ sighash' := by
  obtain ⟨number, injective⟩ := exists_injective_nat (OutPoint × Script × UInt64 × List TxOut)
  have injective' : Function.Injective fun signed => List.replicate (number signed) (0 : UInt8) :=
    fun _ _ same => injective (by simpa using congrArg List.length same)
  obtain ⟨sighash, hash⟩ := hashing_sighash (fun signed => List.replicate (number signed) 0)
    (show 1000 ≤ (⟨5000, 0⟩ : CommitState).p1 by decide) (by decide)
  obtain ⟨sighash', hash'⟩ := hashing_sighash (fun signed => List.replicate (number signed) 0)
    (show 1000 ≤ (⟨3000, 2000⟩ : CommitState).p1 by decide) (by decide)
  have distinct : smallAlice.id ≠ smallBob.id := by decide +kernel
  have binds := ChannelManager.sighashBinds (hashingCrates_sighash injective')
    hashingCrates_scripts (fun same => distinct same) hashing_apart hash hash'
  refine ⟨_, sighash, sighash', injective', hash, hash', ?_⟩
  exact binds.1.not.mpr (by decide)

end Small

end Lindy
